import DesignFacts.Analysis.Evaluate
import DesignFacts.Fact.Generate

/-!
# Iterations of generates

The number of iterations of a `for` generate whose bounds have values. Constants are evaluated in
the order of their declarations, each with the values known so far; the defaults of generics fill
in names that no constant has.
-/

namespace DesignFacts

open Text

namespace Bound

/-- The constants with one more name, if its value can be computed. -/
def define (m : Constants) (name value : Text) : Except Fault Constants := do
  match ← evaluate m value with
  | some v => return m.set (lower name) v
  | none => return m

/-- The constants with one more declared constant. -/
def defineConstant (m : Constants) (name : Text) (value : Option Text) : Except Fault Constants :=
  match value with
  | some v => define m name v
  | none => .ok m

/-- The constants with the default of a generic, unless its name has a value already. -/
def defineGeneric (m : Constants) (name : Text) (default : Option Text) :
    Except Fault Constants :=
  if (m.get? (lower name)).isSome then .ok m else defineConstant m name default

/-- The values of constants and generics, each with its name. -/
def constantsOf (constants generics : List (Text × Option Text)) : Except Fault Constants := do
  let m ← constants.foldlM (fun m c => defineConstant m c.1 c.2) []
  generics.foldlM (fun m g => defineGeneric m g.1 g.2) m

/-- The number of iterations between two bounds, none if it is negative or the direction is
unknown. -/
def iterationsBetween (direction : Text) (low high : Int) : Except Fault (Option Int) :=
  let distance? :=
    if isWord direction "to" then some (high - low)
    else if isWord direction "downto" then some (low - high)
    else none
  match distance? with
  | none => .ok none
  | some d =>
    if Numeral.fits d && Numeral.fits (d + 1) then
      .ok (if d + 1 < 0 then none else some (d + 1))
    else .error .iterations

end Bound

def Scheme.iterations (m : Constants) : Scheme → Except Fault (Option Int)
  | loop _ low high direction => do
    match ← Bound.evaluate m low, ← Bound.evaluate m high with
    | some l, some h => Bound.iterationsBetween direction l h
    | _, _ => return none
  | _ => .ok none

namespace Generate

/-- Elaborate a generate statement itself. What it held of an earlier elaboration is dropped first.
The answer says whether there are iterations. -/
def elaborateOwn (m : Constants) (g : Generate) : Except Fault (Bool × Generate) := do
  let fresh := { g with canElaborate := false, iterationCount := -1 }
  match ← g.scheme.iterations m with
  | some count => return (true, { fresh with canElaborate := true, iterationCount := count })
  | none => return (false, fresh)

mutual

/-- Elaborate a generate statement and all those in it, and count those with iterations. -/
def elaborate (m : Constants) : Generate → Except Fault (Nat × Generate)
  | ⟨label, scheme, inArch, line, canElaborate, iterationCount, signals, instances, processes,
      assignments, generates⟩ => do
    let (done, g) ← elaborateOwn m ⟨label, scheme, inArch, line, canElaborate, iterationCount,
      signals, instances, processes, assignments, generates⟩
    let (count, inner) ← elaborateAll m generates
    return ((if done then 1 else 0) + count, { g with generates := inner })

/-- Elaborate generate statements and all those in them, and count those with iterations. -/
def elaborateAll (m : Constants) : List Generate → Except Fault (Nat × List Generate)
  | [] => .ok (0, [])
  | g :: gs => do
    let (count, g') ← elaborate m g
    let (rest, gs') ← elaborateAll m gs
    return (count + rest, g' :: gs')

end

theorem elaborate_eq (m : Constants) (g : Generate) :
    elaborate m g = do
      let (done, g') ← elaborateOwn m g
      let (count, inner) ← elaborateAll m g.generates
      return ((if done then 1 else 0) + count, { g' with generates := inner }) := by
  cases g
  rfl

end Generate

end DesignFacts

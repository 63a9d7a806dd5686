import DesignFacts.Fact.Instance
import DesignFacts.Fact.Object
import DesignFacts.Fact.Process

/-!
# Generate statements

A generate statement repeats or selects its body. It holds the facts of its body, and the generate
statements directly in it hang below it. If its bounds are known, a `for` generate can be elaborated
and has a number of iterations.
-/

namespace DesignFacts

/-- The scheme of a generate statement. -/
inductive Scheme where
  | loop (parameter low high direction : Text)
  | condition (condition : Text)
  | choice (expression : Text) (alternatives : List Text)
  deriving DecidableEq

def Scheme.keyword : Scheme → String
  | loop .. => "for"
  | condition .. => "if"
  | choice .. => "case"

/-- A generate statement with the facts of its body. -/
structure Generate where
  label : Text
  scheme : Scheme
  /-- The architecture path that the statement stands in. -/
  inArch : Text
  line : Nat
  canElaborate : Bool
  /-- The number of iterations, -1 where it could not be computed. -/
  iterationCount : Int
  signals : List Signal
  instances : List Instance
  processes : List ProcessStatement
  assignments : List ConcurrentAssignment
  generates : List Generate

namespace Generate

/-- The path of what stands in a generate statement. -/
def scopePath (g : Generate) : Text :=
  if g.inArch.isEmpty then g.label else g.inArch ++ '.' :: g.label

mutual

/-- A generate statement and all those in it, each before those in it. -/
def walk : Generate → List Generate
  | ⟨label, scheme, inArch, line, canElaborate, iterationCount, signals, instances, processes,
      assignments, generates⟩ =>
    ⟨label, scheme, inArch, line, canElaborate, iterationCount, signals, instances, processes,
      assignments, generates⟩ :: walkAll generates

/-- Generate statements and all those in them. -/
def walkAll : List Generate → List Generate
  | [] => []
  | g :: gs => walk g ++ walkAll gs

end

theorem walkAll_append (gs gs' : List Generate) :
    walkAll (gs ++ gs') = walkAll gs ++ walkAll gs' := by
  induction gs with
  | nil => rfl
  | cons g gs ih => rw [List.cons_append, walkAll, walkAll, ih, List.append_assoc]

theorem walk_eq_cons (g : Generate) : g.walk = g :: walkAll g.generates := by
  cases g
  rfl

end Generate

end DesignFacts

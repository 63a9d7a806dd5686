import DesignFacts.Config.Basic
import DesignFacts.Expression.Relation

/-!
# Clock edges and resets

A condition tests a clock edge if it calls an edge function on a plain name. It tests a reset if
it compares a signal that is named like one with a literal.
-/

namespace DesignFacts

open Text

/-- Whether a text is made of identifier characters and dots only. -/
def isPlainName (t : Text) : Bool := !t.isEmpty && t.all fun c => isIdent c || c == '.'

/-- The edge and the clock that a resolved name tests: it calls an edge function, which is no
element of anything, on one plain name. -/
def ResolvedName.edge? (config : Config) (r : ResolvedName) : Option (ClockEdge × Text) :=
  if r.isIndexed && !r.path.contains '.' then
    (config.edgeKind (Text.lower r.base)).bind fun edge =>
      match r.indices with
      | [arg] => if isPlainName (trim arg) then some (edge, trim arg) else none
      | _ => none
  else none

/-- The edge and the clock that a name tests. -/
def edgeOfName? (config : Config) (L : Lookup) (n : Node) : Option (ClockEdge × Text) :=
  if n.kind.isName then (resolve L n).bind (·.edge? config) else none

/-- The first edge and clock that a condition tests. -/
def edgeCall? (config : Config) (L : Lookup) (condition : Node) : Option (ClockEdge × Text) :=
  condition.subtree.findSome? (edgeOfName? config L)

/-- Whether a search for an edge among some nodes needs a far line. It ends at the first edge. -/
def edgeSearchIsFar (config : Config) (L : Lookup) : List Node → Bool
  | [] => false
  | n :: ns =>
    (n.kind.isName && n.resolvesFar)
      || ((edgeOfName? config L n).isNone && edgeSearchIsFar config L ns)

/-- The relation that a condition consists of, without the containers around it. -/
def innerRelation (n : Node) : Node :=
  if n.kind == .other then
    match _h : n.operandChildren with
    | [only] => innerRelation only
    | _ => n
  else n
termination_by sizeOf n
decreasing_by
  exact Node.sizeOf_lt_of_mem_children (Node.mem_children_of_mem_operandChildren (by simp [_h]))

theorem innerRelation_eq (n : Node) :
    innerRelation n =
      if n.kind == .other then
        match n.operandChildren with
        | [only] => innerRelation only
        | _ => n
      else n := by
  rw [innerRelation]
  split
  · split <;> rename_i h <;> simp [h]
  · rfl

/-- The asynchronous reset that a condition tests. It is active low if it is compared with `'0'`. -/
def resetOf? (config : Config) (L : Lookup) (condition : Node) : Option Reset := do
  let r ← relation L (innerRelation condition)
  if r.rightIsLiteral && config.isResetName r.left then
    some {
      signal := some r.left
      isAsync := true
      polarity := some (if trim r.right == "'0'".toList then .activeLow else .activeHigh) }
  else none

end DesignFacts

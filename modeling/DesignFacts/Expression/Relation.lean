import DesignFacts.Expression.Literal
import DesignFacts.Fact.Process
import DesignFacts.Name.Resolve

/-!
# Comparisons and arithmetic

The comparisons and the costly operations in an expression. A relation is taken apart by the
fields and children of its node, or by its text if the grammar did not split it.
-/

namespace DesignFacts

open Text

/-- Where an expression stands and what it feeds. -/
structure Site where
  inProcess : Text
  inArch : Text
  /-- The target of the statement around the expression. -/
  drives : Option Text
  /-- The guard of the expression. -/
  guard : Option Text

structure Relation where
  left : Text
  operator : Text
  right : Text
  /-- Whether the right side is a literal. -/
  rightIsLiteral : Bool
  line : Nat

/-! ## Relations in texts -/

def relationalOps : List Text :=
  ["=", "/=", "<", "<=", ">", ">=", "?=", "?/=", "?<", "?<=", "?>", "?>="].map String.toList

/-- What a search for an operator finds: the texts around it, a dead end, or nothing. -/
inductive OperatorSearch where
  | found (left operator right : Text)
  | deadEnd
  | absent

/-- Put a character before what was searched. -/
def OperatorSearch.cons (c : Char) : OperatorSearch → OperatorSearch
  | found left operator right => found (c :: left) operator right
  | r => r

mutual

/-- Find the first relational operator outside string and character literals. An arrow `=>` found
first is a dead end. -/
def findOperator : Text → OperatorSearch
  | [] => .absent
  | '"' :: cs => .cons '"' (findAfterString cs)
  | '\'' :: c :: '\'' :: cs =>
    if c.toNat < 0x80 then .cons '\'' (.cons c (.cons '\'' (findOperator cs)))
    else .cons '\'' (findOperator (c :: '\'' :: cs))
  | '/' :: '=' :: cs => .found [] "/=".toList cs
  | '<' :: '=' :: cs => .found [] "<=".toList cs
  | '>' :: '=' :: cs => .found [] ">=".toList cs
  | '=' :: '>' :: _ => .deadEnd
  | '<' :: cs => .found [] ['<'] cs
  | '>' :: cs => .found [] ['>'] cs
  | '=' :: cs => .found [] ['='] cs
  | c :: cs => .cons c (findOperator cs)

/-- Skip to the end of a string, then search on. -/
def findAfterString : Text → OperatorSearch
  | [] => .absent
  | c :: cs => .cons c (if c == '"' then findOperator cs else findAfterString cs)

end

def relationOfText (t : Text) (line : Nat) : Option Relation :=
  match findOperator t with
  | .found left operator right =>
    let left := squash left
    let right := squash right
    if left.isEmpty || right.isEmpty then none
    else some { left, operator, right, rightIsLiteral := Literal.isLiteralText right, line }
  | _ => none

/-! ## Operands -/

namespace Node

/-- The only construct in a container, if there is just one. -/
def soleChild? (n : Node) : Option Node :=
  if n.kind == .other then
    match n.namedChildren with
    | [c] => some c
    | _ => none
  else none

theorem mem_children_of_soleChild? {n c : Node} (h : n.soleChild? = some c) : c ∈ n.children := by
  simp only [soleChild?] at h
  split at h
  · split at h
    · rename_i hc
      cases h
      exact mem_children_of_mem_namedChildren (by simp [hc])
    · cases h
  · cases h

end Node

/-- The text of an operand: the root of a name, what stands in a container that holds one
construct, or the text as it is. -/
def operandText (L : Lookup) (n : Node) : Text :=
  let inner := match _h : n.soleChild? with
    | some c => operandText L c
    | none => squash n.text
  if n.kind.isName then ((resolve L n).map (·.base)).getD inner else inner
termination_by sizeOf n
decreasing_by exact Node.sizeOf_lt_of_mem_children (Node.mem_children_of_soleChild? _h)

theorem operandText_eq (L : Lookup) (n : Node) :
    operandText L n =
      if n.kind.isName then
        ((resolve L n).map (·.base)).getD ((n.soleChild?.map (operandText L)).getD (squash n.text))
      else (n.soleChild?.map (operandText L)).getD (squash n.text) := by
  rw [operandText]
  by_cases hname : n.kind.isName
  · rw [if_pos hname, if_pos hname]
    split <;> rename_i h <;> simp [h]
  · rw [if_neg hname, if_neg hname]
    split <;> rename_i h <;> simp [h]

/-- Whether the text of an operand needs a far line. -/
def operandIsFar (n : Node) : Bool :=
  let inner := match _h : n.soleChild? with
    | some c => operandIsFar c
    | none => false
  if n.kind.isName then n.resolvesFar else inner
termination_by sizeOf n
decreasing_by exact Node.sizeOf_lt_of_mem_children (Node.mem_children_of_soleChild? _h)

theorem operandIsFar_eq (n : Node) :
    operandIsFar n = if n.kind.isName then n.resolvesFar
      else (n.soleChild?.map operandIsFar).getD false := by
  rw [operandIsFar]
  by_cases hname : n.kind.isName
  · rw [if_pos hname, if_pos hname]
  · rw [if_neg hname, if_neg hname]
    split <;> rename_i h <;> simp [h]

/-- Whether an operand is a literal, possibly inside containers. -/
def isLiteralNode (n : Node) : Bool :=
  if n.kind.isLiteral then true
  else if n.kind == .other then
    match _h : n.namedChildren.head? with
    | some c => isLiteralNode c
    | none => Literal.isLiteralText n.text
  else false
termination_by sizeOf n
decreasing_by
  exact Node.sizeOf_lt_of_mem_children
    (Node.mem_children_of_mem_namedChildren (List.mem_of_head? _h))

theorem isLiteralNode_eq (n : Node) :
    isLiteralNode n = if n.kind.isLiteral then true
      else if n.kind == .other then
        (n.namedChildren.head?.map isLiteralNode).getD (Literal.isLiteralText n.text)
      else false := by
  rw [isLiteralNode]
  split
  · rfl
  · split
    · split <;> rename_i h <;> simp [h]
    · rfl

/-! ## Relations in trees -/

namespace Node

/-- The places of the constructs among the children of a node that are no comments. -/
def operandIndices (n : Node) : List Nat :=
  (n.children.zipIdx.filter fun (c, _) => c.named && !c.isComment).map Prod.snd

/-- The place of the left side of a relation. -/
def leftIndex? (n : Node) : Option Nat :=
  (n.children.findIdx? (·.isUnder "left")).or n.operandIndices.head?

/-- The place of the right side of a relation. -/
def rightIndex? (n : Node) : Option Nat :=
  (n.children.findIdx? (·.isUnder "right")).or
    (if 2 ≤ n.operandIndices.length then n.operandIndices.getLast? else none)

def relationalOperator? (n : Node) : Option Text :=
  ((n.childUnder "operator").or
    (n.children.find? fun c =>
      (!c.named && relationalOps.contains c.trimmed) || c.tag == "relational_operator")).map
    trimmed

/-- The two sides of a relation, if they stand at different places. -/
def relationSides? (n : Node) : Option (Node × Node) := do
  let l ← n.leftIndex?
  let r ← n.rightIndex?
  if l == r then none else return (← n.children[l]?, ← n.children[r]?)

end Node

/-- The relation of a relational expression. -/
def relation (L : Lookup) (n : Node) : Option Relation :=
  match n.relationSides? with
  | none => relationOfText n.text n.line
  | some (left, right) =>
    n.relationalOperator?.map fun operator =>
      { left := operandText L left
        operator
        right := operandText L right
        rightIsLiteral := isLiteralNode right
        line := n.line }

/-- Whether the relation of a relational expression needs a far line. One without an operator needs
no line at all. -/
def relationIsFar (n : Node) : Bool :=
  match n.relationSides? with
  | none => n.isFar
  | some (left, right) =>
    n.relationalOperator?.isSome && (operandIsFar left || operandIsFar right || n.isFar)

/-- Whether a node is a name or a literal. -/
def Node.isValue (n : Node) : Bool := n.named && (n.kind.isName || n.kind.isLiteral)

/-- The parts of a relation among the children of the node that holds it. -/
structure FlatRelation where
  left : Node
  operator : Node
  right : Node

/-- The relation among the children of a node: the first operator, with the nearest name or literal
on either side. -/
def Node.flatRelation? (n : Node) : Option FlatRelation := do
  let isOperator (c : Node) : Bool := c.named && c.tag == "relational_operator"
  let (front, back) ← splitAt? isOperator n.children
  return {
    left := ← front.reverse.find? isValue
    operator := ← n.children.find? isOperator
    right := ← back.find? isValue }

/-- The relation that has its two sides and the operator as children of one node. -/
def FlatRelation.relation (L : Lookup) (f : FlatRelation) : Relation where
  left := operandText L f.left
  operator := f.operator.trimmed
  right := operandText L f.right
  rightIsLiteral := isLiteralNode f.right || Literal.isLiteralText f.right.text
  line := f.operator.line

/-- Whether a relation among the children of one node needs a far line. -/
def FlatRelation.isFar (f : FlatRelation) : Bool :=
  operandIsFar f.left || operandIsFar f.right || f.operator.isFar

/-- The comparison that a relation is at a site. -/
def Relation.comparison (site : Site) (r : Relation) : Comparison where
  left := r.left
  operator := r.operator
  right := r.right
  literalBits := if r.rightIsLiteral then some (Literal.bits r.right) else none
  drives := site.drives
  inProcess := site.inProcess
  inArch := site.inArch
  line := r.line

/-- The comparison that a node itself makes. -/
def comparison? (L : Lookup) (site : Site) (n : Node) : Option Comparison :=
  (if n.kind == .relationalExpression then relation L n
    else n.flatRelation?.map (·.relation L)).map (Relation.comparison site)

/-- Whether the comparison that a node itself makes needs a far line. -/
def comparisonIsFar (n : Node) : Bool :=
  if n.kind == .relationalExpression then relationIsFar n else n.flatRelation?.any (·.isFar)

def comparisons (L : Lookup) (site : Site) (n : Node) : List Comparison :=
  n.subtree.filterMap (comparison? L site)

/-! ## Arithmetic -/

/-- The multiplying operators. -/
def costlyOps : List String := ["*", "/", "mod", "rem"]

/-- The operator of a multiplying expression, in small letters. -/
def Node.multiplyingOperator? (n : Node) : Option Text :=
  (((n.childUnder "operator").or
    (n.children.find? fun c => costlyOps.any fun op => c.isToken op)).map
    fun o => lower o.trimmed).filter fun op => costlyOps.any (·.toList == op)

/-- The operands of an arithmetic expression: those under two fields, or all constructs. -/
def Node.arithmeticOperands (n : Node) (first second : String) : List Node :=
  match (n.childUnder first).toList ++ (n.childUnder second).toList with
  | [] => n.operandChildren
  | operands => operands

/-- The operator and the operands of a costly operation. -/
def Node.costlyOperation? (n : Node) : Option (Text × List Node) :=
  match n.kind with
  | .multiplicativeExpression =>
    n.multiplyingOperator?.map fun op => (op, n.arithmeticOperands "left" "right")
  | .exponentialExpression => some ("**".toList, n.arithmeticOperands "base" "exponent")
  | _ => none

/-- The costly operation that a node itself makes. -/
def arithmeticOp? (L : Lookup) (site : Site) (n : Node) : Option ArithmeticOp :=
  n.costlyOperation?.map fun (operator, operands) =>
    { operator, operands := operands.map (operandText L), result := site.drives
      guard := site.guard, inProcess := site.inProcess, inArch := site.inArch, line := n.line }

/-- Whether the costly operation that a node itself makes needs a far line. -/
def arithmeticIsFar (n : Node) : Bool :=
  n.costlyOperation?.any fun (_, operands) => operands.any operandIsFar || n.isFar

/-- All costly operations in an expression. -/
def arithmeticOps (L : Lookup) (site : Site) (n : Node) : List ArithmeticOp :=
  n.subtree.filterMap (arithmeticOp? L site)

/-- Whether the comparisons and costly operations in an expression need a far line. -/
def expressionIsFar (n : Node) : Bool :=
  n.subtree.any fun m => comparisonIsFar m || arithmeticIsFar m

end DesignFacts

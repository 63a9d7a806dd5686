import DesignFacts.Proofs.Expression.Search
import DesignFacts.Proofs.Placement.Name

/-!
# Comparisons and arithmetic away from their places

The parts of a relation or an operation are found by their fields, kinds, tokens and order, and
shown by their texts. So an expression without its place makes the same comparisons and the same
costly operations, on the first line.

Main results: `comparisons_eq_of_unplaced` and `arithmeticOps_eq_of_unplaced`.
-/

namespace DesignFacts

open Text

/-! ## Operands -/

@[simp] theorem Node.soleChild?_unplaced (n : Node) :
    n.unplaced.soleChild? = n.soleChild?.map unplaced := by
  simp only [soleChild?, kind_unplaced, namedChildren_unplaced]
  split
  · cases n.namedChildren with
    | nil => rfl
    | cons c cs => cases cs <;> rfl
  · rfl

@[simp] theorem operandText_unplaced (L : Lookup) (n : Node) :
    operandText L n.unplaced = operandText L n := by
  have hinner : (n.unplaced.soleChild?.map (operandText L)).getD (squash n.unplaced.text) =
      (n.soleChild?.map (operandText L)).getD (squash n.text) := by
    rw [Node.soleChild?_unplaced, n.eq_text_unplaced skipsBlanks_squash]
    cases hchild : n.soleChild? with
    | none => rfl
    | some c =>
      have := Node.sizeOf_lt_of_mem_children (Node.mem_children_of_soleChild? hchild)
      exact operandText_unplaced L c
  rw [operandText_eq, operandText_eq, hinner, Node.kind_unplaced, resolve_unplaced]
  split
  · cases resolve L n <;> rfl
  · rfl
termination_by sizeOf n

theorem skipsBlanks_isLiteralText : SkipsBlanks Literal.isLiteralText := by
  intro c t hc
  rw [Literal.isLiteralText, Literal.isLiteralText, skipsBlanks_trim c t hc]

@[simp] theorem isLiteralNode_unplaced (n : Node) : isLiteralNode n.unplaced = isLiteralNode n := by
  rw [isLiteralNode_eq, isLiteralNode_eq, Node.kind_unplaced, Node.namedChildren_unplaced,
    n.eq_text_unplaced skipsBlanks_isLiteralText, List.head?_map]
  cases hchild : n.namedChildren.head? with
  | none => rfl
  | some c =>
    have := Node.sizeOf_lt_of_mem_children
      (Node.mem_children_of_mem_namedChildren (List.mem_of_head? hchild))
    simp [isLiteralNode_unplaced c]
termination_by sizeOf n

/-! ## Comparisons -/

/-- The relation on the first line. -/
def Relation.unplaced (r : Relation) : Relation := { r with line := 1 }

/-- A relation among children that have no places. -/
def FlatRelation.unplaced (f : FlatRelation) : FlatRelation where
  left := f.left.unplaced
  operator := f.operator.unplaced
  right := f.right.unplaced

theorem skipsBlanks_relationOfText (line : Nat) : SkipsBlanks (relationOfText · line) := by
  intro c t hc
  show relationOfText (c :: t) line = relationOfText t line
  rw [relationOfText, relationOfText, findOperator_cons_of_not (isSign_of_isBlank hc)]
  cases findOperator t with
  | found left operator right =>
    simp only [OperatorSearch.cons, skipsBlanks_squash c left hc]
  | deadEnd => rfl
  | absent => rfl

theorem relationOfText_unplaced (t : Text) (line : Nat) :
    relationOfText t 1 = (relationOfText t line).map Relation.unplaced := by
  rw [relationOfText, relationOfText]
  cases findOperator t with
  | found left operator right =>
    simp only []
    split <;> rfl
  | deadEnd => rfl
  | absent => rfl

namespace Node

variable (n : Node)

theorem relationalOperator?_unplaced :
    n.unplaced.relationalOperator? = n.relationalOperator? := by
  simp [relationalOperator?, Function.comp_def, Option.map_or]

theorem relationSides?_unplaced :
    n.unplaced.relationSides? = n.relationSides?.map (Prod.map unplaced unplaced) := by
  have hindices : n.unplaced.operandIndices = n.operandIndices := by
    simp [operandIndices, List.zipIdx_map, List.filter_map, Function.comp_def]
  have hleft : n.unplaced.leftIndex? = n.leftIndex? := by
    simp [leftIndex?, hindices, Function.comp_def]
  have hright : n.unplaced.rightIndex? = n.rightIndex? := by
    simp [rightIndex?, hindices, Function.comp_def]
  simp only [relationSides?, hleft, hright, children_unplaced, List.getElem?_map]
  cases n.leftIndex? with
  | none => rfl
  | some l =>
    cases n.rightIndex? with
    | none => rfl
    | some r =>
      simp only [Option.bind_eq_bind, Option.bind_some]
      split
      · rfl
      · cases n.children[l]? <;> cases n.children[r]? <;> rfl

theorem flatRelation?_unplaced :
    n.unplaced.flatRelation? = n.flatRelation?.map FlatRelation.unplaced := by
  have hvalue : ∀ c : Node, c.unplaced.isValue = c.isValue := by
    intro c
    simp [isValue]
  simp only [flatRelation?, children_unplaced, splitAt?_map, List.find?_map, Function.comp_def,
    named_unplaced, tag_unplaced]
  cases splitAt? (fun c => c.named && c.tag == "relational_operator") n.children with
  | none => rfl
  | some sides =>
    obtain ⟨front, back⟩ := sides
    simp only [Option.map_some, Option.bind_eq_bind, Option.bind_some, Prod.map_apply,
      ← List.map_reverse, List.find?_map, Function.comp_def, hvalue]
    cases front.reverse.find? isValue with
    | none => rfl
    | some left =>
      cases n.children.find? (fun c => c.named && c.tag == "relational_operator") with
      | none => rfl
      | some operator => cases back.find? isValue <;> rfl

mutual

theorem subtree_unplaced : ∀ n : Node, n.unplaced.subtree = n.subtree.map unplaced
  | ⟨tag, named, field, start, stop, row, ahead, children⟩ => by
    simp only [unplaced, subtree, List.map_cons, ← subtrees_unplaced children, unplacedAll_eq_map]

theorem subtrees_unplaced : ∀ ns : List Node,
    subtrees (ns.map unplaced) = (subtrees ns).map unplaced
  | [] => rfl
  | n :: ns => by
    simp only [List.map_cons, subtrees, List.map_append, subtree_unplaced n, subtrees_unplaced ns]

end

end Node

theorem relation_unplaced (L : Lookup) (n : Node) :
    relation L n.unplaced = (relation L n).map Relation.unplaced := by
  rw [relation, relation, Node.relationSides?_unplaced, Node.relationalOperator?_unplaced]
  cases n.relationSides? with
  | none =>
    have htext := n.eq_text_unplaced (skipsBlanks_relationOfText 1)
    simp [← relationOfText_unplaced, htext]
  | some sides => simp [Relation.unplaced, Function.comp_def]

theorem FlatRelation.relation_unplaced (L : Lookup) (f : FlatRelation) :
    f.unplaced.relation L = (f.relation L).unplaced := by
  have htext := f.right.eq_text_unplaced skipsBlanks_isLiteralText
  simp [FlatRelation.relation, Relation.unplaced, FlatRelation.unplaced, htext]

/-- What a comparison says, without where it stands. -/
def Comparison.content (c : Comparison) : Text × Text × Text × Option Nat × Option Text :=
  (c.left, c.operator, c.right, c.literalBits, c.drives)

theorem content_comparison?_unplaced (L : Lookup) {site site' : Site}
    (hdrives : site.drives = site'.drives) (n : Node) :
    (comparison? L site n.unplaced).map Comparison.content =
      (comparison? L site' n).map Comparison.content := by
  have hsite : ∀ r : Relation,
      (r.unplaced.comparison site).content = (r.comparison site').content := by
    intro r
    rw [Comparison.content, Comparison.content, Relation.comparison, Relation.comparison, hdrives]
    rfl
  rw [comparison?, comparison?, Node.kind_unplaced, relation_unplaced,
    Node.flatRelation?_unplaced]
  split
  · simp only [Option.map_map, Function.comp_def, hsite]
  · simp only [Option.map_map, Function.comp_def, FlatRelation.relation_unplaced, hsite]

/-- **Expressions that differ in their places only make the same comparisons**, if they feed the
same target. -/
theorem comparisons_eq_of_unplaced {ns ms : List Node}
    (h : ns.map Node.unplaced = ms.map Node.unplaced) (L : Lookup) {site site' : Site}
    (hdrives : site.drives = site'.drives) :
    (ns.flatMap (comparisons L site)).map Comparison.content =
      (ms.flatMap (comparisons L site')).map Comparison.content := by
  have hcontent : ∀ {s s' : Site}, s.drives = s'.drives → ∀ ns : List Node,
      ((ns.map Node.unplaced).flatMap (comparisons L s)).map Comparison.content =
        (ns.flatMap (comparisons L s')).map Comparison.content := by
    intro s s' hs ns
    simp only [List.flatMap_map, List.map_flatMap, comparisons, Node.subtree_unplaced,
      List.filterMap_map, List.map_filterMap, Function.comp_def, content_comparison?_unplaced L hs]
  rw [← hcontent rfl ns, h, hcontent hdrives ms]

/-! ## Arithmetic -/

theorem Node.costlyOperation?_unplaced (n : Node) :
    n.unplaced.costlyOperation? = n.costlyOperation?.map (Prod.map id (List.map unplaced)) := by
  have hoperator : n.unplaced.multiplyingOperator? = n.multiplyingOperator? := by
    simp [multiplyingOperator?, Function.comp_def, Option.map_or]
  have hoperands : ∀ first second, n.unplaced.arithmeticOperands first second =
      (n.arithmeticOperands first second).map unplaced := by
    intro first second
    simp only [arithmeticOperands, childUnder_unplaced, operandChildren_unplaced]
    cases n.childUnder first <;> cases n.childUnder second <;> rfl
  simp only [costlyOperation?, kind_unplaced, hoperator, hoperands]
  split
  · simp [Function.comp_def]
  · rfl
  · rfl

/-- What a costly operation does, without where it stands. -/
def ArithmeticOp.content (o : ArithmeticOp) : Text × List Text × Option Text × Option Text :=
  (o.operator, o.operands, o.result, o.guard)

theorem content_arithmeticOp?_unplaced (L : Lookup) {site site' : Site}
    (hdrives : site.drives = site'.drives) (hguard : site.guard = site'.guard) (n : Node) :
    (arithmeticOp? L site n.unplaced).map ArithmeticOp.content =
      (arithmeticOp? L site' n).map ArithmeticOp.content := by
  simp [arithmeticOp?, Node.costlyOperation?_unplaced, ArithmeticOp.content, Function.comp_def,
    hdrives, hguard]

/-- **Expressions that differ in their places only make the same costly operations**, if they feed
the same target under the same guard. -/
theorem arithmeticOps_eq_of_unplaced {ns ms : List Node}
    (h : ns.map Node.unplaced = ms.map Node.unplaced) (L : Lookup) {site site' : Site}
    (hdrives : site.drives = site'.drives) (hguard : site.guard = site'.guard) :
    (ns.flatMap (arithmeticOps L site)).map ArithmeticOp.content =
      (ms.flatMap (arithmeticOps L site')).map ArithmeticOp.content := by
  have hcontent : ∀ {s s' : Site}, s.drives = s'.drives → s.guard = s'.guard → ∀ ns : List Node,
      ((ns.map Node.unplaced).flatMap (arithmeticOps L s)).map ArithmeticOp.content =
        (ns.flatMap (arithmeticOps L s')).map ArithmeticOp.content := by
    intro s s' hs hg ns
    simp only [List.flatMap_map, List.map_flatMap, arithmeticOps, Node.subtree_unplaced,
      List.filterMap_map, List.map_filterMap, Function.comp_def,
      content_arithmeticOp?_unplaced L hs hg]
  rw [← hcontent rfl rfl ns, h, hcontent hdrives hguard ms]

end DesignFacts

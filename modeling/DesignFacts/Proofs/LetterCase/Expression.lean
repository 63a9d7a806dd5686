import DesignFacts.Expression.Relation
import DesignFacts.Proofs.LetterCase.Fact
import DesignFacts.Proofs.LetterCase.Name

/-!
# Letter case of expressions

Literals, comparisons and arithmetic over a source in small letters.

**Literals.** The letters of a bit string name its base, and letters are digits of a based literal,
in either case. So a literal is one whatever its letter case, and has the same width.

**Relations.** Operators are written without letters, or are compared as words. A relation is taken
apart at the same places, and its sides become small.

Main results: `comparisons_lower` and `arithmeticOps_lower`.
-/

namespace DesignFacts

open Text

/-! ## Literals -/

namespace Literal

def BitString.lower (b : BitString) : BitString := { b with digits := Text.lower b.digits }

theorem bitString?_lower (t : Text) :
    bitString? (lower t) = (bitString? t).map BitString.lower := by
  simp only [bitString?, cut_lower _ (show ['"'].all (!·.isAlpha) = true by decide)]
  cases cut ['"'] t with
  | none => rfl
  | some parts =>
    obtain ⟨spec, rest⟩ := parts
    simp only [Option.map_some, Prod.map_apply, reverse_lower]
    cases rest.reverse with
    | nil => rfl
    | cons c body =>
      by_cases hquote : c = '"'
      · subst hquote
        simp [Function.comp_def, BitString.lower]
      · have hquote' : c.toLower ≠ '"' := by simpa [toLower_eq_iff] using hquote
        simp [hquote, hquote']

theorem plainDigits_lower (t : Text) : plainDigits (lower t) = lower (plainDigits t) := by
  simp [plainDigits, Function.comp_def]

theorem width_lower (b : BitString) : b.lower.width = b.width := by
  simp [BitString.width, BitString.lower, plainDigits_lower]

theorem isEnclosed_lower {c : Char} (hc : c.isAlpha = false) (least : Nat) (t : Text) :
    isEnclosed c least (lower t) = isEnclosed c least t := by
  simp [isEnclosed, hc]

theorem based?_lower (t : Text) :
    based? (lower t) = (based? t).map (Prod.map id lower) := by
  simp [based?, Function.comp_def, plainDigits_lower]

@[simp] theorem isLiteralText_lower (t : Text) : isLiteralText (lower t) = isLiteralText t := by
  simp only [isLiteralText, trim_lower]
  cases trim t with
  | nil => rfl
  | cons c t =>
    have hbits := bitString?_lower (c :: t)
    have hbytes := bytes_lower (c :: t)
    rw [lower_cons] at hbits hbytes ⊢
    simp only [hbits, hbytes]
    simp

/-- A literal has the same width in small letters. -/
@[simp] theorem bits_lower (t : Text) : bits (lower t) = bits t := by
  simp only [bits, trim_lower, bitString?_lower,
    isEnclosed_lower (show '"'.isAlpha = false by decide),
    isEnclosed_lower (show '\''.isAlpha = false by decide), based?_lower]
  cases bitString? (trim t) with
  | some b => exact width_lower b
  | none =>
    simp only [Option.map_none, drop_lower, dropLast_lower, plainDigits_lower, length_lower,
      Numeral.unsigned?_lower]
    cases based? (trim t) <;> simp

@[simp] theorem hasWrongBase_lower (t : Text) : hasWrongBase (lower t) = hasWrongBase t := by
  simp only [hasWrongBase, trim_lower, bitString?_lower,
    isEnclosed_lower (show '"'.isAlpha = false by decide),
    isEnclosed_lower (show '\''.isAlpha = false by decide), based?_lower]
  cases based? (trim t) <;> simp

end Literal

/-! ## Relations in texts -/

/-- A relation in small letters. -/
def Relation.lower (r : Relation) : Relation where
  left := Text.lower r.left
  operator := Text.lower r.operator
  right := Text.lower r.right
  rightIsLiteral := r.rightIsLiteral
  line := r.line

namespace OperatorSearch

/-- What a search finds, in small letters. -/
def lower : OperatorSearch → OperatorSearch
  | found left operator right => .found (Text.lower left) (Text.lower operator) (Text.lower right)
  | deadEnd => .deadEnd
  | absent => .absent

theorem cons_lower (c : Char) (s : OperatorSearch) :
    cons c.toLower s.lower = (cons c s).lower := by
  cases s <;> rfl

end OperatorSearch

/-- Operators are found at the same places. -/
theorem findOperator_lower (t : Text) : findOperator (lower t) = (findOperator t).lower := by
  -- What does not follow a character does not follow it in small letters.
  have hnext {d : Char} (hd : d.isAlpha = false) {cs : Text} (h : ∀ u, cs = d :: u → False) :
      ∀ u, lower cs = d :: u → False := by
    intro u hu
    obtain ⟨u', hcs, -⟩ := lower_eq_cons hd hu
    exact h u' hcs
  refine findOperator.induct (fun t => findOperator (lower t) = (findOperator t).lower)
    (fun t => findAfterString (lower t) = (findAfterString t).lower)
    ?_ ?_ ?_ ?_ ?_ ?_ ?_ ?_ ?_ ?_ ?_ ?_ ?_ ?_ t
  · rfl
  · intro cs ih
    simp [findOperator, ih, ← OperatorSearch.cons_lower]
  · intro c cs hc ih
    simp [findOperator, toNat_toLower_lt, hc, ih, ← OperatorSearch.cons_lower]
  · intro c cs hc ih
    have hc' : ¬ c.toLower.toNat < 0x80 := by rwa [toNat_toLower_lt]
    rw [lower_cons, lower_cons, lower_cons] at *
    simp only [Char.reduceToLower] at *
    rw [findOperator, if_neg hc', findOperator, if_neg hc, ih, ← OperatorSearch.cons_lower]
    rfl
  · intro cs
    rfl
  · intro cs
    rfl
  · intro cs
    rfl
  · intro cs
    rfl
  · intro cs h
    show findOperator ('<' :: lower cs) = _
    rw [findOperator, findOperator]
    · rfl
    · exact h
    · exact hnext rfl h
  · intro cs h
    show findOperator ('>' :: lower cs) = _
    rw [findOperator, findOperator]
    · rfl
    · exact h
    · exact hnext rfl h
  · intro cs h
    show findOperator ('=' :: lower cs) = _
    rw [findOperator, findOperator]
    · rfl
    · exact h
    · exact hnext rfl h
  · intro c cs h1 h2 h3 h4 h5 h6 h7 h8 h9 ih
    have hc {d : Char} (hd : d.isAlpha = false) : c.toLower = d → c = d := (toLower_eq_iff hd c).1
    rw [lower_cons, findOperator, findOperator, ih, OperatorSearch.cons_lower]
    all_goals try assumption
    · exact fun h => h1 (hc rfl h)
    · intro d u h h'
      rw [lower, List.map_eq_cons_iff] at h'
      obtain ⟨e, v, rfl, -, hv⟩ := h'
      obtain ⟨w, rfl, -⟩ := lower_eq_cons rfl hv
      exact h2 e w (hc rfl h) rfl
    · exact fun u h => hnext rfl (fun u' => h3 u' (hc rfl h)) u
    · exact fun u h => hnext rfl (fun u' => h4 u' (hc rfl h)) u
    · exact fun u h => hnext rfl (fun u' => h5 u' (hc rfl h)) u
    · exact fun u h => hnext rfl (fun u' => h6 u' (hc rfl h)) u
    · exact fun h => h7 (hc rfl h)
    · exact fun h => h8 (hc rfl h)
    · exact fun h => h9 (hc rfl h)
  · rfl
  · intro c cs ih ih'
    rw [lower_cons, findAfterString, findAfterString, ih, ih', toLower_beq (d := '"') rfl,
      ← OperatorSearch.cons_lower]
    split <;> rfl
@[simp] theorem relationOfText_lower (t : Text) (line : Nat) :
    relationOfText (lower t) line = (relationOfText t line).map Relation.lower := by
  rw [relationOfText, relationOfText, findOperator_lower]
  cases findOperator t with
  | found left operator right =>
    simp only [OperatorSearch.lower, squash_lower, isEmpty_lower, Literal.isLiteralText_lower]
    split <;> rfl
  | deadEnd => rfl
  | absent => rfl

/-! ## Operands -/

@[simp] theorem Node.soleChild?_lower (n : Node) : n.lower.soleChild? = n.soleChild?.map lower := by
  simp only [soleChild?, kind_lower, namedChildren_lower]
  split
  · cases n.namedChildren with
    | nil => rfl
    | cons c cs => cases cs <;> rfl
  · rfl

@[simp] theorem operandText_lower (L : Lookup) (n : Node) :
    operandText L n.lower = lower (operandText L n) := by
  have hinner : (n.lower.soleChild?.map (operandText L)).getD (squash n.lower.text) =
      lower ((n.soleChild?.map (operandText L)).getD (squash n.text)) := by
    rw [Node.soleChild?_lower, Node.text_lower]
    cases hchild : n.soleChild? with
    | none => simp
    | some c =>
      have := Node.sizeOf_lt_of_mem_children (Node.mem_children_of_soleChild? hchild)
      exact operandText_lower L c
  rw [operandText_eq, operandText_eq, hinner, Node.kind_lower, resolve_lower]
  split
  · cases resolve L n <;> rfl
  · rfl
termination_by sizeOf n

@[simp] theorem operandIsFar_lower (n : Node) : operandIsFar n.lower = operandIsFar n := by
  rw [operandIsFar_eq, operandIsFar_eq, Node.kind_lower, Node.resolvesFar_lower,
    Node.soleChild?_lower]
  cases hchild : n.soleChild? with
  | none => rfl
  | some c =>
    have := Node.sizeOf_lt_of_mem_children (Node.mem_children_of_soleChild? hchild)
    simp [operandIsFar_lower c]
termination_by sizeOf n

@[simp] theorem isLiteralNode_lower (n : Node) : isLiteralNode n.lower = isLiteralNode n := by
  rw [isLiteralNode_eq, isLiteralNode_eq, Node.kind_lower, Node.namedChildren_lower,
    Node.text_lower, Literal.isLiteralText_lower, List.head?_map]
  cases hchild : n.namedChildren.head? with
  | none => rfl
  | some c =>
    have := Node.sizeOf_lt_of_mem_children
      (Node.mem_children_of_mem_namedChildren (List.mem_of_head? hchild))
    simp [isLiteralNode_lower c]
termination_by sizeOf n

/-! ## Relations in trees -/

/-- Relational operators have no letters. -/
@[simp] theorem lower_mem_relationalOps (t : Text) :
    lower t ∈ relationalOps ↔ t ∈ relationalOps := by
  have hops : ∀ op ∈ relationalOps, op.all (!·.isAlpha) = true := by decide
  constructor
  · intro h
    rw [(lower_eq_iff t (hops _ h)).1 rfl]
    exact h
  · intro h
    rw [(lower_eq_iff t (hops t h)).2 rfl]
    exact h

namespace Node

variable (n : Node)

@[simp] theorem operandIndices_lower : n.lower.operandIndices = n.operandIndices := by
  simp [operandIndices, List.zipIdx_map, List.filter_map, Function.comp_def]

@[simp] theorem leftIndex?_lower : n.lower.leftIndex? = n.leftIndex? := by
  simp [leftIndex?, Function.comp_def]

@[simp] theorem rightIndex?_lower : n.lower.rightIndex? = n.rightIndex? := by
  simp [rightIndex?, Function.comp_def]

@[simp] theorem relationalOperator?_lower :
    n.lower.relationalOperator? = n.relationalOperator?.map Text.lower := by
  simp [relationalOperator?, Function.comp_def, Option.map_or]

@[simp] theorem relationSides?_lower :
    n.lower.relationSides? = n.relationSides?.map (Prod.map lower lower) := by
  simp only [relationSides?, leftIndex?_lower, rightIndex?_lower, children_lower, List.getElem?_map]
  cases n.leftIndex? with
  | none => rfl
  | some l =>
    cases n.rightIndex? with
    | none => rfl
    | some r =>
      simp only [Option.bind_eq_bind, Option.bind_some]
      split
      · rfl
      · cases n.children[l]? <;> cases n.children[r]? <;> rfl

@[simp] theorem isValue_lower : n.lower.isValue = n.isValue := by simp [isValue]

end Node

@[simp] theorem relation_lower (L : Lookup) (n : Node) :
    relation L n.lower = (relation L n).map Relation.lower := by
  rw [relation, relation, Node.relationSides?_lower]
  cases n.relationSides? with
  | none => simp
  | some sides => simp [Relation.lower, Function.comp_def]

@[simp] theorem relationIsFar_lower (n : Node) : relationIsFar n.lower = relationIsFar n := by
  rw [relationIsFar, relationIsFar, Node.relationSides?_lower]
  cases n.relationSides? <;> simp

/-- A relation among the children of one node, in small letters. -/
def FlatRelation.lower (f : FlatRelation) : FlatRelation where
  left := f.left.lower
  operator := f.operator.lower
  right := f.right.lower

@[simp] theorem Node.flatRelation?_lower (n : Node) :
    n.lower.flatRelation? = n.flatRelation?.map FlatRelation.lower := by
  simp only [flatRelation?, children_lower, splitAt?_lower, List.find?_map, Function.comp_def,
    named_lower, tag_lower]
  cases splitAt? (fun c => c.named && c.tag == "relational_operator") n.children with
  | none => rfl
  | some sides =>
    obtain ⟨front, back⟩ := sides
    simp only [Option.map_some, Option.bind_eq_bind, Option.bind_some, Prod.map_apply,
      ← List.map_reverse, List.find?_map, Function.comp_def, isValue_lower]
    cases front.reverse.find? isValue with
    | none => rfl
    | some left =>
      cases n.children.find? (fun c => c.named && c.tag == "relational_operator") with
      | none => rfl
      | some operator => cases back.find? isValue <;> rfl

@[simp] theorem FlatRelation.relation_lower (L : Lookup) (f : FlatRelation) :
    f.lower.relation L = (f.relation L).lower := by
  simp [FlatRelation.relation, Relation.lower, FlatRelation.lower]

@[simp] theorem FlatRelation.isFar_lower (f : FlatRelation) : f.lower.isFar = f.isFar := by
  simp [FlatRelation.isFar, FlatRelation.lower]

/-! ## Comparisons -/

/-- A site in small letters. -/
@[simps]
def Site.lower (s : Site) : Site where
  inProcess := Text.lower s.inProcess
  inArch := Text.lower s.inArch
  drives := s.drives.map Text.lower
  guard := s.guard.map Text.lower

theorem Relation.comparison_lower (site : Site) (r : Relation) :
    r.lower.comparison site.lower = (r.comparison site).lower := by
  simp [Relation.comparison, Relation.lower, Comparison.lower]

theorem comparison?_lower (L : Lookup) (site : Site) (n : Node) :
    comparison? L site.lower n.lower = (comparison? L site n).map Comparison.lower := by
  have hsite : Relation.comparison site.lower ∘ Relation.lower =
      Comparison.lower ∘ Relation.comparison site := funext (Relation.comparison_lower site)
  simp only [comparison?, Node.kind_lower, relation_lower, Node.flatRelation?_lower]
  split
  · rw [Option.map_map, Option.map_map, hsite]
  · simp only [Option.map_map]
    congr 1
    funext f
    simp [Relation.comparison_lower]

/-- **Comparisons ignore letter case.** -/
theorem comparisons_lower (L : Lookup) (site : Site) (n : Node) :
    comparisons L site.lower n.lower = (comparisons L site n).map Comparison.lower := by
  simp only [comparisons, Node.subtree_lower, List.filterMap_map, List.map_filterMap,
    Function.comp_def, comparison?_lower]

theorem comparisonIsFar_lower (n : Node) : comparisonIsFar n.lower = comparisonIsFar n := by
  simp [comparisonIsFar, Option.any_map]

/-! ## Arithmetic -/

namespace Node

variable (n : Node)

theorem multiplyingOperator?_lower :
    n.lower.multiplyingOperator? = n.multiplyingOperator?.map Text.lower := by
  have hfound : (n.lower.childUnder "operator").or
      (n.lower.children.find? fun c => costlyOps.any fun op => c.isToken op) =
      ((n.childUnder "operator").or
        (n.children.find? fun c => costlyOps.any fun op => c.isToken op)).map lower := by
    simp only [childUnder_lower, children_lower, List.find?_map, Option.map_or, Function.comp_def,
      isToken_lower]
  rw [multiplyingOperator?, multiplyingOperator?, hfound]
  simp [Option.filter_map, Function.comp_def]

theorem arithmeticOperands_lower (first second : String) :
    n.lower.arithmeticOperands first second = (n.arithmeticOperands first second).map lower := by
  simp only [arithmeticOperands, childUnder_lower, operandChildren_lower]
  cases n.childUnder first <;> cases n.childUnder second <;> rfl

theorem costlyOperation?_lower :
    n.lower.costlyOperation? = n.costlyOperation?.map (Prod.map Text.lower (List.map lower)) := by
  simp only [costlyOperation?, kind_lower, multiplyingOperator?_lower, arithmeticOperands_lower]
  split
  · simp [Function.comp_def]
  · rfl
  · rfl

end Node

theorem arithmeticOp?_lower (L : Lookup) (site : Site) (n : Node) :
    arithmeticOp? L site.lower n.lower = (arithmeticOp? L site n).map ArithmeticOp.lower := by
  simp [arithmeticOp?, Node.costlyOperation?_lower, ArithmeticOp.lower, Function.comp_def]

/-- **Arithmetic ignores letter case.** -/
theorem arithmeticOps_lower (L : Lookup) (site : Site) (n : Node) :
    arithmeticOps L site.lower n.lower = (arithmeticOps L site n).map ArithmeticOp.lower := by
  simp only [arithmeticOps, Node.subtree_lower, List.filterMap_map, List.map_filterMap,
    Function.comp_def, arithmeticOp?_lower]

theorem arithmeticIsFar_lower (n : Node) : arithmeticIsFar n.lower = arithmeticIsFar n := by
  simp [arithmeticIsFar, Node.costlyOperation?_lower, Option.any_map, Function.comp_def]

@[simp] theorem expressionIsFar_lower (n : Node) : expressionIsFar n.lower = expressionIsFar n := by
  simp [expressionIsFar, Function.comp_def, comparisonIsFar_lower, arithmeticIsFar_lower]

end DesignFacts

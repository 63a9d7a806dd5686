import DesignFacts.Proofs.Expression.Operand
import DesignFacts.Proofs.Extraction.Record
import DesignFacts.Proofs.Name.Spine

/-!
# Relations in texts and in trees

A relation is a left side, a relational operator and a right side. The grammar may give them as
children under their fields, or leave the relation as one text, which is then searched for the
operator. In a matching operator such as `?=` the search finds the plain one, so the question mark
is left to the left side.

Main result: `relation_written`.
-/

namespace DesignFacts

open Text

variable {t u : Text} {b : Bool}

/-! ## Nodes of relations -/

namespace Node

theorem exists_findIdx?_of_childUnder {n c : Node} {field : String}
    (h : n.childUnder field = some c) :
    ∃ i, n.children.findIdx? (·.isUnder field) = some i ∧ n.children[i]? = some c ∧
      c.field = some field := by
  have hfield : c.field = some field := beq_iff_eq.1 (isUnder_of_childUnder h)
  rw [childUnder, List.find?_eq_bind_findIdx?_getElem?, Option.bind_eq_some_iff] at h
  obtain ⟨i, hi, hc⟩ := h
  exact ⟨i, hi, hc, hfield⟩

/-- The children under the two fields are the sides of a relation. -/
theorem relationSides?_of_childUnder {n left right : Node}
    (hleft : n.childUnder "left" = some left) (hright : n.childUnder "right" = some right) :
    n.relationSides? = some (left, right) := by
  obtain ⟨i, hi, hgeti, hfieldi⟩ := exists_findIdx?_of_childUnder hleft
  obtain ⟨j, hj, hgetj, hfieldj⟩ := exists_findIdx?_of_childUnder hright
  have hne : i ≠ j := by
    rintro rfl
    rw [hgeti] at hgetj
    cases hgetj
    exact absurd (hfieldi.symm.trans hfieldj) (by decide)
  rw [relationSides?, leftIndex?, rightIndex?, hi, hj, Option.some_or, Option.some_or]
  simp [hne, hgeti, hgetj]

end Node

/-! ## Relations as they are written -/

/-- How an operand comes out of a relation: a literal with single spaces, a name as it is. -/
def operandSpelling (isLiteral : Bool) (t : Text) : Text := if isLiteral then squash t else t

theorem operandSpelling_eq_squash (h : b = false → squash t = t) :
    operandSpelling b t = squash t := by
  cases b with
  | true => rfl
  | false => exact (h rfl).symm

theorem squash_eq_of_operandSpelling (hb : b = false) (h : operandSpelling b t = squash u) :
    squash t = t := by
  subst hb
  rw [show t = squash u from h, squash_squash]

theorem compact_operandSpelling (b : Bool) (t : Text) :
    compact (operandSpelling b t) = compact t := by
  cases b with
  | true => exact compact_squash t
  | false => rfl

/-- A relation as it is written: two operands around an operator, with or without blanks. -/
structure WrittenRelation where
  left : Text
  gap : Text
  operator : Text
  gap' : Text
  right : Text
  leftIsLiteral : Bool
  rightIsLiteral : Bool
  isLeft : IsOperand leftIsLiteral left
  isRight : IsOperand rightIsLiteral right
  isOperator : operator ∈ relationalOps
  isBlanks_gap : IsBlanks gap
  isBlanks_gap' : IsBlanks gap'

namespace WrittenRelation

variable (w : WrittenRelation)

def text : Text := w.left ++ (w.gap ++ (w.operator ++ (w.gap' ++ w.right)))

/-- The relation that is written, on a line. -/
def relation (line : Nat) : Relation where
  left := operandSpelling w.leftIsLiteral w.left
  operator := w.operator
  right := operandSpelling w.rightIsLiteral w.right
  rightIsLiteral := w.rightIsLiteral
  line := line

/-- The quotes on both sides of an operator are taken for those of a character: the left side is a
character beyond ASCII, the right side is a character, and nothing else stands between them. -/
def IsTight : Prop :=
  (∃ c, w.left = ['\'', c, '\''] ∧ 0x80 ≤ c.toNat) ∧
    (w.gap ++ (w.operator ++ w.gap')).length = 1 ∧ w.right.head? = some '\''

/-- What the search needs to take a relation apart: a plain operator, no quotes that it mistakes for
those of a character, and names that it passes over and that have single spaces in them. -/
structure IsClear : Prop where
  plain : w.operator.head? ≠ some '?'
  loose : ¬ w.IsTight
  passed : w.leftIsLiteral = false → IsPassed w.left
  spacing : w.leftIsLiteral = false → squash w.left = w.left
  spacing' : w.rightIsLiteral = false → squash w.right = w.right

/-- What follows the operator begins with a character that does not continue it. -/
theorem exists_cons_right : ∃ c u, w.gap' ++ w.right = c :: u ∧ c ≠ '=' ∧ c ≠ '>' := by
  cases hgap : w.gap' with
  | nil =>
    obtain ⟨c, u, hright, -, heq, hgt⟩ := w.isRight.exists_head
    exact ⟨c, u, hright, heq, hgt⟩
  | cons c gap =>
    have hc : isBlank c = true := w.isBlanks_gap' c (by simp [hgap])
    exact ⟨c, _, rfl, isBlank_ne hc (by decide), isBlank_ne hc (by decide)⟩

theorem quote_notMem_of_mem_relationalOps {op : Text} (hop : op ∈ relationalOps) : '\'' ∉ op := by
  have hall : (relationalOps.all fun op => !op.contains '\'') = true := by decide
  simpa using List.all_eq_true.1 hall op hop

/-- Between the operands there is no quote. -/
theorem quote_notMem_middle : '\'' ∉ w.gap ++ (w.operator ++ w.gap') := by
  rw [List.mem_append, List.mem_append]
  rintro (hmem | hmem | hmem)
  · exact w.isBlanks_gap.notMem (by decide) hmem
  · exact quote_notMem_of_mem_relationalOps w.isOperator hmem
  · exact w.isBlanks_gap'.notMem (by decide) hmem

theorem operator_ne_nil : w.operator ≠ [] := by
  have hall : (relationalOps.all fun op => !op.isEmpty) = true := by decide
  simpa using List.all_eq_true.1 hall _ w.isOperator

/-- A quote that comes second behind the left side belongs to the right side. -/
theorem length_middle_of_quote
    (h : (w.gap ++ (w.operator ++ (w.gap' ++ w.right))).tail.head? = some '\'') :
    (w.gap ++ (w.operator ++ w.gap')).length = 1 ∧ w.right.head? = some '\'' := by
  have hmiddle := w.quote_notMem_middle
  rw [← List.append_assoc w.operator, ← List.append_assoc w.gap] at h
  obtain ⟨x, rest, hcons⟩ : ∃ x rest, w.gap ++ (w.operator ++ w.gap') = x :: rest :=
    List.exists_cons_of_ne_nil (by simp [w.operator_ne_nil])
  rw [hcons] at h hmiddle ⊢
  cases rest with
  | nil => exact ⟨rfl, h⟩
  | cons y rest =>
    obtain rfl : y = '\'' := Option.some.inj h
    exact absurd (by simp) hmiddle

/-- Behind the left side comes no quote. -/
theorem head?_middle : (w.gap ++ (w.operator ++ (w.gap' ++ w.right))).head? ≠ some '\'' := by
  have hmiddle := w.quote_notMem_middle
  rw [← List.append_assoc w.operator, ← List.append_assoc w.gap]
  obtain ⟨x, rest, hcons⟩ : ∃ x rest, w.gap ++ (w.operator ++ w.gap') = x :: rest :=
    List.exists_cons_of_ne_nil (by simp [w.operator_ne_nil])
  rw [hcons] at hmiddle ⊢
  rintro ⟨⟩
  exact hmiddle List.mem_cons_self

/-- If it is not tight, a relation is searched behind its left side as if it began there. -/
theorem findOperator_text (h : ¬ w.IsTight) (hpassed : w.leftIsLiteral = false → IsPassed w.left) :
    findOperator w.text =
      .append (w.left ++ w.gap) (findOperator (w.operator ++ (w.gap' ++ w.right))) := by
  have hgap (t : Text) : findOperator (w.gap ++ t) = .append w.gap (findOperator t) :=
    passes_blanks w.isBlanks_gap t
  have happend (s : OperatorSearch) :
      .append (w.left ++ w.gap) s = OperatorSearch.append w.left (.append w.gap s) :=
    List.foldr_append
  rw [happend, ← hgap]
  have hleft := w.isLeft
  cases hliteral : w.leftIsLiteral with
  | false =>
    rw [hliteral] at hleft
    cases hleft with
    | name hname => exact (hpassed hliteral).findOperator_append hname w.head?_middle
  | true =>
    rw [hliteral] at hleft
    by_cases hbeyond : ∃ c, w.left = ['\'', c, '\''] ∧ 0x80 ≤ c.toNat
    · obtain ⟨c, hcharacter, hc⟩ := hbeyond
      rw [text, hcharacter]
      refine findOperator_character hc fun hquote => ?_
      exact h ⟨⟨c, hcharacter, hc⟩, w.length_middle_of_quote hquote⟩
    · refine hleft.passes (fun c hcharacter => ?_) _
      by_contra hc
      exact hbeyond ⟨c, hcharacter, by omega⟩

/-! ### The relation in the text -/

/-- A relation in a text comes from the operator that was found there. -/
theorem exists_of_relationOfText {line : Nat} {rel : Relation}
    (h : relationOfText t line = some rel) :
    ∃ l op r, findOperator t = .found l op r ∧ rel.left = squash l ∧ rel.operator = op ∧
      rel.right = squash r := by
  unfold relationOfText at h
  split at h
  · rename_i l op r hfound
    dsimp only at h
    split at h
    · cases h
    · cases h
      exact ⟨l, op, r, hfound, rfl, rfl, rfl⟩
  · cases h

theorem relationOfText_of_found {left op : Text} {line : Nat}
    (h : findOperator w.text = .found (w.left ++ left) op (w.gap' ++ w.right)) :
    relationOfText w.text line =
      some { left := squash (w.left ++ left), operator := op, right := squash w.right
             rightIsLiteral := w.rightIsLiteral, line } := by
  obtain ⟨c, u, hleft, hblank, -⟩ := w.isLeft.exists_head
  obtain ⟨c', u', hright, hblank', -⟩ := w.isRight.exists_head
  rw [relationOfText, h]
  dsimp only
  rw [squash_blanks_append w.isBlanks_gap', w.isRight.isLiteralText_eq,
    isEmpty_squash_of_mem (by simp [hleft]) hblank,
    isEmpty_squash_of_mem (by simp [hright]) hblank']
  rfl

theorem relationOfText_plain (h : w.IsClear) (line : Nat) :
    relationOfText w.text line = some (w.relation line) := by
  have hop : w.operator ∈ plainOps := by
    rcases mem_relationalOps_iff.1 w.isOperator with hop | ⟨plain, -, hop⟩
    · exact hop
    · exact absurd (by simp [hop]) h.plain
  have hfound : findOperator w.text = .found (w.left ++ w.gap) w.operator (w.gap' ++ w.right) := by
    obtain ⟨c, u, hright, heq, hgt⟩ := w.exists_cons_right
    rw [w.findOperator_text h.loose h.passed, hright, findOperator_plain hop heq hgt,
      OperatorSearch.append_found, List.append_nil]
  rw [w.relationOfText_of_found hfound, squash_append_blanks w.isBlanks_gap, relation,
    operandSpelling_eq_squash h.spacing, operandSpelling_eq_squash h.spacing']

theorem relationOfText_matching {op : Text} (hmatching : w.operator = '?' :: op)
    (hpassed : w.leftIsLiteral = false → IsPassed w.left) (line : Nat) :
    relationOfText w.text line =
      some { left := squash (w.left ++ (w.gap ++ ['?'])), operator := op, right := squash w.right
             rightIsLiteral := w.rightIsLiteral, line } := by
  have hop : op ∈ plainOps := by
    have hall : (plainOps.all (·.head? != some '?')) = true := by decide
    rcases mem_relationalOps_iff.1 w.isOperator with hplain | ⟨plain, hplain, hop⟩
    · have hhead := List.all_eq_true.1 hall _ hplain
      simp [hmatching] at hhead
    · rw [hmatching] at hop
      exact (List.cons.inj hop).2 ▸ hplain
  have hloose : ¬ w.IsTight := by
    rintro ⟨-, hlength, -⟩
    have hall : (plainOps.all fun op => !op.isEmpty) = true := by decide
    have hne : op ≠ [] := by simpa using List.all_eq_true.1 hall op hop
    have hpos := List.length_pos_iff.2 hne
    simp only [hmatching, List.length_append, List.length_cons] at hlength
    omega
  refine w.relationOfText_of_found ?_
  obtain ⟨c, u, hright, heq, hgt⟩ := w.exists_cons_right
  rw [w.findOperator_text hloose hpassed, hmatching, hright, List.cons_append,
    findOperator_cons_of_not (by decide), findOperator_plain hop heq hgt, OperatorSearch.cons,
    OperatorSearch.append_found, List.append_assoc]

/-- In a tight relation the operator is passed over together with the quotes around it. -/
theorem findOperator_text_tight (h : w.IsTight) :
    ∃ c o u, w.left = ['\'', c, '\''] ∧ c ≠ '\'' ∧
      findOperator w.text = .append ['\'', c, '\'', o, '\''] (findOperator u) := by
  obtain ⟨⟨c, hleft, hc⟩, hlength, hhead⟩ := h
  obtain ⟨u, hright⟩ : ∃ u, w.right = '\'' :: u := by
    cases hright : w.right with
    | nil => simp [hright] at hhead
    | cons d u => exact ⟨u, by simpa [hright] using hhead⟩
  obtain ⟨o, hmiddle⟩ := List.length_eq_one_iff.1 hlength
  -- The search passes over a quote only if the character behind it is ASCII.
  have ho : o.toNat < 0x80 := by
    have hall : (relationalOps.all (·.all (·.toNat < 0x80))) = true := by decide
    obtain ⟨x, operator, hoperator⟩ := List.exists_cons_of_ne_nil w.operator_ne_nil
    have hx : x ∈ w.operator := by simp [hoperator]
    have hmem : x ∈ w.gap ++ (w.operator ++ w.gap') := by simp [hx]
    rw [hmiddle, List.mem_singleton] at hmem
    have hlt := List.all_eq_true.1 (List.all_eq_true.1 hall _ w.isOperator) x hx
    rw [hmem, decide_eq_true_iff] at hlt
    exact hlt
  have hc' : c ≠ '\'' := by
    rintro rfl
    exact absurd hc (by decide)
  have htext : w.text = '\'' :: c :: '\'' :: o :: '\'' :: u := by
    have happend : w.text = w.left ++ ((w.gap ++ (w.operator ++ w.gap')) ++ w.right) := by
      simp [text]
    rw [happend, hmiddle, hleft, hright]
    rfl
  refine ⟨c, o, u, hleft, hc', ?_⟩
  rw [htext, findOperator, if_neg (by omega), findOperator_cons_of_not (isSign_of_le hc),
    findOperator, if_pos ho]
  rfl

/-- A left side that comes out as it is written was found with nothing but blanks behind it. -/
theorem compact_of_left {line : Nat} {l op r : Text}
    (h : relationOfText w.text line = some (w.relation line))
    (hfound : findOperator w.text = .found l op r) : compact w.left = compact l := by
  obtain ⟨l', op', r', hfound', hleft, -, -⟩ := exists_of_relationOfText h
  obtain ⟨rfl, rfl, rfl⟩ := OperatorSearch.found.inj (hfound.symm.trans hfound')
  rw [← compact_squash l, ← hleft]
  exact (compact_operandSpelling _ _).symm

/-- The left side that comes out of a tight relation has a third quote in it. -/
theorem relationOfText_tight (h : w.IsTight) (line : Nat) :
    relationOfText w.text line ≠ some (w.relation line) := by
  intro hrelation
  obtain ⟨c, o, u, hleft, hc, hsearch⟩ := w.findOperator_text_tight h
  obtain ⟨l, op, r, hfound, -, -, -⟩ := exists_of_relationOfText hrelation
  have hcompact := w.compact_of_left hrelation hfound
  rw [hsearch] at hfound
  obtain ⟨l', rfl⟩ := OperatorSearch.exists_of_append_eq_found hfound
  have hcount := congrArg (List.count '\'') hcompact
  rw [compact, List.count_filter (by decide), compact, List.count_filter (by decide), hleft,
    List.count_append] at hcount
  have htwo : ['\'', c, '\''].count '\'' = 2 := by simp [hc]
  have hthree : 3 ≤ ['\'', c, '\'', o, '\''].count '\'' := by simp [List.count_cons, hc]
  omega

/-- The left side of a relation that comes out as it is written was passed over. -/
theorem isPassed_of_relationOfText {line : Nat} (hliteral : w.leftIsLiteral = false)
    (h : relationOfText w.text line = some (w.relation line)) : IsPassed w.left := by
  have hleft := w.isLeft
  rw [hliteral] at hleft
  cases hleft with
  | name hname =>
    obtain ⟨l, op, r, hfound, -, -, -⟩ := exists_of_relationOfText h
    have hcompact := w.compact_of_left h hfound
    obtain ⟨htext, -⟩ := foundIn_findOperator w.text l op r hfound
    rw [text] at htext hfound
    have hhead := w.head?_middle
    generalize w.left = left at hname hcompact htext hfound ⊢
    cases hname with
    | basic hne hchars hdigit => exact isPassed_of_isNameChar hchars
    | extended body =>
      have hlast : ∀ c ∈ ('\\' :: (body ++ ['\\'])).getLast?, isBlank c = false := by
        rw [← List.cons_append, List.getLast?_concat]
        rintro c ⟨⟩
        decide
      obtain ⟨g, hg, rfl⟩ := exists_blanks_of_compact_eq htext hcompact hlast
      have hsearch := findOperator_backslash (t := ['=']) hhead
        (hg.notMem (by decide)) (by decide) ('\\' :: body) (by simpa using hfound)
      have hequal : findOperator ['='] = .found [] ['='] [] := rfl
      rw [hequal, OperatorSearch.append_found] at hsearch
      simpa [IsPassed] using hsearch

theorem relationOfText_text_iff (line : Nat) :
    relationOfText w.text line = some (w.relation line) ↔ w.IsClear := by
  refine ⟨fun h => ?_, fun h => w.relationOfText_plain h line⟩
  obtain ⟨l, op, r, hfound, hleft, hop, hright⟩ := exists_of_relationOfText h
  refine ⟨fun hhead => ?_, fun htight => w.relationOfText_tight htight line h,
    fun hliteral => w.isPassed_of_relationOfText hliteral h, fun hliteral => ?_,
    fun hliteral => ?_⟩
  · have hall : (plainOps.all (·.head? != some '?')) = true := by decide
    have hplain := List.all_eq_true.1 hall _ (foundIn_findOperator w.text l op r hfound).2
    rw [← hop] at hplain
    exact bne_iff_ne.1 hplain hhead
  · exact squash_eq_of_operandSpelling hliteral hleft
  · exact squash_eq_of_operandSpelling hliteral hright

/-! ### The relation in a tree -/

/-- An operand as a node: an identifier or a literal with the given text. -/
structure IsOperandNode (isLiteral : Bool) (t : Text) (n : Node) : Prop where
  text_eq : n.text = t
  isLiteral_kind : isLiteral = true → n.kind.isLiteral = true
  identifier_kind : isLiteral = false → n.kind = .identifier

theorem operandText_of_isOperandNode (L : Lookup) {n : Node} (h : IsOperand b t)
    (hn : IsOperandNode b t n) : operandText L n = operandSpelling b t := by
  cases b with
  | true =>
    have hkind : n.kind.isName = false ∧ n.kind ≠ .other := by
      have hliteral := hn.isLiteral_kind rfl
      revert hliteral
      cases n.kind <;> simp [Kind.isLiteral, Kind.isName]
    have hsole : n.soleChild? = none := by
      rw [Node.soleChild?, if_neg (by simp [hkind.2])]
    rw [operandText_eq, hkind.1, if_neg Bool.false_ne_true, hsole, hn.text_eq]
    rfl
  | false =>
    have hkind := hn.identifier_kind rfl
    cases h with
    | name hname =>
      have hname' : n.kind.isName = true := by rw [hkind]; rfl
      have hbase : (resolve L n).map (·.base) = some t := by
        rw [resolve, resolveSpine_of_identifier hkind, Node.trimmed, hn.text_eq, hname.trim_eq]
        rfl
      rw [operandText_eq, if_pos hname', hbase]
      rfl

theorem isLiteralNode_of_isOperandNode {n : Node} (hn : IsOperandNode b t n) :
    isLiteralNode n = b := by
  rw [isLiteralNode_eq]
  cases b with
  | true => rw [hn.isLiteral_kind rfl, if_pos rfl]
  | false =>
    rw [hn.identifier_kind rfl]
    rfl

/-- A node holds the parts of a relation under their fields. -/
structure IsHeldBy (n : Node) : Prop where
  left : ∃ c, n.childUnder "left" = some c ∧ IsOperandNode w.leftIsLiteral w.left c
  operator : ∃ c, n.childUnder "operator" = some c ∧ c.text = w.operator
  right : ∃ c, n.childUnder "right" = some c ∧ IsOperandNode w.rightIsLiteral w.right c

theorem relation_of_isHeldBy (L : Lookup) {n : Node} (h : w.IsHeldBy n) :
    DesignFacts.relation L n = some (w.relation n.line) := by
  obtain ⟨left, hleft, hleft'⟩ := h.left
  obtain ⟨operator, hoperator, htext⟩ := h.operator
  obtain ⟨right, hright, hright'⟩ := h.right
  have htrimmed : operator.trimmed = w.operator := by
    rw [Node.trimmed, htext]
    have hall : (relationalOps.all fun op => trim op == op) = true := by decide
    exact beq_iff_eq.1 (List.all_eq_true.1 hall _ w.isOperator)
  rw [DesignFacts.relation, Node.relationSides?_of_childUnder hleft hright]
  dsimp only
  rw [Node.relationalOperator?, hoperator, Option.some_or, Option.map_some, Option.map_some,
    htrimmed, operandText_of_isOperandNode L w.isLeft hleft',
    operandText_of_isOperandNode L w.isRight hright', isLiteralNode_of_isOperandNode hright']
  rfl

end WrittenRelation

/-- A relation comes out of a tree as it is written. It comes out of its text in the same way if and
only if it is clear. From a matching operator the text loses the question mark, which goes to the
left side. -/
theorem relation_written (L : Lookup) (w : WrittenRelation) {leaf tree : Node}
    (hleaf : leaf.children = []) (htext : leaf.text = w.text) (htree : w.IsHeldBy tree) :
    relation L tree = some (w.relation tree.line) ∧
      (relation L leaf = some (w.relation leaf.line) ↔ w.IsClear) ∧
      ∀ op, w.operator = '?' :: op → (w.leftIsLiteral = false → IsPassed w.left) →
        relation L leaf =
          some { left := squash (w.left ++ (w.gap ++ ['?'])), operator := op
                 right := squash w.right, rightIsLiteral := w.rightIsLiteral
                 line := leaf.line } := by
  have hsides : leaf.relationSides? = none := by
    simp [Node.relationSides?, Node.leftIndex?, Node.operandIndices, hleaf]
  have hrelation : relation L leaf = relationOfText w.text leaf.line := by
    rw [relation, hsides, htext]
  rw [hrelation]
  exact ⟨w.relation_of_isHeldBy L htree, w.relationOfText_text_iff leaf.line,
    fun op hop hpassed => w.relationOfText_matching hop hpassed leaf.line⟩

namespace WrittenRelation

/-- Tables without entries. -/
def noTables : Lookup := ⟨fun _ => false, fun _ => false, fun _ => false, fun _ => false⟩

/-- A comparison of two literals with operators in them. -/
def quoted : WrittenRelation where
  left := ['\'', '=', '\'']
  gap := []
  operator := "<=".toList
  gap' := " ".toList
  right := '"' :: ("a > b".toList ++ ['"'])
  leftIsLiteral := true
  rightIsLiteral := true
  isLeft := .character '='
  isRight := .string (isStringBody_of_ne (by simp))
  isOperator := by decide
  isBlanks_gap := isBlanks_nil
  isBlanks_gap' := List.all_eq_true.1 (by decide)

def quotedLeaf : Node := .leaf "relational_expression" "'='<= \"a > b\""

def quotedTree : Node :=
  .branch "relational_expression"
    [.under "left" (.leaf "character_literal" "'='"), .under "operator" (.word "<="),
      .under "right" (.leaf "string_literal" "\"a > b\"")]

theorem isClear_quoted : quoted.IsClear where
  plain := by decide
  loose := fun h => absurd h.2.2 (by decide)
  passed := fun h => absurd h (by decide)
  spacing := fun h => absurd h (by decide)
  spacing' := fun h => absurd h (by decide)

end WrittenRelation

open WrittenRelation in
theorem relation_written_quoted :
    quoted.IsClear ∧ relation noTables quotedTree = some (quoted.relation 1) ∧
      relation noTables quotedLeaf = some (quoted.relation 1) := by
  have hleaf : quotedLeaf.children = [] := rfl
  have htree : quoted.IsHeldBy quotedTree :=
    ⟨⟨_, rfl, rfl, fun _ => rfl, nofun⟩, ⟨_, rfl, rfl⟩, ⟨_, rfl, rfl, fun _ => rfl, nofun⟩⟩
  have hwritten := relation_written noTables quoted hleaf rfl htree
  exact ⟨isClear_quoted, hwritten.1, hwritten.2.1.2 isClear_quoted⟩

open WrittenRelation in
/-- A matching equality gives its question mark to the left side. -/
theorem matching_equality_split :
    (relation noTables (.leaf "relational_expression" "a ?= b")).map
        (fun r => (r.left, r.operator, r.right)) =
      some ("a ?".toList, "=".toList, "b".toList) := by
  decide +kernel

end DesignFacts

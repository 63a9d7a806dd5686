import DesignFacts.Proofs.Process.ArmRow
import DesignFacts.Proofs.Sexp.Growth
import DesignFacts.Proofs.Text.Words

/-!
# The two shapes of an arm

The items of a later arm of an `if` statement stand in a clause, `(elsif_clause elsif C then S...)`
or `(else_clause else S...)`, or they stand directly in the statement (`armItems`).

**Rows.** A clause reaches from its first to its last node and adds nothing that a process looks
for, so a row is the same with and without it (`Unwraps`).

**Arms.** The items make one arm, and their clause makes the same arm (`arms_armItems`). An `else`
without statements is a special case: its clause is a leaf without arms, while its keyword alone
makes an arm that has nothing.

Main result: two shapes of a later arm, with alike bodies, are the same (`sameLater_armItems`).
-/

namespace DesignFacts

open Text Node

/-! ## Rows without their clauses -/

/-- Two rows with the same to find in them. -/
structure SameInside (ns ms : List Node) : Prop where
  others : (subtrees ns).any (·.kind == .others) = (subtrees ms).any (·.kind == .others)
  parameter : ∀ seen rest,
    forParameter? seen (subtrees ns ++ rest) = forParameter? seen (subtrees ms ++ rest)
  locals : localNodesAmong ns = localNodesAmong ms
  alternatives : collectAll .caseAlternative ns = collectAll .caseAlternative ms

/-- Two rows that are the same but for clauses around some of their nodes. -/
structure Unwraps (ns ms : List Node) : Prop extends SameInside ns ms where
  first : ns.head?.map (fun n => (n.start, n.row)) = ms.head?.map fun n => (n.start, n.row)
  last : ns.getLast?.map Node.stop = ms.getLast?.map Node.stop

theorem Unwraps.refl (ns : List Node) : Unwraps ns ns :=
  ⟨⟨rfl, fun _ _ => rfl, rfl, rfl⟩, rfl, rfl⟩

theorem SameRow.of_unwraps {ns ns' ms ms' : List Node} (hn : Unwraps ns ns') (hm : Unwraps ms ms')
    (h : SameRow ns' ms') : SameRow ns ms where
  first := by rw [hn.first, hm.first, h.first]
  last := by rw [hn.last, hm.last, h.last]
  others := by rw [hn.others, hm.others, h.others]
  parameter := fun seen rest => by rw [hn.parameter, hm.parameter, h.parameter]
  locals := by
    rw [hn.locals, hm.locals]
    exact h.locals
  alternatives := by
    rw [hn.alternatives, hm.alternatives]
    exact h.alternatives

namespace SameInside

theorem trans {ns ms ls : List Node} (h : SameInside ns ms) (h' : SameInside ms ls) :
    SameInside ns ls where
  others := h.others.trans h'.others
  parameter := fun seen rest => (h.parameter seen rest).trans (h'.parameter seen rest)
  locals := h.locals.trans h'.locals
  alternatives := h.alternatives.trans h'.alternatives

/-- In a clause there is to find what is in its parts. -/
theorem clause {c : Node} (hnamed : c.named = true)
    (hkind : c.kind = .elsifClause ∨ c.kind = .elseClause) : SameInside [c] c.children := by
  have htoken : ∀ word, c.isToken word = false := fun word => by rw [isToken, hnamed]; rfl
  constructor
  · rcases hkind with hkind | hkind <;> simp [subtrees, c.subtree_eq, hkind]
  · intro seen rest
    rcases hkind with hkind | hkind <;>
      simp [subtrees, c.subtree_eq, forParameter?, htoken, hkind]
  · rcases hkind with hkind | hkind <;>
      simp [localNodesAmong, hnamed, hkind, isSubprogram, declaresLocals, localNodes_eq]
  · rcases hkind with hkind | hkind <;> simp [collectAll, hnamed, hkind, collect_eq]

/-- In a keyword there is nothing to find, if a loop does not wait for it. -/
theorem keyword {t : Node} (hnamed : t.named = false) (hchildren : t.children = [])
    (hloop : t.isToken "loop" = false) (hgenerate : t.isToken "generate" = false)
    (hfor : t.isToken "for" = false) : SameInside [] [t] := by
  have hkind : t.kind = .other := by rw [Node.kind, hnamed]; rfl
  constructor
  · simp [subtrees, t.subtree_eq, hchildren, hkind]
  · intro seen rest
    simp [subtrees, t.subtree_eq, hchildren, hkind, forParameter?, hloop, hgenerate, hfor]
  · simp [localNodesAmong, hnamed]
  · simp [collectAll, hnamed]

end SameInside

namespace Sexp

/-! ## Arms of items -/

/-- Whether an item is a list and no clause of an `if` statement. -/
def Item.isArmPart (item : Item) : Bool :=
  item.isList && !(item.kind == .elsifClause || item.kind == .elseClause)

/-- The items that open an arm, up to its body: `if C then`, `elsif C then` or `else`. -/
inductive Opening : String → List Item → Prop
  | conditional {word : String} {k t : Text} {C : Item} (hword : word = "if" ∨ word = "elsif")
      (hk : isWord k word = true) (hC : C.isArmPart = true) (ht : isWord t "then" = true) :
      Opening word [.token none k, C, .token none t]
  | otherwise {k : Text} (hk : isWord k "else" = true) : Opening "else" [.token none k]

/-- The items of a later arm: one clause around them, or the items alone. -/
def armItems (wrapped : Bool) (word : String) (items : List Item) : List Item :=
  if wrapped then [.list none (word ++ "_clause").toList items] else items

section Arms

variable {source : Text} {p : Page} {word : String} {opening body : List Item}

theorem armPieces_cons_token {k : Text} (h : (p.token k).text <+: source) (ns : List Node) :
    armPieces ((Item.token none k).grow source p :: ns) =
      (if isWord k "if" || isWord k "elsif" then some (ArmPiece.start true)
        else if isWord k "else" then some (.start false)
        else if isWord k "then" then some .conditionEnd
        else none).toList ++ armPieces ns := by
  have htoken : ∀ word, ((Item.token none k).grow source p).isToken word = isWord k word :=
    fun word => Item.isToken_grow (show ((Item.token none k).write p).text <+: source from h) word
  have hclause : ((Item.token none k).grow source p).isArmClause = false := rfl
  have hpiece : ((Item.token none k).grow source p).armPiece? =
      if isWord k "if" || isWord k "elsif" then some (ArmPiece.start true)
        else if isWord k "else" then some (.start false)
        else if isWord k "then" then some .conditionEnd
        else none := by
    simp only [armPiece?, htoken]
    rfl
  rw [armPieces, List.filterMap_cons, hclause, if_neg Bool.false_ne_true, hpiece]
  split <;> rename_i hcase <;> rw [hcase] <;> rfl

/-- Opening an arm closes the one before it, and leaves an arm open whose condition is known. -/
theorem Opening.arms (h : Opening word opening)
    (htext : (Item.writeAll p opening).text <+: source) :
    ∃ a : Arm, (word = "else" → a = {}) ∧
      (∀ ps, ArmPiece.Led (armPieces (Item.growAll source p opening) ++ ps)) ∧
      ∀ current expects ps,
        ArmPiece.arms current expects (armPieces (Item.growAll source p opening) ++ ps) =
          current.toList ++ ArmPiece.arms (some a) false ps := by
  cases h with
  | @conditional _ k t C hword hk hC ht =>
    simp only [Item.writeAll, Item.write] at htext
    have hkeyword : (p.token k).text <+: source :=
      (C.text_write _).trans (((Item.token none t).text_write _).trans htext)
    have hstart : (isWord k "if" || isWord k "elsif") = true := by
      rcases hword with rfl | rfl <;> simp [hk]
    have hif : isWord t "if" = false := not_isWord_of_isWord ht (by decide)
    have helsif : isWord t "elsif" = false := not_isWord_of_isWord ht (by decide)
    have helse : isWord t "else" = false := not_isWord_of_isWord ht (by decide)
    have hpart : (C.grow source (p.token k)).isArmPart = true := by
      simpa [Node.isArmPart, Item.isArmPart] using hC
    have hne : word ≠ "else" := by rcases hword with rfl | rfl <;> decide
    simp only [Item.growAll, Item.write]
    rw [armPieces_cons_token hkeyword, hstart, armPieces_cons_of_isArmPart hpart,
      armPieces_cons_token htext, hif, helsif, helse, ht]
    -- A condition that is a label or a comment is passed over, and the arm then has none.
    by_cases hdropped : ((C.grow source (p.token k)).isUnder "label" ||
        (C.grow source (p.token k)).isComment) = true
    · rw [if_pos hdropped]
      exact ⟨{}, fun h => absurd h hne, fun _ => .start true _, fun _ _ _ => rfl⟩
    · rw [if_neg hdropped]
      refine ⟨{ condition := some (C.grow source (p.token k)) }, fun h => absurd h hne,
        fun _ => .start true _, ?_⟩
      intro current expects ps
      simp [ArmPiece.arms, armPieces]
  | @otherwise k hk =>
    have hif : isWord k "if" = false := not_isWord_of_isWord hk (by decide)
    have helsif : isWord k "elsif" = false := not_isWord_of_isWord hk (by decide)
    rw [Item.growAll, Item.growAll, armPieces_cons_token htext, hif, helsif, hk]
    exact ⟨{}, fun _ => rfl, fun _ => .start false _, fun _ _ _ => rfl⟩

theorem Opening.not_end (h : Opening word opening) :
    ∀ item ∈ opening, item.isWordToken "end" = false := by
  cases h with
  | @conditional _ k t C hword hk hC ht =>
    have hkeyword : isWord k "end" = false := by
      rcases hword with rfl | rfl <;> exact not_isWord_of_isWord hk (by decide)
    have hcondition : C.isWordToken "end" = false := by
      cases C with
      | token => cases hC
      | list => rfl
    intro item hitem
    simp only [List.mem_cons, List.not_mem_nil, or_false] at hitem
    rcases hitem with rfl | rfl | rfl
    · exact hkeyword
    · exact hcondition
    · exact not_isWord_of_isWord ht (by decide)
  | otherwise hk =>
    intro item hitem
    obtain rfl := List.mem_singleton.1 hitem
    exact not_isWord_of_isWord hk (by decide)

/-- Statements are no keywords. -/
theorem not_end_of_isArmPart (hbody : ∀ item ∈ body, item.isArmPart = true) :
    ∀ item ∈ body, item.isWordToken "end" = false := by
  intro item hitem
  cases item with
  | token => cases hbody _ hitem
  | list => rfl

theorem isBeforeEnd_of_mem_growAll {items : List Item}
    (h : ∀ item ∈ items, item.isWordToken "end" = false)
    (htext : (Item.writeAll p items).text <+: source) :
    ∀ c ∈ Item.growAll source p items, c.isBeforeEnd = true := by
  intro c hc
  obtain ⟨item, hitem, q, hq, rfl⟩ := Item.exists_of_mem_growAll hc
  rw [isBeforeEnd, Item.isToken_grow (hq.trans htext), h item hitem]
  exact Bool.or_true _

/-- The items of an arm are all plain only if the arm is an `else` without statements. -/
theorem Opening.eq_of_plain (h : Opening word opening)
    (hbody : ∀ item ∈ body, item.isArmPart = true)
    (hplain : (opening ++ body).all Item.isPlainToken = true) :
    ∃ k, isWord k "else" = true ∧ word = "else" ∧ opening = [.token none k] ∧ body = [] := by
  have hnil : body = [] := by
    cases body with
    | nil => rfl
    | cons item body =>
      have hitem := hbody item List.mem_cons_self
      have htoken := List.all_eq_true.1 hplain item (by simp)
      cases item with
      | token => cases hitem
      | list => cases htoken
  subst hnil
  cases h with
  | @conditional _ k t C _ _ hC _ =>
    have htoken := List.all_eq_true.1 hplain C (by simp)
    cases C with
    | token => cases hC
    | list => cases htoken
  | @otherwise k hk => exact ⟨k, hk, rfl, rfl, rfl⟩

theorem Opening.kind_clause (h : Opening word opening) (hword : word ≠ "if") :
    Kind.ofTag (String.ofList (word ++ "_clause").toList) = .elsifClause ∨
      Kind.ofTag (String.ofList (word ++ "_clause").toList) = .elseClause := by
  cases h with
  | conditional hwords _ _ _ =>
    rcases hwords with rfl | rfl
    · exact absurd rfl hword
    · exact .inl (by decide)
  | otherwise _ => exact .inr (by decide)

theorem leafText_token (kind k : Text) : leafText kind [.token none k] = k := by
  simp [leafText, Item.tokenText?, join, List.intercalate]

/-- A clause is a piece of its own, before the keyword `end`. -/
theorem isArmClause_clause (h : Opening word opening) (hword : word ≠ "if") {c : Node}
    (hc : c = (Item.list none (word ++ "_clause").toList (opening ++ body)).grow source p) :
    c.isArmClause = true ∧ c.isBeforeEnd = true := by
  have hkind : c.kind = .elsifClause ∨ c.kind = .elseClause := by
    rw [hc, Item.kind_grow]
    exact h.kind_clause hword
  have hlabel : c.isUnder "label" = false := by
    rw [hc, isUnder, Item.field_grow]
    rfl
  have htoken : c.isToken "end" = false := by
    rw [hc, isToken, Item.named_grow]
    rfl
  constructor
  · rcases hkind with hkind | hkind <;> simp [isArmClause, hlabel, hkind]
  · rw [isBeforeEnd, htoken]
    exact Bool.or_true _

variable (h : Opening word opening) (hbody : ∀ item ∈ body, item.isArmPart = true)

include h hbody

/-- A clause is written like its items. -/
theorem write_armItems (wrapped : Bool) (p : Page) :
    Item.writeAll p (armItems wrapped word (opening ++ body)) =
      Item.writeAll p (opening ++ body) := by
  cases wrapped with
  | false => rfl
  | true =>
    show Item.write p (.list none _ (opening ++ body)) = _
    rw [Item.write]
    split
    · rename_i hplain
      obtain ⟨k, -, -, rfl, rfl⟩ := h.eq_of_plain hbody hplain
      rw [List.append_nil, leafText_token]
      rfl
    · rfl

variable (htext : (Item.writeAll p (opening ++ body)).text <+: source)

include htext

theorem isBeforeEnd_of_mem_arm :
    ∀ c ∈ Item.growAll source p (opening ++ body), c.isBeforeEnd = true :=
  isBeforeEnd_of_mem_growAll (fun item hitem => (List.mem_append.1 hitem).elim (h.not_end item)
    (not_end_of_isArmPart hbody item)) htext

/-- A clause makes the arm that its items make, except that an `else` without statements makes
none. -/
theorem arms_clause {a : Arm}
    (ha : ArmPiece.arms none false (armPieces (Item.growAll source p (opening ++ body))) = [a])
    (hempty : word = "else" → body = [] → a = {}) {c : Node}
    (hc : c = (Item.list none (word ++ "_clause").toList (opening ++ body)).grow source p) :
    c.arms = [a] ∨ a = {} ∧ c.arms = [] := by
  have harms : c.arms =
      ArmPiece.arms none false (armPieces (c.children.takeWhile isBeforeEnd)) :=
    c.arms_eq_armPieces
  rw [harms]
  by_cases hplain : (opening ++ body).all Item.isPlainToken = true
  · have hchildren : c.children = [] := by
      rw [hc, Item.grow, if_pos hplain]
      rfl
    obtain ⟨-, -, helse, -, hnil⟩ := h.eq_of_plain hbody hplain
    rw [hchildren]
    exact .inr ⟨hempty helse hnil, rfl⟩
  · have hchildren : c.children = Item.growAll source p (opening ++ body) := by
      rw [hc, Item.grow, if_neg hplain]
      rfl
    rw [hchildren, List.takeWhile_eq_self_iff.2 (isBeforeEnd_of_mem_arm h hbody htext)]
    exact .inl ha

variable (wrapped : Bool) (hword : word ≠ "if")

include hword

theorem unwraps_armItems :
    Unwraps (Item.growAll source p (armItems wrapped word (opening ++ body)))
      (Item.growAll source p (opening ++ body)) := by
  cases wrapped with
  | false => exact .refl _
  | true =>
    show Unwraps [Item.grow source p (.list none _ (opening ++ body))] _
    have hkind := h.kind_clause hword
    rw [Item.grow]
    split
    · rename_i hplain
      -- A clause of plain tokens is an `else` with nothing in it. It has become a leaf, whose text
      -- is the keyword.
      obtain ⟨k, hk, -, rfl, rfl⟩ := h.eq_of_plain hbody hplain
      rw [List.append_nil] at htext ⊢
      have htoken : ∀ word, ((Item.token none k).grow source p).isToken word = isWord k word :=
        fun word => Item.isToken_grow htext word
      rw [leafText_token]
      have hclause := SameInside.clause
        (c := (leaf p (word ++ "_clause").toList true none k).link source []) rfl hkind
      refine ⟨hclause.trans (.keyword rfl rfl ?_ ?_ ?_), rfl, rfl⟩ <;>
        exact (htoken _).trans (not_isWord_of_isWord hk (by decide))
    · rename_i hplain
      have hne : Item.growAll source p (opening ++ body) ≠ [] := by
        rw [← List.length_pos_iff, Item.length_growAll, List.length_pos_iff]
        exact ne_nil_of_not_plain hplain
      obtain ⟨c, cs, hcs⟩ := List.exists_cons_of_ne_nil hne
      refine ⟨SameInside.clause rfl hkind, ?_, ?_⟩
      · rw [hcs]
        rfl
      · obtain ⟨d, hd⟩ := Option.ne_none_iff_exists'.1 (mt List.getLast?_eq_none_iff.1 hne)
        simp [trunk, hd]

/-- The items of an arm, or the clause around them, close the arm before them and make their own,
except that an `else` without statements may make none. -/
theorem arms_armItems {a : Arm}
    (ha : ArmPiece.arms none false (armPieces (Item.growAll source p (opening ++ body))) = [a])
    (hempty : word = "else" → body = [] → a = {}) :
    ArmPiece.Led (armPieces (Item.growAll source p (armItems wrapped word (opening ++ body)))) ∧
      (∀ c ∈ Item.growAll source p (armItems wrapped word (opening ++ body)),
        c.isBeforeEnd = true) ∧
      ∃ as, ArmPiece.arms none false
          (armPieces (Item.growAll source p (armItems wrapped word (opening ++ body)))) = as ∧
        (as = [a] ∨ a = {} ∧ as = []) := by
  cases wrapped with
  | false =>
    refine ⟨?_, isBeforeEnd_of_mem_arm h hbody htext, [a], ha, .inl rfl⟩
    rw [Item.writeAll_append] at htext
    obtain ⟨-, -, hled, -⟩ := h.arms ((Item.text_writeAll body _).trans htext)
    show ArmPiece.Led (armPieces (Item.growAll source p (opening ++ body)))
    rw [Item.growAll_append, armPieces_append]
    exact hled _
  | true =>
    show ArmPiece.Led (armPieces [Item.grow source p (.list none _ (opening ++ body))]) ∧
      (∀ c ∈ [Item.grow source p (.list none _ (opening ++ body))], c.isBeforeEnd = true) ∧
      ∃ as, ArmPiece.arms none false
        (armPieces [Item.grow source p (.list none _ (opening ++ body))]) = as ∧ _
    set c := Item.grow source p (.list none (word ++ "_clause").toList (opening ++ body)) with hc
    obtain ⟨hclause, hend⟩ := isArmClause_clause h hword hc
    -- A clause is one piece, which holds its arms ready made.
    have hpieces : armPieces [c] = [.clause c.arms] := by
      simp [armPieces, hclause]
    rw [hpieces]
    exact ⟨.clause _ .nil, by simpa using hend, c.arms, by simp [ArmPiece.arms],
      arms_clause h hbody htext ha hempty hc⟩

end Arms

/-! ## Arms with alike bodies -/

/-- Two rows of later arms that look the same and make the same arms. -/
structure SameLater (ns ms : List Node) : Prop where
  row : SameRow ns ms
  arms :
    SameArms (ArmPiece.arms none false (armPieces ns)) (ArmPiece.arms none false (armPieces ms))
  led : ArmPiece.Led (armPieces ns) ∧ ArmPiece.Led (armPieces ms)
  before : (∀ c ∈ ns, c.isBeforeEnd = true) ∧ ∀ c ∈ ms, c.isBeforeEnd = true

namespace SameLater

theorem nil : SameLater [] [] := ⟨.refl [], .nil, ⟨.nil, .nil⟩, by simp⟩

theorem append {ns ms ns' ms' : List Node} (h : SameLater ns ms) (h' : SameLater ns' ms') :
    SameLater (ns ++ ns') (ms ++ ms') where
  row := h.row.append h'.row
  arms := by
    rw [armPieces_append, armPieces_append, h'.led.1.arms_append, h'.led.2.arms_append]
    exact h.arms.append h'.arms
  led := by
    rw [armPieces_append, armPieces_append]
    exact ⟨h.led.1.append h'.led.1, h.led.2.append h'.led.2⟩
  before :=
    ⟨fun c hc => (List.mem_append.1 hc).elim (h.before.1 c) (h'.before.1 c),
      fun c hc => (List.mem_append.1 hc).elim (h.before.2 c) (h'.before.2 c)⟩

end SameLater

section Bodies

variable {source : Text} {p : Page} {word : String} {opening : List Item}

/-- With alike bodies after it, the opening of an arm makes two arms that are the same. -/
theorem Opening.sameArm (h : Opening word opening)
    (htext : (Item.writeAll p opening).text <+: source) {ns ms : List Node}
    (hparts : ∀ n ∈ ns, n.isArmPart = true) (hbodies : List.Forall₂ Alike ns ms) :
    ∃ a b, ArmPiece.arms none false (armPieces (Item.growAll source p opening ++ ns)) = [a] ∧
      ArmPiece.arms none false (armPieces (Item.growAll source p opening ++ ms)) = [b] ∧
      SameArm a b ∧ (word = "else" → ns = [] → a = {}) := by
  obtain ⟨a₀, helse, -, harms⟩ := h.arms htext
  obtain ⟨a, b, ha, hb, hab⟩ := SameArm.arms_body hbodies hparts (.refl a₀)
  refine ⟨a, b, ?_, ?_, hab, ?_⟩
  · rw [armPieces_append, harms]
    exact ha
  · rw [armPieces_append, harms]
    exact hb
  · rintro hword rfl
    rw [← helse hword]
    exact (List.cons.inj ha).1.symm

theorem isArmPart_of_mem_growAll {items : List Item} (h : ∀ item ∈ items, item.isArmPart = true) :
    ∀ c ∈ Item.growAll source p items, c.isArmPart = true := by
  intro c hc
  obtain ⟨item, hitem, q, -, rfl⟩ := Item.exists_of_mem_growAll hc
  rw [Node.isArmPart, Item.named_grow, Item.kind_grow]
  exact h item hitem

/-- **The two shapes of a later arm are the same**, with alike bodies in them. -/
theorem sameLater_armItems (h : Opening word opening) (hword : word ≠ "if") {body body' : List Item}
    (hbody : ∀ item ∈ body, item.isArmPart = true) (hbody' : ∀ item ∈ body', item.isArmPart = true)
    (hwrite : Item.writeAll (Item.writeAll p opening) body' =
      Item.writeAll (Item.writeAll p opening) body)
    (htext : (Item.writeAll p (opening ++ body)).text <+: source)
    (hbodies : List.Forall₂ Alike (Item.growAll source (Item.writeAll p opening) body)
      (Item.growAll source (Item.writeAll p opening) body')) (wrapped wrapped' : Bool) :
    SameLater (Item.growAll source p (armItems wrapped word (opening ++ body)))
      (Item.growAll source p (armItems wrapped' word (opening ++ body'))) := by
  have htext' : (Item.writeAll p (opening ++ body')).text <+: source := by
    rw [Item.writeAll_append, hwrite, ← Item.writeAll_append]
    exact htext
  have hopening : (Item.writeAll p opening).text <+: source := by
    rw [Item.writeAll_append] at htext
    exact (Item.text_writeAll body _).trans htext
  obtain ⟨a, b, ha, hb, hab, hempty⟩ :=
    h.sameArm hopening (isArmPart_of_mem_growAll hbody) hbodies
  rw [← Item.growAll_append] at ha hb
  -- A wrapped `else` with nothing in it makes no arm, and a flat one makes an empty arm.
  have hempty : word = "else" → body = [] → a = {} := by
    rintro helse rfl
    exact hempty helse rfl
  have hempty' : word = "else" → body' = [] → b = {} := by
    rintro helse rfl
    have hlength := hbodies.length_eq
    rw [Item.length_growAll, Item.length_growAll] at hlength
    exact hab.eq_empty_iff.1 (hempty helse (List.length_eq_zero_iff.1 hlength))
  obtain ⟨hled, hbefore, as, has, hcases⟩ := arms_armItems h hbody htext wrapped hword ha hempty
  obtain ⟨hled', hbefore', bs, hbs, hcases'⟩ :=
    arms_armItems h hbody' htext' wrapped' hword hb hempty'
  refine ⟨?_, ?_, ⟨hled, hled'⟩, hbefore, hbefore'⟩
  · refine .of_unwraps (unwraps_armItems h hbody htext wrapped hword)
      (unwraps_armItems h hbody' htext' wrapped' hword) ?_
    rw [Item.growAll_append, Item.growAll_append]
    exact (SameRow.refl _).append (.of_alike hbodies)
  · rw [has, hbs]
    -- On each side the arm is there, or it is left out because it is empty.
    rcases hcases with rfl | ⟨ha, rfl⟩
    · rcases hcases' with rfl | ⟨hb, rfl⟩
      · exact .cons hab .nil
      · rw [hab.eq_empty_iff.2 hb]
        exact .left .nil
    · rcases hcases' with rfl | ⟨-, rfl⟩
      · rw [hab.eq_empty_iff.1 ha]
        exact .right .nil
      · exact .nil

end Bodies

end Sexp

end DesignFacts

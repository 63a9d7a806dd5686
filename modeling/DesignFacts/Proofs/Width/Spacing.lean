import DesignFacts.Proofs.Width.Literal
import Mathlib.Logic.Relation

/-!
# Blanks in type texts

A tool can write the text of a type with blanks around its dots and parentheses or without them, and
both should mean the same type. Texts that differ in such blanks only (`Respaced`) have the same
joints, and the same pieces between them up to blanks at their ends (`SameShape`). This is all that
the readers of bounds look at, but not all that the reader of marks does: it keeps the blanks behind
the last dot, and a mark with a blank in front is none (`Detached`).

Main result: `respaced_width`.
-/

namespace DesignFacts.Width

open Text Numeral

variable {s t u a b l r : Text}

/-! ## Joints and pieces -/

/-- The characters around which blanks can stand. -/
def isJoint (c : Char) : Bool := c == '.' || c == '(' || c == ')'

/-- One text is the other with a blank more next to a joint. -/
inductive Spaced : Text → Text → Prop
  | before (a b : Text) {j w : Char} (hj : isJoint j = true) (hw : isBlank w = true) :
      Spaced (a ++ j :: b) (a ++ w :: j :: b)
  | after (a b : Text) {j w : Char} (hj : isJoint j = true) (hw : isBlank w = true) :
      Spaced (a ++ j :: b) (a ++ j :: w :: b)

/-- Texts that become the same by inserting and removing blanks next to joints. -/
def Respaced : Text → Text → Prop := Relation.EqvGen Spaced

/-- The parts of a text between its joints, without blanks at their ends. -/
def pieces (t : Text) : List Text := (splitWith isJoint t).map trim

/-- Texts with the same joints and the same pieces between them. -/
structure SameShape (s t : Text) : Prop where
  joints_eq : s.filter isJoint = t.filter isJoint
  pieces_eq : pieces s = pieces t

theorem isJoint_iff {c : Char} : isJoint c = true ↔ c = '.' ∨ c = '(' ∨ c = ')' := by
  simp [isJoint, or_assoc]

theorem isJoint_of_isBlank {w : Char} (hw : isBlank w = true) : isJoint w = false := by
  simp only [isJoint, Bool.or_eq_false_iff, beq_eq_false_iff_ne]
  exact ⟨⟨isBlank_ne hw (by decide), isBlank_ne hw (by decide)⟩, isBlank_ne hw (by decide)⟩

theorem pieces_append_cons {j : Char} (hj : isJoint j = true) (a b : Text) :
    pieces (a ++ j :: b) = pieces a ++ pieces b := by
  rw [pieces, splitWith_append_cons hj, List.map_append]
  rfl

theorem pieces_of_plain (h : ∀ c ∈ t, isJoint c = false) : pieces t = [trim t] := by
  have hsplit := splitWith_append_of_not h (rfl : splitWith isJoint [] = [[]])
  rw [List.append_nil] at hsplit
  rw [pieces, hsplit, List.map_singleton]

theorem pieces_cons_blank {w : Char} (hw : isBlank w = true) (t : Text) :
    pieces (w :: t) = pieces t := by
  rw [pieces, pieces, splitWith, isJoint_of_isBlank hw]
  cases hsplit : splitWith isJoint t with
  | nil => exact absurd hsplit (splitWith_ne_nil _ _)
  | cons part parts =>
    show trim (w :: part) :: parts.map trim = trim part :: parts.map trim
    rw [skipsBlanks_trim w part hw]

theorem pieces_append_blank {w : Char} (hw : isBlank w = true) (t : Text) :
    pieces (t ++ [w]) = pieces t := by
  by_cases hjoint : ∃ j ∈ t, isJoint j = true
  · obtain ⟨j, hmem, hj⟩ := hjoint
    obtain ⟨a, b, rfl⟩ := List.append_of_mem hmem
    have hrest := pieces_append_blank hw b
    rw [List.append_assoc, List.cons_append, pieces_append_cons hj, pieces_append_cons hj, hrest]
  · have hplain : ∀ c ∈ t, isJoint c = false := fun c hc =>
      Bool.eq_false_iff.2 fun hj => hjoint ⟨c, hc, hj⟩
    have hplain' : ∀ c ∈ t ++ [w], isJoint c = false := by
      intro c hc
      rcases List.mem_append.1 hc with hc | hc
      · exact hplain c hc
      · rw [List.mem_singleton.1 hc]
        exact isJoint_of_isBlank hw
    rw [pieces_of_plain hplain, pieces_of_plain hplain', trim_append_blanks]
    intro c hc
    rw [List.mem_singleton.1 hc]
    exact hw
termination_by t.length
decreasing_by
  subst_vars
  rw [List.length_append, List.length_cons]
  omega

namespace SameShape

theorem refl (t : Text) : SameShape t t := ⟨rfl, rfl⟩

theorem symm (h : SameShape s t) : SameShape t s := ⟨h.joints_eq.symm, h.pieces_eq.symm⟩

theorem trans (h : SameShape s t) (h' : SameShape t u) : SameShape s u :=
  ⟨h.joints_eq.trans h'.joints_eq, h.pieces_eq.trans h'.pieces_eq⟩

theorem of_blank_before {w : Char} (hw : isBlank w = true) (t : Text) : SameShape (w :: t) t :=
  ⟨by simp [isJoint_of_isBlank hw], pieces_cons_blank hw t⟩

theorem of_blank_after {w : Char} (hw : isBlank w = true) (t : Text) : SameShape (t ++ [w]) t :=
  ⟨by simp [isJoint_of_isBlank hw], pieces_append_blank hw t⟩

/-- Shapes are put together at a joint. -/
theorem append {s' t' : Text} {j : Char} (hj : isJoint j = true) (h : SameShape s t)
    (h' : SameShape s' t') : SameShape (s ++ j :: s') (t ++ j :: t') := by
  refine ⟨?_, ?_⟩
  · rw [List.filter_append, List.filter_append, List.filter_cons_of_pos hj,
      List.filter_cons_of_pos hj, h.joints_eq, h'.joints_eq]
  · rw [pieces_append_cons hj, pieces_append_cons hj, h.pieces_eq, h'.pieces_eq]

end SameShape

theorem Spaced.sameShape (h : Spaced s t) : SameShape s t := by
  cases h with
  | @before a b j w hj hw =>
    have hshape := (SameShape.of_blank_after hw a).append hj (.refl b)
    rw [List.append_assoc] at hshape
    exact hshape.symm
  | @after a b j w hj hw =>
    exact (SameShape.refl a).append hj (SameShape.of_blank_before hw b).symm

theorem Respaced.sameShape (h : Respaced s t) : SameShape s t := by
  induction h with
  | rel s t h => exact h.sameShape
  | refl t => exact .refl t
  | symm s t _ ih => exact ih.symm
  | trans s t u _ _ ih ih' => exact ih.trans ih'

/-! ## Parts of texts of one shape -/

theorem length_splitWith (p : Char → Bool) (t : Text) :
    (splitWith p t).length = (t.filter p).length + 1 := by
  induction t with
  | nil => rfl
  | cons c t ih =>
    rw [splitWith]
    by_cases hc : p c = true
    · rw [if_pos hc, List.filter_cons_of_pos hc, List.length_cons, List.length_cons, ih]
    · rw [if_neg hc, List.filter_cons_of_neg hc, ← ih]
      cases hsplit : splitWith p t with
      | nil => exact absurd hsplit (splitWith_ne_nil p t)
      | cons part parts => rfl

@[simp] theorem isJoint_toLower (c : Char) : isJoint c.toLower = isJoint c := by
  simp [isJoint]

namespace SameShape

theorem mem_iff (h : SameShape s t) {j : Char} (hj : isJoint j = true) : j ∈ s ↔ j ∈ t := by
  have hmem : j ∈ s.filter isJoint ↔ j ∈ t.filter isJoint := by rw [h.joints_eq]
  simpa [hj] using hmem

/-- A text without joints keeps everything but blanks at its ends. -/
theorem trim_eq (h : SameShape s t) (hs : ∀ c ∈ s, isJoint c = false) : trim s = trim t := by
  have ht : ∀ c ∈ t, isJoint c = false := by
    intro c hc
    by_contra hj
    have hmem := (h.mem_iff (Bool.not_eq_false _ ▸ hj)).2 hc
    exact hj (hs c hmem)
  have hpieces := h.pieces_eq
  rw [pieces_of_plain hs, pieces_of_plain ht] at hpieces
  exact (List.cons.inj hpieces).1

/-- A joint divides texts of one shape into texts of one shape. -/
theorem exists_split {j : Char} (hj : isJoint j = true) (h : SameShape (a ++ j :: b) t) :
    ∃ a' b', t = a' ++ j :: b' ∧ SameShape a a' ∧ SameShape b b' := by
  have hjoints : t.filter isJoint = a.filter isJoint ++ j :: b.filter isJoint := by
    rw [← h.joints_eq, List.filter_append, List.filter_cons_of_pos hj]
  obtain ⟨a₁, rest, rfl, ha, hrest⟩ := List.filter_eq_append_iff.1 hjoints
  obtain ⟨a₂, b', rfl, ha₂, -, hb⟩ := List.filter_eq_cons_iff.1 hrest
  have hfront : a.filter isJoint = (a₁ ++ a₂).filter isJoint := by
    rw [List.filter_append, ha, List.filter_eq_nil_iff.2 ha₂, List.append_nil]
  have hpieces : pieces a ++ pieces b = pieces (a₁ ++ a₂) ++ pieces b' := by
    rw [← pieces_append_cons hj, ← pieces_append_cons hj, h.pieces_eq, List.append_assoc]
  have hlength : (pieces a).length = (pieces (a₁ ++ a₂)).length := by
    rw [pieces, pieces, List.length_map, List.length_map, length_splitWith,
      length_splitWith, hfront]
  obtain ⟨hleft, hright⟩ := List.append_inj hpieces hlength
  exact ⟨a₁ ++ a₂, b', by rw [List.append_assoc], ⟨hfront, hleft⟩, ⟨hb.symm, hright⟩⟩

theorem lower_congr (h : SameShape s t) : SameShape (lower s) (lower t) := by
  have hcomp : isJoint ∘ Char.toLower = isJoint := by
    funext c
    exact isJoint_toLower c
  have hpieces (t : Text) : pieces (lower t) = (pieces t).map lower := by
    rw [pieces, pieces, splitWith_lower, hcomp, List.map_map, List.map_map]
    refine List.map_congr_left fun part _ => ?_
    exact trim_lower part
  refine ⟨?_, ?_⟩
  · rw [filter_lower, filter_lower, hcomp, h.joints_eq]
  · rw [hpieces, hpieces, h.pieces_eq]

theorem of_blanks_before (ha : IsBlanks a) (t : Text) : SameShape (a ++ t) t := by
  induction a with
  | nil => exact .refl t
  | cons c a ih =>
    exact (of_blank_before (ha c (by simp)) (a ++ t)).trans (ih fun x hx => ha x (by simp [hx]))

theorem of_blanks_after (hb : IsBlanks b) (t : Text) : SameShape (t ++ b) t := by
  induction b generalizing t with
  | nil =>
    rw [List.append_nil]
    exact .refl t
  | cons c b ih =>
    have hrest := ih (fun x hx => hb x (by simp [hx])) (t ++ [c])
    rw [List.append_assoc] at hrest
    exact hrest.trans (of_blank_after (hb c (by simp)) t)

theorem of_trim (t : Text) : SameShape (trim t) t := by
  obtain ⟨a, ha, hstart⟩ := exists_eq_append_trimStart t
  obtain ⟨b, hb, hend⟩ := exists_eq_trimEnd_append (trimStart t)
  have hfront : SameShape t (trimStart t) := by
    have hshape := of_blanks_before ha (trimStart t)
    rwa [← hstart] at hshape
  have hback : SameShape (trimStart t) (trim t) := by
    have hshape := of_blanks_after hb (trimEnd (trimStart t))
    rwa [← hend] at hshape
  exact (hfront.trans hback).symm

theorem before_congr (h : SameShape s t) {j : Char} (hj : isJoint j = true) :
    SameShape (before j s) (before j t) := by
  by_cases hmem : j ∈ s
  · obtain ⟨a, b, rfl, ha⟩ := List.eq_append_cons_of_mem hmem
    obtain ⟨a', b', rfl, hshape, -⟩ := h.exists_split hj
    rw [before_append_cons ha, before_append_cons (mt (hshape.mem_iff hj).2 ha)]
    exact hshape
  · rw [before_eq_self hmem, before_eq_self (mt (h.mem_iff hj).2 hmem)]
    exact h

theorem afterLast_congr (h : SameShape s t) {j : Char} (hj : isJoint j = true) :
    SameShape (afterLast j s) (afterLast j t) := by
  by_cases hmem : j ∈ s
  · obtain ⟨a, hs, hb⟩ := exists_eq_append_afterLast hmem
    rw [hs] at h
    obtain ⟨a', b', rfl, -, hshape⟩ := h.exists_split hj
    rw [afterLast_append_cons (mt (hshape.mem_iff hj).2 hb)]
    exact hshape
  · rw [afterLast_eq_self hmem, afterLast_eq_self (mt (h.mem_iff hj).2 hmem)]
    exact h

end SameShape

/-! ## Bounds -/

theorem isBlank_of_isJoint {j : Char} (hj : isJoint j = true) : isBlank j = false := by
  rcases isJoint_iff.1 hj with rfl | rfl | rfl <;> decide

theorem isAlpha_of_isJoint {j : Char} (hj : isJoint j = true) : j.isAlpha = false := by
  rcases isJoint_iff.1 hj with rfl | rfl | rfl <;> decide

theorem IsRange.not_isJoint {signed : Bool} {x : Text} (h : IsRange signed x l r) :
    ∀ c ∈ x, isJoint c = false := by
  intro c hc
  by_contra hj
  rw [Bool.not_eq_false, isJoint_iff] at hj
  rcases hj with rfl | rfl | rfl
  all_goals exact h.notMem (by decide) hc

theorem SameShape.vectorBounds?_eq_some (h : SameShape s t) (hs : vectorBounds? s = some (l, r)) :
    vectorBounds? t = some (l, r) := by
  obtain ⟨pre, x, post, rfl, hpost, hrange⟩ := vectorBounds?_eq_some_iff.1 hs
  obtain ⟨pre', rest, rfl, -, hrest⟩ := h.exists_split (j := '(') rfl
  obtain ⟨x', post', rfl, hx, hpost'⟩ := hrest.exists_split (j := ')') rfl
  have hwords : words x' = words x := by
    rw [← words_trim x', ← words_trim x, hx.trim_eq hrange.not_isJoint]
  have hblanks : words post' = [] := by
    rw [← words_trim post', ← hpost'.trim_eq fun c hc => isJoint_of_isBlank (hpost c hc),
      words_trim, ← List.append_nil post, words_blanks_append hpost]
    rfl
  obtain ⟨d, v, w, hrange⟩ := hrange
  exact vectorBounds?_eq_some_iff.2 ⟨pre', x', post', rfl, isBlanks_of_words_eq_nil hblanks,
    d, v, w, hwords ▸ hrange⟩

theorem SameShape.vectorBounds?_eq (h : SameShape s t) : vectorBounds? s = vectorBounds? t := by
  apply Option.ext
  intro bounds
  exact ⟨h.vectorBounds?_eq_some, h.symm.vectorBounds?_eq_some⟩

theorem integerBounds?_of_isJoint {j : Char} (hj : isJoint j = true) (hmem : j ∈ t) :
    integerBounds? t = none := by
  cases hbounds : integerBounds? t with
  | none => rfl
  | some bounds =>
    have hchar := mem_of_integerBounds? hbounds hmem (isBlank_of_isJoint hj)
    rcases isJoint_iff.1 hj with rfl | rfl | rfl
    all_goals exact absurd hchar (by decide)

/-! ## Marks -/

/-- What stands behind the last dot before the range of a type, with its blanks. -/
def markPart (t : Text) : Text := afterLast '.' (before '(' t)

/-- A blank stands between the last dot of a type and its mark. -/
def Detached (t : Text) : Prop := '.' ∈ before '(' t ∧ (markPart t).head?.any isBlank = true

instance (t : Text) : Decidable (Detached t) := inferInstanceAs (Decidable (_ ∧ _))

theorem trim_before_trim (t : Text) : trim (before '(' (trim t)) = trim (before '(' t) := by
  have hstart : trim (before '(' (trimStart t)) = trim (before '(' t) :=
    (skipsBlanks_trim_before (by decide)).trimStart_eq t
  obtain ⟨b, hb, hend⟩ := exists_eq_trimEnd_append (trimStart t)
  have hopen : '(' ∉ b := hb.notMem (by decide)
  rw [← hstart]
  show trim (before '(' (trimEnd (trimStart t))) = _
  generalize trimEnd (trimStart t) = u at hend
  rw [hend]
  by_cases hmem : '(' ∈ u
  · obtain ⟨x, y, rfl, hx⟩ := List.eq_append_cons_of_mem hmem
    rw [List.append_assoc, List.cons_append, before_append_cons hx, before_append_cons hx]
  · rw [before_eq_self hmem, before_eq_self (by simp [hmem, hopen]), trim_append_blanks hb]

theorem afterLast_trim (h : '.' ∈ t) : afterLast '.' (trim t) = trimEnd (afterLast '.' t) := by
  obtain ⟨q, ht, hdot⟩ := exists_eq_append_afterLast h
  have hstart := trimStart_append_cons (c := '.') (by decide) q (afterLast '.' t)
  rw [← ht] at hstart
  have htrim : trim t = trimStart q ++ '.' :: trimEnd (afterLast '.' t) := by
    rw [trim, hstart, trimEnd_append_cons (by decide)]
  rw [htrim, afterLast_append_cons (mt mem_of_mem_trimEnd hdot)]

theorem typeMark_trim_of_dot (h : '.' ∈ before '(' t) :
    typeMark (trim t) = trimEnd (markPart t) := by
  rw [typeMark, trim_before_trim, afterLast_trim h]
  rfl

/-- Without a blank behind its last dot, a type has the mark that it shows. -/
theorem typeMark_of_attached (h : ¬ Detached t) :
    typeMark (lower (trim t)) = lower (trim (markPart t)) := by
  rw [typeMark_lower]
  congr 1
  by_cases hdot : '.' ∈ before '(' t
  · have hhead : ∀ c ∈ (markPart t).head?, isBlank c = false := by
      intro c hc
      by_contra hblank
      rw [Bool.not_eq_false] at hblank
      exact h ⟨hdot, (Option.any_eq_true ..).2 ⟨c, hc, hblank⟩⟩
    rw [typeMark_trim_of_dot hdot, trim, trimStart_eq_self hhead]
  · have htrim : '.' ∉ trim (before '(' t) := mt mem_of_mem_trim hdot
    rw [typeMark, trim_before_trim, afterLast_eq_self htrim, markPart, afterLast_eq_self hdot]

/-- With one, it has none. -/
theorem not_isToken_of_detached (h : Detached t) : ¬ IsToken (typeMark (trim t)) := by
  intro htoken
  rw [typeMark_trim_of_dot h.1] at htoken
  obtain ⟨c, hc, hblank⟩ := (Option.any_eq_true ..).1 h.2
  obtain ⟨b, -, hsplit⟩ := exists_eq_trimEnd_append (markPart t)
  rw [hsplit] at hc
  have hfirst := htoken.head? b c hc
  rw [hblank] at hfirst
  cases hfirst

theorem estimate_of_detached (h : Detached t) : estimate t = 0 ∧ isVector t = false := by
  have hunmarked := hasMark_of_not_isToken (not_isToken_of_detached h)
  have hdot : '.' ∈ lower (trim t) := by
    rw [mem_lower _ (by decide)]
    exact mem_trim_of_not (by decide) ((List.takeWhile_sublist _).subset h.1)
  refine ⟨?_, ?_⟩
  · rw [estimate_of_unmarked hunmarked, integerBounds?_of_isJoint (by decide) hdot]
    rfl
  · rw [hasMark_append, Bool.or_eq_false_iff] at hunmarked
    exact hunmarked.2

/-! ## Widths -/

/-- Whether a part is a mark does not depend on blanks. -/
theorem SameShape.mark_of_mark (h : SameShape s t) {word : String}
    (hword : word ∈ scalarMarks ++ vectorMarks) (hs : word.toList = lower (trim s)) :
    word.toList = lower (trim t) := by
  have hplain : ∀ c ∈ s, isJoint c = false := by
    intro c hc
    by_contra hj
    rw [Bool.not_eq_false] at hj
    have hmem := mem_trim_of_not (isBlank_of_isJoint hj) hc
    have hident := isIdent_of_vocabulary (mem_vocabulary_of_mark hword) hs.symm c hmem
    rcases isJoint_iff.1 hj with rfl | rfl | rfl <;> cases hident
  rw [hs, h.trim_eq hplain]

theorem SameShape.estimate_of_attached (h : SameShape s t) (hs : ¬ Detached s) (ht : ¬ Detached t) :
    estimate s = estimate t ∧ isVector s = isVector t := by
  have hpart : SameShape (markPart s) (markPart t) :=
    (h.before_congr (j := '(') rfl).afterLast_congr rfl
  have hmark {marks : List String} (hmarks : marks ⊆ scalarMarks ++ vectorMarks) :
      hasMark marks s = hasMark marks t := by
    rw [Bool.eq_iff_iff, hasMark_iff, hasMark_iff, typeMark_of_attached hs, typeMark_of_attached ht]
    constructor
    · rintro ⟨mark, hmark, heq⟩
      exact ⟨mark, hmark, hpart.mark_of_mark (hmarks hmark) heq⟩
    · rintro ⟨mark, hmark, heq⟩
      exact ⟨mark, hmark, hpart.symm.mark_of_mark (hmarks hmark) heq⟩
  have hscalar := hmark (List.subset_append_left scalarMarks vectorMarks)
  have hvector := hmark (List.subset_append_right scalarMarks vectorMarks)
  refine ⟨?_, hvector⟩
  -- With a dot or a parenthesis in the text no integer range is read, and the bounds of a vector do
  -- not see the blanks. Without one nothing but the ends can differ.
  by_cases hjoint : ∃ j ∈ s, isJoint j = true
  · obtain ⟨j, hjs, hj⟩ := hjoint
    have hread {t : Text} (hmem : j ∈ t) :
        (lower (trim t)).isEmpty = false ∧ integerBounds? (lower (trim t)) = none := by
      have hlower : j ∈ lower (trim t) := by
        rw [mem_lower _ (isAlpha_of_isJoint hj)]
        exact mem_trim_of_not (isBlank_of_isJoint hj) hmem
      exact ⟨List.isEmpty_eq_false_iff.2 (List.ne_nil_of_mem hlower),
        integerBounds?_of_isJoint hj hlower⟩
    obtain ⟨hempty, hinteger⟩ := hread hjs
    obtain ⟨hempty', hinteger'⟩ := hread ((h.mem_iff hj).1 hjs)
    have hshape : SameShape (lower (trim s)) (lower (trim t)) :=
      (((SameShape.of_trim s).trans h).trans (SameShape.of_trim t).symm).lower_congr
    have hopen : (lower (trim s)).contains '(' = (lower (trim t)).contains '(' := by
      rw [Bool.eq_iff_iff, List.contains_iff_mem, List.contains_iff_mem]
      exact hshape.mem_iff rfl
    rw [estimate_eq, estimate_eq, hempty, hempty', hscalar, hvector, hopen, hshape.vectorBounds?_eq,
      hinteger, hinteger']
  · have htrim : trim s = trim t := h.trim_eq fun c hc =>
      Bool.eq_false_iff.2 fun hj => hjoint ⟨c, hc, hj⟩
    rw [estimate, estimate, htrim]

/-- Blanks around dots and parentheses change neither the width of a type nor whether it is a
vector, unless one of them stands between the last dot and the mark. Behind such a blank no mark is
seen; a mark without one is. -/
theorem respaced_width (h : Respaced s t) :
    ((Detached s ↔ Detached t) → estimate s = estimate t ∧ isVector s = isVector t) ∧
    (Detached s → estimate s = 0 ∧ isVector s = false) ∧
    (¬ Detached s → (∃ mark ∈ vectorMarks, mark.toList = lower (trim (markPart s))) →
      isVector s = true) ∧
    (¬ Detached s → (∃ mark ∈ scalarMarks, mark.toList = lower (trim (markPart s))) → '(' ∉ s →
      estimate s = 1) := by
  refine ⟨?_, estimate_of_detached, ?_, ?_⟩
  · intro hdetached
    by_cases hs : Detached s
    · obtain ⟨hwidth, hvector⟩ := estimate_of_detached hs
      obtain ⟨hwidth', hvector'⟩ := estimate_of_detached (hdetached.1 hs)
      exact ⟨hwidth.trans hwidth'.symm, hvector.trans hvector'.symm⟩
    · exact h.sameShape.estimate_of_attached hs (mt hdetached.2 hs)
  · rintro hs ⟨mark, hmark, heq⟩
    exact hasMark_iff.2 ⟨mark, hmark, heq.trans (typeMark_of_attached hs).symm⟩
  · rintro hs ⟨mark, hmark, heq⟩ hopen
    exact estimate_of_scalar
      (hasMark_iff.2 ⟨mark, hmark, heq.trans (typeMark_of_attached hs).symm⟩) hopen

/-- A type as it is often written. -/
def tightUnsigned : Text := "ieee.numeric_std.unsigned(3 downto 0)".toList

/-- The same type with blanks around its dots, but none behind the last one. -/
def attachedUnsigned : Text := "ieee . numeric_std .unsigned(3 downto 0)".toList

/-- The same type with a blank there too. -/
def spacedUnsigned : Text := "ieee . numeric_std . unsigned(3 downto 0)".toList

theorem respaced_attachedUnsigned : Respaced tightUnsigned attachedUnsigned := by
  have hdot : isJoint '.' = true := by decide
  have hspace : isBlank ' ' = true := by decide
  have hfirst := Spaced.before "ieee".toList "numeric_std.unsigned(3 downto 0)".toList hdot hspace
  have hsecond := Spaced.after "ieee ".toList "numeric_std.unsigned(3 downto 0)".toList hdot hspace
  have hthird := Spaced.before "ieee . numeric_std".toList "unsigned(3 downto 0)".toList hdot hspace
  exact .trans _ _ _ (.rel _ _ hfirst) (.trans _ _ _ (.rel _ _ hsecond) (.rel _ _ hthird))

theorem respaced_spacedUnsigned : Respaced attachedUnsigned spacedUnsigned := by
  have hdot : isJoint '.' = true := by decide
  have hspace : isBlank ' ' = true := by decide
  exact .rel _ _ (.after "ieee . numeric_std ".toList "unsigned(3 downto 0)".toList hdot hspace)

theorem respaced_width_unsigned :
    (estimate tightUnsigned = estimate attachedUnsigned ∧
      isVector tightUnsigned = isVector attachedUnsigned) ∧ isVector attachedUnsigned = true ∧
      estimate spacedUnsigned = 0 ∧ isVector spacedUnsigned = false := by
  have hattached := respaced_width respaced_spacedUnsigned
  have hspaced := respaced_width (.symm _ _ respaced_spacedUnsigned)
  exact ⟨(respaced_width respaced_attachedUnsigned).1 (by decide),
    hattached.2.2.1 (by decide) ⟨"unsigned", by decide, by decide⟩, hspaced.2.1 (by decide)⟩

/-- A blank behind the last dot loses the mark, and with it the width. -/
theorem spacedUnsigned_loses_mark :
    Respaced tightUnsigned spacedUnsigned ∧
      (estimate tightUnsigned = 4 ∧ isVector tightUnsigned = true) ∧
      estimate spacedUnsigned = 0 ∧ isVector spacedUnsigned = false :=
  ⟨.trans _ _ _ respaced_attachedUnsigned respaced_spacedUnsigned, by decide +kernel⟩

end DesignFacts.Width

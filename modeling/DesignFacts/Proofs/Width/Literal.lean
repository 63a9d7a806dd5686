import DesignFacts.Proofs.Width.Range
import Mathlib.Order.Bounds.Defs

/-!
# Widths of literal ranges

The width of a type is read off a literal range, and off nothing else. This file writes out how a
type with a range can look (`VectorForm`, `IntegerForm`): marks and directions in any letter case, a
library in front of the mark of a vector, and blanks around the parts.

In every such text, a vector with two numbers as its bounds has as many bits as there are numbers
between them, and an integer type has the least number of bits in which its values can be counted.
With a name in one of the bounds the width is unknown.

Main result: `estimate_range`.
-/

namespace DesignFacts.Width

open Text Numeral

variable {signed : Bool} {t l r : Text} {a b : Int}

/-! ## Numbers of values -/

/-- The width of a vector is the number of its elements, if this is a 32-bit number. -/
theorem ofVectorBounds_eq (hl : Spells false l a) (hr : Spells false r b) (ha : a < 2 ^ 64)
    (hb : b < 2 ^ 64) :
    ofVectorBounds l r = if (a - b).natAbs + 1 < 2 ^ 32 then (a - b).natAbs + 1 else 0 := by
  have hcount : max a.toNat b.toNat - min a.toNat b.toNat + 1 = (a - b).natAbs + 1 := by
    have ha : 0 ≤ a := hl.nonneg
    have hb : 0 ≤ b := hr.nonneg
    omega
  rw [ofVectorBounds, hl.unsigned?_eq ha, hr.unsigned?_eq hb]
  dsimp only
  rw [hcount]
  rfl

/-- So many bits count so many values, and fewer do not. -/
theorem isLeast_bitsForValues {n : Nat} :
    IsLeast {w | 1 ≤ w ∧ n ≤ 2 ^ w} (bitsForValues n) := by
  rw [bitsForValues]
  by_cases hn : n ≤ 2
  · rw [if_pos hn]
    exact ⟨⟨le_refl 1, hn⟩, fun w hw => hw.1⟩
  · rw [if_neg hn]
    refine ⟨⟨by omega, ?_⟩, fun w hw => ?_⟩
    · have hlt : n - 1 < 2 ^ ((n - 1).log2 + 1) := Nat.lt_log2_self
      omega
    · have hlt : n - 1 < 2 ^ w := by
        have hle : n ≤ 2 ^ w := hw.2
        omega
      exact (Nat.log2_lt (by omega)).2 hlt

theorem isLeast_word64 : IsLeast {w | 1 ≤ w ∧ 2 ^ 64 ≤ 2 ^ w} 64 :=
  ⟨⟨by decide, le_refl _⟩, fun _ hw => (Nat.pow_le_pow_iff_right (by decide)).1 hw.2⟩

/-- No range of signed 64-bit numbers has more values than there are such numbers. -/
theorem natAbs_sub_le (ha : IsWord a) (hb : IsWord b) : (a - b).natAbs + 1 ≤ 2 ^ 64 := by
  unfold IsWord at ha hb
  omega

theorem isLeast_ofIntegerBounds (hl : Spells true l a) (hr : Spells true r b) (ha : IsWord a)
    (hb : IsWord b) :
    IsLeast {w | 1 ≤ w ∧ (a - b).natAbs + 1 ≤ 2 ^ w} (ofIntegerBounds l r) := by
  rw [ofIntegerBounds, hl.signed?_eq ha, hr.signed?_eq hb]
  dsimp only
  split
  · exact isLeast_bitsForValues
  · rename_i hlarge
    have hcount : (a - b).natAbs + 1 = 2 ^ 64 :=
      Nat.le_antisymm (natAbs_sub_le ha hb) (Nat.le_of_not_lt hlarge)
    rw [hcount]
    exact isLeast_word64

/-! ## Words in any letter case -/

/-- The words of types and ranges, in small letters. -/
def vocabulary : List String :=
  scalarMarks ++ vectorMarks ++ integerMarks ++ directions ++ ["range"]

theorem vocabulary_isIdent : vocabulary.all (fun word => !word.toList.isEmpty) = true ∧
    vocabulary.all (fun word => word.toList.all isIdent) = true := by
  decide

theorem mem_vocabulary_of_mark {word : String} (h : word ∈ scalarMarks ++ vectorMarks) :
    word ∈ vocabulary :=
  List.mem_append_left _ (List.mem_append_left _ (List.mem_append_left _ h))

section Vocabulary

variable {word : String} (hword : word ∈ vocabulary) (h : lower t = word.toList)

include hword h

theorem isIdent_of_vocabulary : ∀ c ∈ t, isIdent c = true := by
  intro c hc
  rw [← isIdent_toLower]
  refine List.all_eq_true.1 (List.all_eq_true.1 vocabulary_isIdent.2 word hword) _ ?_
  rw [← h]
  exact List.mem_map_of_mem hc

theorem isToken_of_vocabulary : IsToken t where
  ne_nil := by
    rintro rfl
    have hne := List.all_eq_true.1 vocabulary_isIdent.1 word hword
    rw [← h] at hne
    cases hne
  not_blank := fun c hc => isBlank_of_isIdent (isIdent_of_vocabulary hword h c hc)

theorem notMem_of_vocabulary {c : Char} (hc : isIdent c = false) : c ∉ t := by
  intro hmem
  rw [isIdent_of_vocabulary hword h c hmem] at hc
  cases hc

end Vocabulary

/-! ## Ranges as they are written -/

/-- How a range is written around its bounds: its direction in any letter case, and blanks. -/
structure RangeForm where
  start : Text
  left : Text
  direction : Text
  right : Text
  stop : Text
  start_blanks : IsBlanks start
  left_gap : IsGap left
  isDirection : IsDirection (lower direction)
  right_gap : IsGap right
  stop_blanks : IsBlanks stop

def RangeForm.text (f : RangeForm) (l r : Text) : Text :=
  f.start ++ (l ++ (f.left ++ (f.direction ++ (f.right ++ (r ++ f.stop)))))

/-- The text of a bound: not blank, and without an opening parenthesis. -/
structure IsBound (t : Text) : Prop where
  nonblank : ∃ c ∈ t, isBlank c = false
  plain : '(' ∉ t

theorem Spells.notMem (h : Spells signed t a) {c : Char} (hdigit : c.isDigit = false)
    (hminus : c ≠ '-') : c ∉ t := by
  intro hc
  rcases h.mem c hc with htrue | heq
  · rw [htrue] at hdigit
    cases hdigit
  · exact hminus heq

theorem Spells.isBound (h : Spells signed t a) : IsBound t where
  nonblank := by
    obtain ⟨c, hc⟩ := List.exists_mem_of_ne_nil t h.isToken.ne_nil
    exact ⟨c, hc, h.isToken.not_blank c hc⟩
  plain := h.notMem (by decide) (by decide)

/-- A text that is no number: some character of it stands in none. -/
def IsSymbolic (t : Text) : Prop := ∃ c ∈ t, isBlank c = false ∧ c.isDigit = false ∧ c ≠ '-'

theorem not_isSymbolic {x : Text} (hwords : words (lower t) = [x]) (hx : Spells signed x a) :
    ¬ IsSymbolic t := by
  rintro ⟨c, hc, hblank, hdigit, hminus⟩
  have hlower : c.toLower ∈ lower t := List.mem_map_of_mem hc
  obtain ⟨w, hw, hmem⟩ := exists_mem_words hlower (by rw [isBlank_toLower, hblank])
  rw [hwords, List.mem_singleton] at hw
  subst hw
  rcases hx.mem _ hmem with h | h
  · rw [isDigit_toLower, hdigit] at h
    cases h
  · exact hminus ((toLower_eq_iff (by decide) c).1 h)

theorem IsBound.words_ne_nil (h : IsBound t) : words (lower t) ≠ [] := by
  obtain ⟨c, hc, hblank⟩ := h.nonblank
  have hlower : c.toLower ∈ lower t := List.mem_map_of_mem hc
  obtain ⟨w, hw, -⟩ := exists_mem_words hlower (by rw [isBlank_toLower, hblank])
  exact List.ne_nil_of_mem hw

namespace RangeForm

variable (f : RangeForm)

theorem notMem_text {c : Char} (hblank : isBlank c = false) (hident : isIdent c = false)
    (hl : c ∉ l) (hr : c ∉ r) : c ∉ f.text l r := by
  have hgap {a : Text} (ha : IsBlanks a) : c ∉ a := ha.notMem hblank
  have hdirection : c ∉ f.direction := by
    obtain ⟨word, hword, h⟩ := f.isDirection
    exact notMem_of_vocabulary (by simp [vocabulary, hword]) h hident
  simp only [text, List.mem_append, not_or]
  exact ⟨hgap f.start_blanks, hl, hgap f.left_gap.blanks, hdirection, hgap f.right_gap.blanks, hr,
    hgap f.stop_blanks⟩

/-- Two numbers make a literal range. -/
theorem isRange_text (hl : Spells signed l a) (hr : Spells signed r b) :
    IsRange signed (lower (f.text l r)) l r := by
  refine isRange_iff.2 ⟨_, _, _, _, _, a, b, ?_, f.start_blanks.lower, f.left_gap.lower,
    f.isDirection, f.right_gap.lower, f.stop_blanks.lower, hl, hr⟩
  simp only [text, lower_append, hl.lower_eq, hr.lower_eq]

theorem words_text (l r : Text) :
    words (lower (f.text l r)) = words (lower l) ++ lower f.direction :: words (lower r) := by
  simp only [text, lower_append]
  exact words_range f.start_blanks.lower f.left_gap.lower f.isDirection.isToken
    f.right_gap.lower f.stop_blanks.lower _ _

/-- Other bounds do not. -/
theorem not_isSymbolic_of_isRange {x y : Text} (hl : IsBound l) (hr : IsBound r)
    (h : IsRange signed (lower (f.text l r)) x y) : ¬ IsSymbolic l ∧ ¬ IsSymbolic r := by
  obtain ⟨d, v, w, hwords, -, hx, hy⟩ := h
  rw [f.words_text] at hwords
  -- Each bound has a word at least, and there is room for no more.
  obtain ⟨u, us, hu⟩ := List.exists_cons_of_ne_nil hl.words_ne_nil
  obtain ⟨z, zs, hz⟩ := List.exists_cons_of_ne_nil hr.words_ne_nil
  rw [hu, hz] at hwords
  have hlength := congrArg List.length hwords
  simp only [List.length_append, List.length_cons, List.length_nil] at hlength
  obtain rfl : us = [] := List.length_eq_zero_iff.1 (by omega)
  obtain rfl : zs = [] := List.length_eq_zero_iff.1 (by omega)
  cases hwords
  exact ⟨not_isSymbolic hu hx, not_isSymbolic hz hy⟩

end RangeForm

/-! ## Widths by marks -/

/-- Whether the mark of a type is one of the given ones. -/
def hasMark (marks : List String) (t : Text) : Bool :=
  marks.any (·.toList == typeMark (lower (trim t)))

theorem hasMark_append (marks others : List String) (t : Text) :
    hasMark (marks ++ others) t = (hasMark marks t || hasMark others t) :=
  List.any_append

theorem hasMark_iff {marks : List String} :
    hasMark marks t = true ↔ ∃ mark ∈ marks, mark.toList = typeMark (lower (trim t)) := by
  simp [hasMark]

theorem isVector_eq (t : Text) : isVector t = hasMark vectorMarks t := rfl

theorem typeMark_lower (t : Text) : typeMark (lower t) = lower (typeMark t) := by
  simp [typeMark]

/-- The mark of a type decides how its width is read. -/
theorem estimate_eq (t : Text) :
    estimate t = if (lower (trim t)).isEmpty then 0
      else if hasMark scalarMarks t && !(lower (trim t)).contains '(' then 1
      else if hasMark vectorMarks t then ((vectorBounds? (lower (trim t))).map fun bounds =>
        ofVectorBounds bounds.1 bounds.2).getD 0
      else ((integerBounds? (lower (trim t))).map fun bounds =>
        ofIntegerBounds bounds.1 bounds.2).getD 0 := by
  rw [estimate]
  cases vectorBounds? (lower (trim t)) <;> cases integerBounds? (lower (trim t)) <;> rfl

theorem isEmpty_of_hasMark (h : hasMark (scalarMarks ++ vectorMarks) t = true) :
    (lower (trim t)).isEmpty = false := by
  rw [Bool.eq_false_iff]
  intro hempty
  rw [hasMark, List.isEmpty_iff.1 hempty] at h
  exact absurd h (by decide)

theorem estimate_of_isVector (h : isVector t = true) :
    estimate t = ((vectorBounds? (lower (trim t))).map fun bounds =>
      ofVectorBounds bounds.1 bounds.2).getD 0 := by
  rw [isVector_eq] at h
  have hscalar : hasMark scalarMarks t = false := by
    obtain ⟨mark, hmark, heq⟩ := hasMark_iff.1 h
    rw [hasMark, ← heq]
    simp only [vectorMarks, List.mem_cons, List.not_mem_nil, or_false] at hmark
    rcases hmark with rfl | rfl | rfl | rfl | rfl <;> decide
  have hne := isEmpty_of_hasMark (by rw [hasMark_append, h, Bool.or_true])
  rw [estimate_eq, hne, hscalar, h]
  rfl

theorem estimate_of_scalar (h : hasMark scalarMarks t = true) (hopen : '(' ∉ t) :
    estimate t = 1 := by
  have hne := isEmpty_of_hasMark (by rw [hasMark_append, h, Bool.true_or])
  have hplain : (lower (trim t)).contains '(' = false := by
    rw [Bool.eq_false_iff, ne_eq, List.contains_iff_mem, mem_lower _ (by decide)]
    exact mt mem_of_mem_trim hopen
  rw [estimate_eq, hne, h, hplain]
  rfl

/-- A type has no mark unless what stands in its place is a word. -/
theorem hasMark_of_not_isToken (h : ¬ IsToken (typeMark (trim t))) :
    hasMark (scalarMarks ++ vectorMarks) t = false := by
  rw [hasMark, List.any_eq_false]
  intro word hword heq
  rw [beq_iff_eq, typeMark_lower] at heq
  exact h (isToken_of_vocabulary (mem_vocabulary_of_mark hword) heq.symm)

theorem estimate_of_unmarked (h : hasMark (scalarMarks ++ vectorMarks) t = false) :
    estimate t = ((integerBounds? (lower (trim t))).map fun bounds =>
      ofIntegerBounds bounds.1 bounds.2).getD 0 := by
  rw [hasMark_append, Bool.or_eq_false_iff] at h
  rw [estimate_eq, h.1, h.2]
  by_cases hempty : lower (trim t) = []
  · rw [hempty]
    rfl
  · rw [List.isEmpty_eq_false_iff.2 hempty]
    rfl

/-! ## Vector types -/

/-- The name of a library in front of a mark: nothing, or something without blanks that ends with a
dot. -/
structure IsLibrary (t : Text) : Prop where
  plain : ∀ c ∈ t, isBlank c = false ∧ c ≠ '('
  ends : t = [] ∨ t.getLast? = some '.'

instance (t : Text) : Decidable (IsLibrary t) :=
  @decidable_of_iff _ _ ⟨fun h => ⟨h.1, h.2⟩, fun h => ⟨h.plain, h.ends⟩⟩
    (@instDecidableAnd _ _ (List.decidableBAll _ t) _)

/-- How a vector type with a range is written: its mark in any letter case, behind the name of a
library without blanks, and the range in parentheses. -/
structure VectorForm extends RangeForm where
  lead : Text
  library : Text
  mark : Text
  gap : Text
  trail : Text
  lead_blanks : IsBlanks lead
  isLibrary : IsLibrary library
  isMark : ∃ word ∈ vectorMarks, lower mark = word.toList
  gap_blanks : IsBlanks gap
  trail_blanks : IsBlanks trail

namespace VectorForm

variable (f : VectorForm)

/-- The text of a vector type with its bounds. -/
def text (l r : Text) : Text :=
  f.lead ++ ((f.library ++ f.mark) ++ (f.gap ++ '(' :: f.toRangeForm.text l r ++ [')'])) ++ f.trail

theorem isToken_mark : IsToken f.mark := by
  obtain ⟨word, hword, h⟩ := f.isMark
  exact isToken_of_vocabulary (by simp [vocabulary, hword]) h

theorem notMem_mark {c : Char} (hc : isIdent c = false) : c ∉ f.mark := by
  obtain ⟨word, hword, h⟩ := f.isMark
  exact notMem_of_vocabulary (by simp [vocabulary, hword]) h hc

theorem isToken_name : IsToken (f.library ++ f.mark) :=
  f.isToken_mark.append fun c hc => (f.isLibrary.plain c hc).1

theorem trim_text (l r : Text) :
    trim (f.text l r) =
      (f.library ++ f.mark) ++ (f.gap ++ '(' :: f.toRangeForm.text l r ++ [')']) := by
  rw [text, trim_pad f.lead_blanks f.trail_blanks, trim_tokens f.isToken_name (by decide)]

theorem afterLast_name : afterLast '.' (f.library ++ f.mark) = f.mark := by
  have hdot : '.' ∉ f.mark := f.notMem_mark (by decide)
  rcases f.isLibrary.ends with hnil | hlast
  · rw [hnil, List.nil_append, afterLast_eq_self hdot]
  · obtain ⟨library, hconcat⟩ := List.getLast?_eq_some_iff.1 hlast
    rw [hconcat, List.append_assoc, List.singleton_append, afterLast_append_cons hdot]

theorem typeMark_trim_text (l r : Text) : typeMark (trim (f.text l r)) = f.mark := by
  have hopen : '(' ∉ f.library ++ f.mark ++ f.gap := by
    simp only [List.mem_append, not_or]
    exact ⟨⟨fun hc => (f.isLibrary.plain _ hc).2 rfl, f.notMem_mark (by decide)⟩,
      f.gap_blanks.notMem (by decide)⟩
  have hbefore : before '(' (trim (f.text l r)) = f.library ++ f.mark ++ f.gap := by
    rw [f.trim_text, List.append_assoc f.gap, List.cons_append, ← List.append_assoc]
    exact before_append_cons hopen _
  rw [typeMark, hbefore, trim_append_blanks f.gap_blanks, trim_eq_self f.isToken_name.not_blank,
    f.afterLast_name]

theorem isVector_text (l r : Text) : isVector (f.text l r) = true := by
  obtain ⟨word, hword, h⟩ := f.isMark
  refine hasMark_iff.2 ⟨word, hword, ?_⟩
  rw [typeMark_lower, f.typeMark_trim_text, h]

/-- Exactly the literal ranges have bounds. -/
theorem vectorBounds?_text {x y : Text} (hl : '(' ∉ l) (hr : '(' ∉ r) :
    vectorBounds? (lower (trim (f.text l r))) = some (x, y) ↔
      IsRange false (lower (f.toRangeForm.text l r)) x y := by
  have hopen : '(' ∉ lower (f.toRangeForm.text l r) := by
    rw [mem_lower _ (by decide)]
    exact f.toRangeForm.notMem_text (by decide) (by decide) hl hr
  have hsplit : lower (trim (f.text l r)) = lower (f.library ++ f.mark ++ f.gap) ++
      '(' :: (lower (f.toRangeForm.text l r) ++ [')']) := by
    rw [f.trim_text]
    simp
  rw [hsplit, vectorBounds?_closed hopen]

theorem estimate_of_literal (hl : Spells false l a) (hr : Spells false r b) (ha : a < 2 ^ 64)
    (hb : b < 2 ^ 64) :
    estimate (f.text l r) =
      if (a - b).natAbs + 1 < 2 ^ 32 then (a - b).natAbs + 1 else 0 := by
  have hbounds := (f.vectorBounds?_text hl.isBound.plain hr.isBound.plain).2 (f.isRange_text hl hr)
  rw [estimate_of_isVector (f.isVector_text l r), hbounds]
  exact ofVectorBounds_eq hl hr ha hb

theorem estimate_of_symbolic (hl : IsBound l) (hr : IsBound r)
    (h : IsSymbolic l ∨ IsSymbolic r) : estimate (f.text l r) = 0 := by
  rw [estimate_of_isVector (f.isVector_text l r)]
  cases hbounds : vectorBounds? (lower (trim (f.text l r))) with
  | none => rfl
  | some bounds =>
    have hrange := (f.vectorBounds?_text hl.plain hr.plain).1 hbounds
    have hnone := f.not_isSymbolic_of_isRange hl hr hrange
    exact absurd h (not_or.2 hnone)

end VectorForm

/-! ## Integer types -/

/-- How an integer type with a range is written: its mark and the word range in any letter case, and
blanks around the range. -/
structure IntegerForm extends RangeForm where
  lead : Text
  mark : Text
  gap : Text
  keyword : Text
  lead_blanks : IsBlanks lead
  isMark : ∃ word ∈ integerMarks, lower mark = word.toList
  gap_gap : IsGap gap
  isKeyword : lower keyword = "range".toList
  start_ne_nil : start ≠ []

namespace IntegerForm

variable (f : IntegerForm)

/-- The text of an integer type with its bounds. -/
def text (l r : Text) : Text :=
  f.lead ++ (f.mark ++ (f.gap ++ (f.keyword ++ f.toRangeForm.text l r)))

theorem isToken_mark : IsToken f.mark := by
  obtain ⟨word, hword, h⟩ := f.isMark
  exact isToken_of_vocabulary (by simp [vocabulary, hword]) h

theorem isToken_keyword : IsToken f.keyword :=
  isToken_of_vocabulary (by simp [vocabulary]) f.isKeyword

theorem start_gap : IsGap f.start := ⟨f.start_ne_nil, f.start_blanks⟩

theorem words_text (l r : Text) :
    words (lower (f.text l r)) =
      lower f.mark :: lower f.keyword :: words (lower (f.toRangeForm.text l r)) := by
  have hstart := words_blanks_append f.start_blanks.lower
  simp only [text, RangeForm.text, lower_append]
  rw [words_blanks_append f.lead_blanks.lower, words_append_blanks_append f.gap_gap.lower.blanks
    f.gap_gap.lower.ne_nil, words_append_blanks_append f.start_gap.lower.blanks
    f.start_gap.lower.ne_nil, hstart, f.isToken_mark.lower.words_eq,
    f.isToken_keyword.lower.words_eq]
  rfl

theorem notMem_text {c : Char} (hblank : isBlank c = false) (hident : isIdent c = false)
    (hl : c ∉ l) (hr : c ∉ r) : c ∉ f.text l r := by
  have hgap {a : Text} (ha : IsBlanks a) : c ∉ a := ha.notMem hblank
  have hmark : c ∉ f.mark := by
    obtain ⟨word, hword, h⟩ := f.isMark
    exact notMem_of_vocabulary (by simp [vocabulary, hword]) h hident
  have hkeyword : c ∉ f.keyword :=
    notMem_of_vocabulary (by simp [vocabulary]) f.isKeyword hident
  simp only [text, List.mem_append, not_or]
  exact ⟨hgap f.lead_blanks, hmark, hgap f.gap_gap.blanks, hkeyword,
    f.toRangeForm.notMem_text hblank hident hl hr⟩

/-- The text has more than one word, so it is no mark. -/
theorem unmarked_text (hl : '(' ∉ l ∧ '.' ∉ l) (hr : '(' ∉ r ∧ '.' ∉ r) :
    hasMark (scalarMarks ++ vectorMarks) (f.text l r) = false := by
  have hopen : '(' ∉ trim (f.text l r) := fun hc =>
    f.notMem_text (by decide) (by decide) hl.1 hr.1 (mem_of_mem_trim hc)
  have hdot : '.' ∉ trim (f.text l r) := fun hc =>
    f.notMem_text (by decide) (by decide) hl.2 hr.2 (mem_of_mem_trim hc)
  have hmark : typeMark (trim (f.text l r)) = trim (f.text l r) := by
    rw [typeMark, before_eq_self hopen, trim_trim, afterLast_eq_self hdot]
  refine hasMark_of_not_isToken fun htoken => ?_
  have hwords := htoken.lower.words_eq
  rw [hmark, ← trim_lower, words_trim, f.words_text] at hwords
  exact absurd (List.cons.inj hwords).2 (List.cons_ne_nil _ _)

theorem isLeast_estimate (hl : Spells true l a) (hr : Spells true r b) (ha : IsWord a)
    (hb : IsWord b) :
    IsLeast {w | 1 ≤ w ∧ (a - b).natAbs + 1 ≤ 2 ^ w} (estimate (f.text l r)) := by
  have htrim : trim (f.text l r) = f.mark ++ (f.gap ++ (f.keyword ++ (f.start ++
      (l ++ (f.left ++ (f.direction ++ (f.right ++ r))))))) := by
    have hsplit : f.text l r = f.lead ++ (f.mark ++ ((f.gap ++ (f.keyword ++ (f.start ++
        (l ++ (f.left ++ (f.direction ++ f.right)))))) ++ r)) ++ f.stop := by
      simp [text, RangeForm.text]
    rw [hsplit, trim_pad f.lead_blanks f.stop_blanks, trim_tokens f.isToken_mark hr.isToken]
    simp
  have hbounds : integerBounds? (lower (trim (f.text l r))) = some (l, r) := by
    obtain ⟨word, hword, hmark⟩ := f.isMark
    refine integerBounds?_eq_some_iff.2 ⟨word.toList, lower f.gap, lower f.start, _, ?_,
      ⟨word, hword, ?_⟩, f.gap_gap.lower, f.start_gap.lower,
      bounds?_eq_some_iff.2 ⟨lower f.left, lower f.direction, lower f.right, a, b, rfl,
        f.left_gap.lower, f.isDirection, f.right_gap.lower, hl, hr, by simp⟩⟩
    · rw [htrim]
      simp only [lower_append, hmark, f.isKeyword, hl.lower_eq, hr.lower_eq, List.append_nil]
    · simp only [integerMarks, List.mem_cons, List.not_mem_nil, or_false] at hword
      rcases hword with rfl | rfl | rfl <;> rfl
  have hplain {t : Text} {v : Int} (ht : Spells true t v) : '(' ∉ t ∧ '.' ∉ t :=
    ⟨ht.notMem (by decide) (by decide), ht.notMem (by decide) (by decide)⟩
  rw [estimate_of_unmarked (f.unmarked_text (hplain hl) (hplain hr)), hbounds]
  exact isLeast_ofIntegerBounds hl hr ha hb

theorem estimate_of_symbolic (hl : IsBound l) (hr : IsBound r) (hldot : '.' ∉ l) (hrdot : '.' ∉ r)
    (h : IsSymbolic l ∨ IsSymbolic r) : estimate (f.text l r) = 0 := by
  rw [estimate_of_unmarked (f.unmarked_text ⟨hl.plain, hldot⟩ ⟨hr.plain, hrdot⟩)]
  cases hbounds : integerBounds? (lower (trim (f.text l r))) with
  | none => rfl
  | some bounds =>
    obtain ⟨m, x, hwords, ⟨d, v, w, hx, hrange⟩, -⟩ := words_of_integerBounds? hbounds
    rw [← trim_lower, words_trim, f.words_text, hx] at hwords
    have hrest := (List.cons.inj (List.cons.inj hwords).2).2
    have hnone := f.not_isSymbolic_of_isRange hl hr ⟨d, v, w, hrest, hrange⟩
    exact absurd h (not_or.2 hnone)

end IntegerForm

/-! ## Exact widths -/

/-- The width of a type with a range is exact if both bounds are numbers, and unknown if one of them
has a name in it. -/
theorem estimate_range :
    (∀ (f : VectorForm) (l r : Text) (a b : Int), Spells false l a → Spells false r b →
      a < 2 ^ 64 → b < 2 ^ 64 →
      estimate (f.text l r) = if (a - b).natAbs + 1 < 2 ^ 32 then (a - b).natAbs + 1 else 0) ∧
    (∀ (f : VectorForm) (l r : Text), IsBound l → IsBound r → IsSymbolic l ∨ IsSymbolic r →
      estimate (f.text l r) = 0) ∧
    (∀ (f : IntegerForm) (l r : Text) (a b : Int), Spells true l a → Spells true r b →
      IsWord a → IsWord b →
      IsLeast {w | 1 ≤ w ∧ (a - b).natAbs + 1 ≤ 2 ^ w} (estimate (f.text l r)) ∧
        (2 ^ 64 ≤ (a - b).natAbs + 1 → estimate (f.text l r) = 64)) ∧
    (∀ (f : IntegerForm) (l r : Text), IsBound l → IsBound r → '.' ∉ l → '.' ∉ r →
      IsSymbolic l ∨ IsSymbolic r → estimate (f.text l r) = 0) := by
  refine ⟨fun f l r a b hl hr ha hb => f.estimate_of_literal hl hr ha hb,
    fun f l r hl hr h => f.estimate_of_symbolic hl hr h, ?_,
    fun f l r hl hr hldot hrdot h => f.estimate_of_symbolic hl hr hldot hrdot h⟩
  intro f l r a b hl hr ha hb
  have hleast := f.isLeast_estimate hl hr ha hb
  refine ⟨hleast, fun hcount => ?_⟩
  rw [Nat.le_antisymm (natAbs_sub_le ha hb) hcount] at hleast
  exact hleast.unique isLeast_word64

/-- The form of `IEEE.numeric_std.Unsigned ( … DownTo … )`. -/
def unsignedForm : VectorForm where
  start := " ".toList
  left := " ".toList
  direction := "DownTo".toList
  right := "\t ".toList
  stop := " ".toList
  start_blanks := by decide
  left_gap := by decide
  isDirection := ⟨"downto", by decide, by decide⟩
  right_gap := by decide
  stop_blanks := by decide
  lead := " ".toList
  library := "IEEE.numeric_std.".toList
  mark := "Unsigned".toList
  gap := " ".toList
  trail := []
  lead_blanks := by decide
  isLibrary := by decide
  isMark := ⟨"unsigned", by decide, by decide⟩
  gap_blanks := by decide
  trail_blanks := by decide

/-- The form of `NATURAL range … To …`. -/
def naturalForm : IntegerForm where
  start := " ".toList
  left := " ".toList
  direction := "To".toList
  right := " ".toList
  stop := []
  start_blanks := by decide
  left_gap := by decide
  isDirection := ⟨"to", by decide, by decide⟩
  right_gap := by decide
  stop_blanks := by decide
  lead := []
  mark := "NATURAL".toList
  gap := " ".toList
  keyword := "range".toList
  lead_blanks := by decide
  isMark := ⟨"natural", by decide, by decide⟩
  gap_gap := by decide
  isKeyword := by decide
  start_ne_nil := by decide

theorem estimate_range_written :
    estimate (unsignedForm.text "31".toList "0".toList) = 32 ∧
      estimate (unsignedForm.text "WIDTH - 1".toList "0".toList) = 0 ∧
      IsLeast {w | 1 ≤ w ∧ 9 ≤ 2 ^ w} (estimate (naturalForm.text "-4".toList "4".toList)) ∧
      estimate (naturalForm.text "0".toList "LAST".toList) = 0 := by
  have h0 : IsDigits "0".toList := by decide
  have h4 : IsDigits "4".toList := by decide
  have h31 : IsDigits "31".toList := by decide
  have hwidth : IsBound "WIDTH - 1".toList := ⟨⟨'W', by decide, by decide⟩, by decide⟩
  have hlast : IsBound "LAST".toList := ⟨⟨'L', by decide, by decide⟩, by decide⟩
  have hzero : IsBound "0".toList := ⟨⟨'0', by decide, by decide⟩, by decide⟩
  refine ⟨?_, ?_, ?_, ?_⟩
  · exact estimate_range.1 unsignedForm _ _ 31 0 (.plain h31) (.plain h0) (by decide) (by decide)
  · exact estimate_range.2.1 unsignedForm _ _ hwidth hzero (.inl ⟨'W', by decide⟩)
  · exact (estimate_range.2.2.1 naturalForm _ _ (-4) 4 (.minus h4) (.plain h4) (by decide)
      (by decide)).1
  · exact estimate_range.2.2.2 naturalForm _ _ hzero hlast (by decide) (by decide)
      (.inr ⟨'L', by decide⟩)

end DesignFacts.Width

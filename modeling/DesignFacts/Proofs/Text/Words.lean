import DesignFacts.Proofs.LetterCase.Text
import Mathlib.Data.List.TakeWhile

/-!
# Words and where a text is cut

The words of a text are its longest runs without blanks, and a squashed text has one space between
them. This file says where a word with a space on both sides is first found in such a text.

**Words.** A blank separates words, whatever stands around it (`words_append_cons`).

**Parts.** What stands before the first and after the last occurrence of a character is the part up
to it and the part behind it (`before_append_cons`, `afterLast_append_cons`).

**Cutting.** A search for a word with its spaces can succeed only at the space after another word
(`cut_append_space`). So it passes over words in front of a text, as long as the word sought is not
among them and the text does not begin with it (`cut_glue`).
-/

namespace DesignFacts.Text

/-! ## Words -/

/-- A text spells one word only. -/
theorem not_isWord_of_isWord {t : Text} {word other : String} (h : isWord t word = true)
    (hother : isWord word.toList other = false) : isWord t other = false := by
  rw [isWord, same_iff] at h
  rw [← hother, isWord, isWord, same, same, h]

theorem mem_dropWhile_of_not {p : Char → Bool} {t : Text} {c : Char} (hc : p c = false)
    (h : c ∈ t) : c ∈ t.dropWhile p := by
  rw [← t.takeWhile_append_dropWhile (p := p)] at h
  rcases List.mem_append.1 h with h | h
  · rw [List.all_eq_true.1 List.all_takeWhile c h] at hc
    cases hc
  · exact h

theorem mem_dropEnd_of_not {p : Char → Bool} {t : Text} {c : Char} (hc : p c = false)
    (h : c ∈ t) : c ∈ dropEnd p t :=
  List.mem_reverse.2 (mem_dropWhile_of_not hc (List.mem_reverse.2 h))

/-- At the end of a text, nothing is dropped in front of a character that stays. -/
theorem dropEnd_append_cons {p : Char → Bool} {c : Char} (hc : p c = false) (s t : Text) :
    dropEnd p (s ++ c :: t) = s ++ c :: dropEnd p t := by
  have hstay : (c :: s.reverse).dropWhile p = c :: s.reverse :=
    List.dropWhile_cons_of_neg (by simp [hc])
  have hreverse : (s ++ c :: t).reverse = t.reverse ++ (c :: s.reverse) := by simp
  rw [dropEnd, hreverse, List.dropWhile_append]
  split
  · rename_i hempty
    rw [dropEnd, List.isEmpty_iff.1 hempty, hstay]
    simp
  · simp [dropEnd]

theorem dropEnd_append_of_pos {p : Char → Bool} {t : Text} (ht : ∀ c ∈ t, p c = true) (s : Text) :
    dropEnd p (s ++ t) = dropEnd p s := by
  rw [dropEnd, List.reverse_append,
    List.dropWhile_append_of_pos fun c hc => ht c (List.mem_reverse.1 hc)]
  rfl

theorem dropEnd_eq_self {p : Char → Bool} {t : Text} (h : ∀ c ∈ t.getLast?, p c = false) :
    dropEnd p t = t := by
  rcases t.eq_nil_or_concat with rfl | ⟨s, c, rfl⟩
  · rfl
  · rw [List.concat_eq_append, dropEnd_append_cons (h c (by simp))]
    rfl

theorem not_of_mem_getLast?_dropEnd {p : Char → Bool} {t : Text} {c : Char}
    (h : (dropEnd p t).getLast? = some c) : p c = false := by
  have hhead := List.head?_dropWhile_not p t.reverse
  rw [dropEnd, List.getLast?_reverse] at h
  rw [h] at hhead
  exact hhead

theorem exists_eq_dropEnd_append (p : Char → Bool) (t : Text) :
    ∃ u, (∀ c ∈ u, p c = true) ∧ t = dropEnd p t ++ u := by
  refine ⟨(t.reverse.takeWhile p).reverse, fun c hc => ?_, ?_⟩
  · exact List.all_eq_true.1 List.all_takeWhile c (List.mem_reverse.1 hc)
  · rw [dropEnd, ← List.reverse_append, List.takeWhile_append_dropWhile, List.reverse_reverse]

theorem mem_trim_of_not {t : Text} {c : Char} (hc : isBlank c = false) (h : c ∈ t) :
    c ∈ trim t :=
  mem_dropEnd_of_not hc (mem_dropWhile_of_not hc h)

theorem splitWith_ne_nil (p : Char → Bool) (t : Text) : splitWith p t ≠ [] := by
  cases t with
  | nil => simp [splitWith]
  | cons c t =>
    rw [splitWith]
    split
    · simp
    · split <;> simp

/-- The parts of a text hold all its characters but those at which it is split. -/
theorem flatten_splitWith (p : Char → Bool) (t : Text) :
    (splitWith p t).flatten = t.filter (!p ·) := by
  induction t with
  | nil => rfl
  | cons c t ih =>
    rw [splitWith]
    by_cases hc : p c = true
    · rw [if_pos hc, List.filter_cons_of_neg (by simp [hc]), ← ih]
      rfl
    · rw [if_neg hc, List.filter_cons_of_pos (by simp [hc]), ← ih]
      cases hsplit : splitWith p t with
      | nil => exact absurd hsplit (splitWith_ne_nil _ _)
      | cons part parts => rfl

theorem splitWith_append_cons {p : Char → Bool} {c : Char} (hc : p c = true) (a b : Text) :
    splitWith p (a ++ c :: b) = splitWith p a ++ splitWith p b := by
  induction a with
  | nil => simp [splitWith, hc]
  | cons d a ih =>
    rw [List.cons_append, splitWith, splitWith, ih]
    split
    · rfl
    · cases hsplit : splitWith p a with
      | nil => exact absurd hsplit (splitWith_ne_nil p a)
      | cons part parts => rfl

/-- What is split nowhere stays with the first part. -/
theorem splitWith_append_of_not {p : Char → Bool} {s t part : Text} {parts : List Text}
    (hs : ∀ c ∈ s, p c = false) (ht : splitWith p t = part :: parts) :
    splitWith p (s ++ t) = (s ++ part) :: parts := by
  induction s with
  | nil => exact ht
  | cons c s ih =>
    rw [List.cons_append, splitWith, if_neg (by simp [hs c]), ih fun x hx => hs x (by simp [hx])]
    rfl

/-- A blank separates the words before it from those after it. -/
theorem words_append_cons {c : Char} (hc : isBlank c = true) (a b : Text) :
    words (a ++ c :: b) = words a ++ words b := by
  rw [words, splitWith_append_cons hc, List.filter_append]
  rfl

theorem not_of_mem_splitWith {p : Char → Bool} {t w : Text} (hw : w ∈ splitWith p t) :
    ∀ c ∈ w, p c = false := by
  induction t generalizing w with
  | nil =>
    rw [splitWith, List.mem_singleton] at hw
    simp [hw]
  | cons d t ih =>
    rw [splitWith] at hw
    split at hw
    · rcases List.mem_cons.1 hw with rfl | hw
      · simp
      · exact ih hw
    · rename_i hd
      split at hw
      · obtain rfl := List.mem_singleton.1 hw
        simpa using hd
      · rename_i part parts hsplit
        rcases List.mem_cons.1 hw with rfl | hw
        · intro c hc
          rcases List.mem_cons.1 hc with rfl | hc
          · simpa using hd
          · exact ih (hsplit ▸ List.mem_cons_self) c hc
        · exact ih (hsplit ▸ List.mem_cons_of_mem part hw)

theorem not_isBlank_of_mem_words {t w : Text} (hw : w ∈ words t) : ∀ c ∈ w, isBlank c = false :=
  not_of_mem_splitWith (List.mem_filter.1 hw).1

/-- The first word of a text that does not begin with a blank begins as the text does. -/
theorem words_cons {c : Char} (hc : isBlank c = false) (t : Text) :
    ∃ w ws, words (c :: t) = (c :: w) :: ws := by
  rw [words, splitWith, hc]
  cases hsplit : splitWith isBlank t with
  | nil => exact ⟨[], [], by simp⟩
  | cons part parts => exact ⟨part, _, by simp; rfl⟩

/-! ## Parts at a character -/

theorem before_eq_self {c : Char} {t : Text} (h : c ∉ t) : before c t = t :=
  List.takeWhile_eq_self_iff.2 fun _ hx => bne_iff_ne.2 fun heq => h (heq ▸ hx)

theorem before_append_cons {c : Char} {s : Text} (h : c ∉ s) (t : Text) :
    before c (s ++ c :: t) = s := by
  have hs : ∀ x ∈ s, (x != c) = true := fun x hx => bne_iff_ne.2 fun heq => h (heq ▸ hx)
  rw [before, List.takeWhile_append_of_pos hs, List.takeWhile_cons_of_neg (by simp),
    List.append_nil]

theorem afterLast_eq_reverse (c : Char) (t : Text) : afterLast c t = (before c t.reverse).reverse :=
  rfl

theorem afterLast_eq_self {c : Char} {t : Text} (h : c ∉ t) : afterLast c t = t := by
  rw [afterLast_eq_reverse, before_eq_self (by simpa using h), List.reverse_reverse]

theorem afterLast_append_cons {c : Char} {t : Text} (h : c ∉ t) (s : Text) :
    afterLast c (s ++ c :: t) = t := by
  rw [afterLast_eq_reverse, List.reverse_append, List.reverse_cons, List.append_assoc,
    List.singleton_append, before_append_cons (by simpa using h), List.reverse_reverse]

/-- A text ends with what stands after the last occurrence of a character. -/
theorem exists_eq_append_afterLast {c : Char} {t : Text} (h : c ∈ t) :
    ∃ s, t = s ++ c :: afterLast c t ∧ c ∉ afterLast c t := by
  obtain ⟨u, s, hsplit, hu⟩ := List.eq_append_cons_of_mem (List.mem_reverse.2 h)
  have ht : t = s.reverse ++ c :: u.reverse := by
    rw [← List.reverse_reverse t, hsplit]
    simp
  have hafter : afterLast c t = u.reverse := by
    rw [ht, afterLast_append_cons (by simpa using hu)]
  exact ⟨s.reverse, by rw [hafter, ← ht], by rw [hafter]; simpa using hu⟩

/-! ## Cutting -/

/-- Words in front of a text, with a space after each. -/
def glue (ws : List Text) (t : Text) : Text := ws.foldr (fun w t => w ++ ' ' :: t) t

theorem glue_eq_append (ws : List Text) (t : Text) : glue ws t = glue ws [] ++ t := by
  induction ws with
  | nil => rfl
  | cons w ws ih =>
    rw [glue, List.foldr_cons, ← glue, ih]
    simp [glue]

theorem glue_eq_join {ws : List Text} (h : ws ≠ []) (t : Text) :
    glue ws t = join " " ws ++ ' ' :: t := by
  induction ws with
  | nil => exact absurd rfl h
  | cons w ws ih =>
    cases ws with
    | nil => simp [glue, join, List.intercalate]
    | cons v ws =>
      have hstep : join " " (w :: v :: ws) = w ++ ' ' :: join " " (v :: ws) := by
        simp [join, List.intercalate]
      rw [glue, List.foldr_cons, ← glue, ih (List.cons_ne_nil v ws), hstep, List.append_assoc]
      rfl

theorem join_append {vs ws : List Text} (h : ws ≠ []) :
    join " " (vs ++ ws) = glue vs (join " " ws) := by
  induction vs with
  | nil => rfl
  | cons v vs ih =>
    obtain ⟨w, ws', hws⟩ : ∃ w ws', vs ++ ws = w :: ws' :=
      List.exists_cons_of_ne_nil (by simp [h])
    rw [glue, List.foldr_cons, ← glue, ← ih, List.cons_append, hws]
    simp [join, List.intercalate]

theorem lower_glue (ws : List Text) (t : Text) :
    lower (glue ws t) = glue (ws.map lower) (lower t) := by
  induction ws with
  | nil => rfl
  | cons w ws ih =>
    rw [glue, List.foldr_cons, ← glue, lower_append, lower_cons, ih]
    rfl

/-- A text that begins with a character is not found before that character stands. -/
theorem cut_append_of_notMem {c : Char} {s : Text} (h : c ∉ s) (needle t : Text) :
    cut (c :: needle) (s ++ t) = (cut (c :: needle) t).map (Prod.map (s ++ ·) id) := by
  induction s with
  | nil => exact Option.map_id'.symm
  | cons d s ih =>
    have hd : (c == d) = false := by
      rw [beq_eq_false_iff_ne]
      rintro rfl
      exact h List.mem_cons_self
    rw [List.cons_append, cut, List.isPrefixOf_cons_cons, hd,
      ih fun hmem => h (List.mem_cons_of_mem d hmem), Option.map_map]
    rfl

theorem cut_eq_none_of_notMem {c : Char} {s : Text} (h : c ∉ s) (needle : Text) :
    cut (c :: needle) s = none := by
  have hcut := cut_append_of_notMem h needle []
  rw [List.append_nil] at hcut
  exact hcut

/-- A text with a space before it is found first at the space after a word, or later. -/
theorem cut_append_space {needle w : Text} (hw : ' ' ∉ w) (t : Text) :
    cut (' ' :: needle) (w ++ ' ' :: t) =
      if needle.isPrefixOf t then some (w, t.drop needle.length)
      else (cut (' ' :: needle) t).map fun (left, right) => (w ++ ' ' :: left, right) := by
  induction w with
  | nil =>
    rw [List.nil_append, cut, List.isPrefixOf_cons_cons]
    simp
  | cons c w ih =>
    have hc : (' ' == c) = false := by
      simp only [List.mem_cons, not_or] at hw
      simpa using hw.1
    rw [List.cons_append, cut, List.isPrefixOf_cons_cons, hc,
      ih fun hmem => hw (List.mem_cons_of_mem c hmem)]
    simp only [Bool.false_and, Bool.false_eq_true, if_false]
    split
    · rfl
    · rw [Option.map_map]
      rfl

/-- A word with its space is at the front of a word with its space only if it is that word. -/
theorem isPrefixOf_append_space {v w : Text} (hv : ' ' ∉ v) (hw : ' ' ∉ w) (t : Text) :
    (v ++ [' ']).isPrefixOf (w ++ ' ' :: t) = true ↔ v = w := by
  induction v generalizing w with
  | nil =>
    cases w with
    | nil => simp
    | cons c w =>
      simp only [List.mem_cons, not_or] at hw
      simp [hw.1]
  | cons d v ih =>
    simp only [List.mem_cons, not_or] at hv
    cases w with
    | nil => simp [Ne.symm hv.1]
    | cons c w =>
      simp only [List.mem_cons, not_or] at hw
      rw [List.cons_append, List.cons_append, List.isPrefixOf_cons_cons, Bool.and_eq_true,
        ih hv.2 hw.2, List.cons.injEq, beq_iff_eq]

/-- A search for a word with its spaces passes over other words, if the text after them does not
begin with that word. -/
theorem cut_glue {v : Text} (hv : ' ' ∉ v) {ws : List Text} (hws : ∀ w ∈ ws, ' ' ∉ w)
    (htail : ∀ w ∈ ws.tail, w ≠ v) {t : Text} (ht : (v ++ [' ']).isPrefixOf t = false) :
    cut (' ' :: (v ++ [' '])) (glue ws t) =
      (cut (' ' :: (v ++ [' '])) t).map (Prod.map (glue ws) id) := by
  induction ws with
  | nil => exact Option.map_id'.symm
  | cons w ws ih =>
    have hnext : (v ++ [' ']).isPrefixOf (glue ws t) = false := by
      cases ws with
      | nil => exact ht
      | cons u us =>
        rw [Bool.eq_false_iff]
        intro hprefix
        have hu : ' ' ∉ u := hws u (by simp)
        exact htail u (by simp) ((isPrefixOf_append_space hv hu _).1 hprefix).symm
    rw [glue, List.foldr_cons, ← glue, cut_append_space (hws w List.mem_cons_self), hnext,
      ih (fun u hu => hws u (List.mem_cons_of_mem w hu))
        (fun u hu => htail u (List.mem_of_mem_tail hu)), Option.map_map]
    rfl

end DesignFacts.Text

import DesignFacts.Text.Basic
import Mathlib.Data.List.Infix

/-!
# Splitting outside parentheses

A text is split at the separators that stand outside all parentheses. How deep a place lies is the
number of parentheses opened before it less the number of those closed (`depth`), so it is below
zero after closing ones that nothing opened, and such a place is inside parentheses too.

**One character.** A character at which the text is cut ends a part, every other one begins the
first part of what follows (`splitTopLevelAt_cons`).

**Cuts.** The text before a cut is made of some of the parts, with separators between them
(`CutAfter`). Neither none nor all of the parts will do: the ends of the text are no cuts.

Main result: the parts with separators between them are the text again, and the text is cut at the
separators at depth zero and nowhere else (`splitTopLevel_joined_cuts`).
-/

namespace DesignFacts.Text

variable {sep c : Char} {d : Int} {t pre : Text} {parts : List Text}

/-! ## Depth -/

/-- How many parentheses a text opens and does not close. -/
def depth (t : Text) : Int := t.count '(' - t.count ')'

theorem depth_append (s t : Text) : depth (s ++ t) = depth s + depth t := by
  simp only [depth, List.count_append]
  omega

theorem depth_cons (c : Char) (t : Text) : depth (c :: t) = depth [c] + depth t :=
  depth_append [c] t

theorem depth_singleton (c : Char) :
    depth [c] = if c = '(' then 1 else if c = ')' then -1 else 0 := by
  by_cases hopen : c = '('
  · subst hopen
    decide
  · by_cases hclose : c = ')'
    · subst hclose
      decide
    · simp [depth, hopen, hclose]

/-- A counter of 32 bits is wide enough for every place of a text with fewer than `2 ^ 31`
parentheses. -/
theorem depth_fits (hpre : pre <+: t) (hfew : t.count '(' + t.count ')' < 2147483648) :
    -2147483648 ≤ depth pre ∧ depth pre < 2147483648 := by
  have hopen := hpre.sublist.count_le '('
  have hclose := hpre.sublist.count_le ')'
  rw [depth]
  omega

/-! ## One character -/

/-- A text is cut at a character of the given depth. -/
structure CutAt (sep : Char) (d : Int) (c : Char) : Prop where
  separator : c = sep
  not_open : sep ≠ '('
  not_close : sep ≠ ')'
  outside : d = 0

instance (sep : Char) (d : Int) (c : Char) : Decidable (CutAt sep d c) :=
  decidable_of_iff (_ ∧ _ ∧ _ ∧ _)
    ⟨fun h => ⟨h.1, h.2.1, h.2.2.1, h.2.2.2⟩, fun h => ⟨h.1, h.2, h.3, h.4⟩⟩

theorem splitTopLevelAt_ne_nil (sep : Char) (d : Int) (t : Text) :
    splitTopLevelAt sep d t ≠ [] := by
  cases t with
  | nil => exact List.cons_ne_nil _ _
  | cons c t =>
    rw [splitTopLevelAt]
    dsimp only
    repeat' split
    all_goals exact List.cons_ne_nil _ _

/-- A character ends a part or goes to the front of the next one. -/
theorem splitTopLevelAt_cons (sep : Char) (d : Int) (c : Char) (t : Text) :
    splitTopLevelAt sep d (c :: t) =
      if CutAt sep d c then [] :: splitTopLevelAt sep (d + depth [c]) t
      else (splitTopLevelAt sep (d + depth [c]) t).modifyHead (c :: ·) := by
  obtain ⟨part, parts, hparts⟩ :=
    List.exists_cons_of_ne_nil (splitTopLevelAt_ne_nil sep (d + depth [c]) t)
  rw [splitTopLevelAt, hparts]
  dsimp only
  rw [depth_singleton] at hparts
  by_cases hopen : c = '('
  · have hno : ¬ CutAt sep d c := fun h => h.not_open (h.separator ▸ hopen)
    rw [if_pos hopen] at hparts
    rw [if_neg hno, if_pos (beq_iff_eq.2 hopen), hparts]
    rfl
  · rw [if_neg hopen] at hparts
    rw [if_neg (by simpa using hopen)]
    by_cases hclose : c = ')'
    · have hno : ¬ CutAt sep d c := fun h => h.not_close (h.separator ▸ hclose)
      rw [if_pos hclose, ← Int.sub_eq_add_neg] at hparts
      rw [if_neg hno, if_pos (beq_iff_eq.2 hclose), hparts]
      rfl
    -- Any other character changes no depth, and only here can the text be cut.
    · have hcut : CutAt sep d c ↔ (c == sep && d == 0) = true := by
        rw [Bool.and_eq_true, beq_iff_eq, beq_iff_eq]
        refine ⟨fun h => ⟨h.separator, h.outside⟩, ?_⟩
        rintro ⟨rfl, hd⟩
        exact ⟨rfl, hopen, hclose, hd⟩
      rw [if_neg hclose, Int.add_zero] at hparts
      rw [if_neg (by simpa using hclose), hparts]
      simp only [hcut, List.modifyHead_cons]

/-! ## The parts joined -/

theorem intercalate_nil_cons (hne : parts ≠ []) :
    List.intercalate [sep] ([] :: parts) = sep :: List.intercalate [sep] parts := by
  obtain ⟨part, parts, rfl⟩ := List.exists_cons_of_ne_nil hne
  simp [List.intercalate_cons_cons]

theorem intercalate_modifyHead (hne : parts ≠ []) :
    List.intercalate [sep] (parts.modifyHead (c :: ·)) = c :: List.intercalate [sep] parts := by
  obtain ⟨part, parts, rfl⟩ := List.exists_cons_of_ne_nil hne
  cases parts with
  | nil => simp
  | cons next parts => simp [List.intercalate_cons_cons]

/-- The parts of a text with separators between them are the text. -/
theorem intercalate_splitTopLevelAt (sep : Char) (d : Int) (t : Text) :
    List.intercalate [sep] (splitTopLevelAt sep d t) = t := by
  induction t generalizing d with
  | nil => rfl
  | cons c t ih =>
    have hne := splitTopLevelAt_ne_nil sep (d + depth [c]) t
    rw [splitTopLevelAt_cons]
    split
    · rename_i hcut
      rw [intercalate_nil_cons hne, ih, hcut.separator]
    · rw [intercalate_modifyHead hne, ih]

/-! ## Cuts -/

/-- A row of parts is cut after a text: the text is made of the first of them, but not of all. -/
def CutAfter (sep : Char) (parts : List Text) (pre : Text) : Prop :=
  ∃ left right, left ≠ [] ∧ right ≠ [] ∧ parts = left ++ right ∧
    List.intercalate [sep] left = pre

theorem not_cutAfter_singleton {part : Text} : ¬ CutAfter sep [part] pre := by
  rintro ⟨left, right, hleft, hright, heq, -⟩
  have hlength := congrArg List.length heq
  have hpos := List.length_pos_iff.2 hleft
  have hpos' := List.length_pos_iff.2 hright
  rw [List.length_append, List.length_singleton] at hlength
  omega

/-- An empty part at the front adds a cut at the very beginning. -/
theorem cutAfter_nil_cons (hne : parts ≠ []) :
    CutAfter sep ([] :: parts) pre ↔
      pre = [] ∨ ∃ rest, pre = sep :: rest ∧ CutAfter sep parts rest := by
  constructor
  · rintro ⟨left, right, hleft, hright, heq, rfl⟩
    obtain ⟨part, left, rfl⟩ := List.exists_cons_of_ne_nil hleft
    obtain ⟨rfl, rfl⟩ := List.cons.inj heq
    by_cases hmore : left = []
    · subst hmore
      exact .inl rfl
    · exact .inr ⟨_, intercalate_nil_cons hmore, left, right, hmore, hright, rfl, rfl⟩
  · rintro (rfl | ⟨rest, rfl, left, right, hleft, hright, rfl, rfl⟩)
    · exact ⟨[[]], parts, List.cons_ne_nil _ _, hne, rfl, rfl⟩
    · exact ⟨[] :: left, right, List.cons_ne_nil _ _, hright, rfl, intercalate_nil_cons hleft⟩

/-- A character at the front of the first part moves every cut. -/
theorem cutAfter_modifyHead :
    CutAfter sep (parts.modifyHead (c :: ·)) pre ↔
      ∃ rest, pre = c :: rest ∧ CutAfter sep parts rest := by
  constructor
  · rintro ⟨left, right, hleft, hright, heq, rfl⟩
    obtain ⟨part, left, rfl⟩ := List.exists_cons_of_ne_nil hleft
    cases parts with
    | nil => cases heq
    | cons first parts =>
      obtain ⟨rfl, rfl⟩ := List.cons.inj heq
      exact ⟨_, intercalate_modifyHead (List.cons_ne_nil first left),
        first :: left, right, List.cons_ne_nil _ _, hright, rfl, rfl⟩
  · rintro ⟨rest, rfl, left, right, hleft, hright, rfl, rfl⟩
    refine ⟨left.modifyHead (c :: ·), right, ?_, hright, ?_, intercalate_modifyHead hleft⟩
    · obtain ⟨part, left, rfl⟩ := List.exists_cons_of_ne_nil hleft
      exact List.cons_ne_nil _ _
    · obtain ⟨part, left, rfl⟩ := List.exists_cons_of_ne_nil hleft
      rfl

/-- The parts of a text are cut at its very beginning if its first character is a cut. -/
theorem cutAfter_splitTopLevelAt_nil :
    CutAfter sep (splitTopLevelAt sep d (c :: t)) [] ↔ CutAt sep d c := by
  rw [splitTopLevelAt_cons]
  split
  · rename_i hcut
    exact iff_of_true ((cutAfter_nil_cons (splitTopLevelAt_ne_nil sep _ t)).2 (.inl rfl)) hcut
  · rename_i hcut
    refine iff_of_false (fun h => ?_) hcut
    obtain ⟨rest, heq, -⟩ := cutAfter_modifyHead.1 h
    cases heq

/-- Behind the first character, the cuts of a text are those of its tail. -/
theorem cutAfter_splitTopLevelAt_cons {x : Char} {rest : Text} :
    CutAfter sep (splitTopLevelAt sep d (c :: t)) (x :: rest) ↔
      x = c ∧ CutAfter sep (splitTopLevelAt sep (d + depth [c]) t) rest := by
  rw [splitTopLevelAt_cons]
  split
  · rename_i hcut
    rw [cutAfter_nil_cons (splitTopLevelAt_ne_nil sep _ t), ← hcut.separator]
    simp
  · rw [cutAfter_modifyHead]
    simp

/-- A text is cut where a separator stands outside parentheses. -/
theorem cutAfter_splitTopLevelAt :
    CutAfter sep (splitTopLevelAt sep d t) pre ↔
      ∃ post, t = pre ++ sep :: post ∧ CutAt sep (d + depth pre) sep := by
  induction t generalizing d pre with
  | nil =>
    refine iff_of_false not_cutAfter_singleton ?_
    rintro ⟨post, heq, -⟩
    simp at heq
  | cons c t ih =>
    cases pre with
    | nil =>
      have hnil : depth [] = 0 := rfl
      rw [cutAfter_splitTopLevelAt_nil, hnil, Int.add_zero]
      constructor
      · intro hcut
        obtain rfl := hcut.separator
        exact ⟨t, rfl, hcut⟩
      · rintro ⟨post, heq, hcut⟩
        obtain ⟨rfl, -⟩ := List.cons.inj heq
        exact hcut
    | cons x rest =>
      rw [cutAfter_splitTopLevelAt_cons, ih, depth_cons x rest, ← Int.add_assoc]
      constructor
      · rintro ⟨rfl, post, rfl, hcut⟩
        exact ⟨post, rfl, hcut⟩
      · rintro ⟨post, heq, hcut⟩
        obtain ⟨rfl, rfl⟩ := List.cons.inj heq
        exact ⟨rfl, post, rfl, hcut⟩

/-- The place of a cut is the byte offset of its separator. -/
def IsCutPoint (sep : Char) (parts : List Text) (k : Nat) : Prop :=
  ∃ pre, CutAfter sep parts pre ∧ bytes pre = k

/-- **The parts of a text and where it is cut.** Joined with the separator they are the text, and
the cut points are the offsets at which the separator stands, is no parenthesis itself, and has as
many opening as closing parentheses before it. -/
theorem splitTopLevel_joined_cuts (sep : Char) (t : Text) :
    List.intercalate [sep] (splitTopLevel sep t) = t ∧ splitTopLevel sep t ≠ [] ∧
    ∀ k, IsCutPoint sep (splitTopLevel sep t) k ↔
      ∃ pre post, t = pre ++ sep :: post ∧ bytes pre = k ∧
        sep ≠ '(' ∧ sep ≠ ')' ∧ depth pre = 0 := by
  refine ⟨intercalate_splitTopLevelAt sep 0 t, splitTopLevelAt_ne_nil sep 0 t, fun k => ?_⟩
  constructor
  · rintro ⟨pre, hafter, hk⟩
    obtain ⟨post, ht, hcut⟩ := cutAfter_splitTopLevelAt.1 hafter
    rw [Int.zero_add] at hcut
    exact ⟨pre, post, ht, hk, hcut.not_open, hcut.not_close, hcut.outside⟩
  · rintro ⟨pre, post, ht, hk, hopen, hclose, hdepth⟩
    have hcut : CutAt sep (0 + depth pre) sep := ⟨rfl, hopen, hclose, by rw [hdepth]; rfl⟩
    exact ⟨pre, cutAfter_splitTopLevelAt.2 ⟨post, ht, hcut⟩, hk⟩

/-- A parenthesis that nothing opens hides the separators behind it. -/
example : splitTopLevel ',' ",é,(a,b)),c".toList =
    [[], "é".toList, "(a,b)),c".toList] := by decide

end DesignFacts.Text

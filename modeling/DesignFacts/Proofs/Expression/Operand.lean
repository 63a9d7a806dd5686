import DesignFacts.Proofs.Expression.Search

/-!
# Operands of relations

`IsOperand` lists the texts that stand beside a relational operator, with whether they are literals.
The search for the operator passes over the literals (`IsOperand.passes`), and with single spaces in
them they are still told from names (`IsOperand.isLiteralText_eq`).
-/

namespace DesignFacts

open Text

variable {t l : Text} {b : Bool}

/-! ## Operands -/

open Literal in
/-- The texts that stand beside a relational operator, and whether they are literals. A number may
have a base, an exponent or a unit. -/
inductive IsOperand : Bool → Text → Prop
  | name {t : Text} (h : IsIdentifier t) : IsOperand false t
  | number {c : Char} {t : Text} (hdigit : c.isDigit = true)
      (hplain : ∀ d ∈ c :: t, isSign d = false) : IsOperand true (c :: t)
  | character (c : Char) : IsOperand true ['\'', c, '\'']
  | string {body : Text} (h : IsStringBody body) : IsOperand true ('"' :: (body ++ ['"']))
  | bitString {size spec digits : Text} (hsize : ∀ c ∈ size, c.isDigit = true)
      (hspec : (BitBase.ofSpec? (lower spec)).isSome = true)
      (hdigits : ∀ c ∈ digits, c ≠ '"' ∧ isBlank c = false) :
      IsOperand true (size ++ (spec ++ '"' :: (digits ++ ['"'])))

theorem isIdent_of_isDigit {c : Char} (h : c.isDigit = true) : isIdent c = true := by
  simp [isIdent, Char.isAlphanum, h]

theorem isIdent_of_isAlpha {c : Char} (h : c.isAlpha = true) : isIdent c = true := by
  simp [isIdent, Char.isAlphanum, h]

/-- The letters that name the bases of bit strings. -/
def baseSpecs : List String := ["x", "ux", "sx", "b", "ub", "sb", "o", "uo", "so", "d"]

theorem exists_of_isSome_ofSpec? {spec : Text}
    (h : (Literal.BitBase.ofSpec? spec).isSome = true) : ∃ s ∈ baseSpecs, s.toList = spec := by
  have hany {names : List String} (hspec : names.any (·.toList == spec) = true)
      (hsubset : names ⊆ baseSpecs) : ∃ s ∈ baseSpecs, s.toList = spec := by
    obtain ⟨s, hs, heq⟩ := List.any_eq_true.1 hspec
    exact ⟨s, hsubset hs, beq_iff_eq.1 heq⟩
  unfold Literal.BitBase.ofSpec? at h
  split at h
  · exact hany ‹_› (by decide)
  · split at h
    · exact hany ‹_› (by decide)
    · split at h
      · exact hany ‹_› (by decide)
      · split at h
        · exact ⟨"d", by decide, (beq_iff_eq.1 ‹_›).symm⟩
        · cases h

theorem isAlpha_of_isSome_ofSpec? {spec : Text}
    (h : (Literal.BitBase.ofSpec? (lower spec)).isSome = true) :
    spec ≠ [] ∧ ∀ c ∈ spec, c.isAlpha = true := by
  have hall : (baseSpecs.all fun s => !s.toList.isEmpty && s.toList.all Char.isAlpha) = true := by
    decide
  obtain ⟨s, hs, heq⟩ := exists_of_isSome_ofSpec? h
  have hs := List.all_eq_true.1 hall s hs
  rw [heq] at hs
  simpa [lower] using hs

theorem isStringBody_of_ne {body : Text} (h : ∀ c ∈ body, c ≠ '"') : IsStringBody body := by
  induction body with
  | nil => exact .nil
  | cons c body ih => exact .cons (h c (by simp)) (ih fun x hx => h x (by simp [hx]))

namespace IsOperand

/-- The search passes over every literal but a character beyond ASCII. -/
theorem passes (h : IsOperand true l) (hascii : ∀ c, l = ['\'', c, '\''] → c.toNat < 0x80) :
    Passes l := by
  cases h with
  | number _ hplain => exact passes_of_not_isSign hplain
  | character c => exact passes_character (hascii c rfl)
  | string hbody => exact passes_string hbody
  | bitString hsize hspec hdigits =>
    obtain ⟨-, halpha⟩ := isAlpha_of_isSome_ofSpec? hspec
    refine .append (passes_of_not_isSign fun c hc => ?_)
      (.append (passes_of_not_isSign fun c hc => ?_) (passes_string ?_))
    · exact isSign_of_isIdent (isIdent_of_isDigit (hsize c hc))
    · exact isSign_of_isIdent (isIdent_of_isAlpha (halpha c hc))
    · exact isStringBody_of_ne fun c hc => (hdigits c hc).1

/-- An operand begins with a character that is neither a blank nor the second one of an operator. -/
theorem exists_head (h : IsOperand b t) :
    ∃ c u, t = c :: u ∧ isBlank c = false ∧ c ≠ '=' ∧ c ≠ '>' := by
  have hident {c : Char} (hc : isIdent c = true) : isBlank c = false ∧ c ≠ '=' ∧ c ≠ '>' := by
    refine ⟨isBlank_of_isIdent hc, ?_, ?_⟩ <;>
    · rintro rfl
      exact absurd hc (by decide)
  cases h with
  | name hname =>
    obtain ⟨c, u, rfl, hblank, -, hc⟩ := hname.exists_head
    refine ⟨c, u, rfl, hblank, ?_, ?_⟩ <;>
    · rintro rfl
      exact absurd hc (by decide)
  | number hdigit _ => exact ⟨_, _, rfl, hident (isIdent_of_isDigit hdigit)⟩
  | character c => exact ⟨_, _, rfl, by decide, by decide, by decide⟩
  | string _ => exact ⟨_, _, rfl, by decide, by decide, by decide⟩
  | @bitString size spec digits hsize hspec hdigits =>
    obtain ⟨hne, halpha⟩ := isAlpha_of_isSome_ofSpec? hspec
    cases size with
    | cons c size => exact ⟨c, _, rfl, hident (isIdent_of_isDigit (hsize c (by simp)))⟩
    | nil =>
      obtain ⟨c, spec, rfl⟩ := List.exists_cons_of_ne_nil hne
      exact ⟨c, _, rfl, hident (isIdent_of_isAlpha (halpha c (by simp)))⟩

end IsOperand

/-! ## Literals -/

namespace Literal

/-- A text that begins with a digit or a quote of a string is a literal. -/
theorem isLiteralText_squash_cons {c : Char} (hblank : isBlank c = false)
    (hc : c.isDigit = true ∨ c = '"') (t : Text) : isLiteralText (squash (c :: t)) = true := by
  obtain ⟨u, hsquash⟩ := exists_squash_cons hblank t
  rw [isLiteralText, trim_squash, hsquash]
  rcases hc with hc | rfl
  · simp [hc]
  · simp

theorem isLiteralText_character (c : Char) : isLiteralText (squash ['\'', c, '\'']) = true := by
  have hquote : IsToken ['\''] := by decide
  by_cases hc : isBlank c = true
  · have hwords : words ['\'', c, '\''] = [['\''], ['\'']] := by
      have hsplit := words_append_cons hc ['\''] ['\'']
      rw [hquote.words_eq] at hsplit
      exact hsplit
    rw [squash, hwords]
    decide
  · have htoken : IsToken ['\'', c, '\''] := by
      refine ⟨by simp, fun d hd => ?_⟩
      simp only [List.mem_cons, List.not_mem_nil, or_false] at hd
      rcases hd with rfl | rfl | rfl
      · decide
      · exact Bool.eq_false_iff.2 hc
      · decide
    have hsize : 3 ≤ bytes ['\'', c, '\''] := by
      have hpos := c.utf8Size_pos
      have hone : '\''.utf8Size = 1 := by decide
      simp only [bytes_cons, bytes_nil, hone]
      omega
    rw [htoken.squash_eq, isLiteralText, trim_eq_self htoken.not_blank]
    dsimp only
    rw [decide_eq_true hsize]
    rfl

/-- Without a quote there is no bit string. -/
theorem bitString?_eq_none (h : '"' ∉ t) : bitString? t = none := by
  rw [bitString?, cut_eq_none_of_notMem h]

/-- What begins with a backslash is no bit string. -/
theorem bitString?_backslash (t : Text) : bitString? ('\\' :: t) = none := by
  have hcut : cut ['"'] ('\\' :: t) = (cut ['"'] t).map (Prod.map ('\\' :: ·) id) :=
    cut_append_of_notMem (s := ['\\']) (by decide) [] t
  rw [bitString?, hcut]
  cases cut ['"'] t with
  | none => rfl
  | some sides =>
    obtain ⟨spec, rest⟩ := sides
    have hspec : BitBase.ofSpec? (lower ('\\' :: spec)) = none := by
      rw [← Option.not_isSome_iff_eq_none]
      intro hsome
      exact absurd ((isAlpha_of_isSome_ofSpec? hsome).2 '\\' List.mem_cons_self) (by decide)
    dsimp only [Option.map_some, Prod.map, id]
    split
    · rw [List.dropWhile_cons_of_neg (by decide), hspec]
      rfl
    · rfl

theorem isSome_bitString? {size spec : Text} (hsize : ∀ c ∈ size, c.isDigit = true)
    (hspec : (BitBase.ofSpec? (lower spec)).isSome = true) (digits : Text) :
    (bitString? (size ++ (spec ++ '"' :: (digits ++ ['"'])))).isSome = true := by
  obtain ⟨hne, halpha⟩ := isAlpha_of_isSome_ofSpec? hspec
  have hquote : '"' ∉ size ++ spec := by
    intro hmem
    have hident : isIdent '"' = true := by
      rcases List.mem_append.1 hmem with hmem | hmem
      · exact isIdent_of_isDigit (hsize _ hmem)
      · exact isIdent_of_isAlpha (halpha _ hmem)
    exact absurd hident (by decide)
  -- The first quote of the text is the one behind the base: neither the size nor the base holds
  -- one.
  have hcut : cut ['"'] (size ++ (spec ++ '"' :: (digits ++ ['"']))) =
      some (size ++ spec, digits ++ ['"']) := by
    rw [← List.append_assoc, cut_append_of_notMem hquote, cut]
    simp
  -- A base begins with a letter, so dropping digits stops right at it.
  have hletters : (size ++ spec).dropWhile Char.isDigit = spec := by
    obtain ⟨c, spec, rfl⟩ := List.exists_cons_of_ne_nil hne
    have hc : c.isDigit = false := by
      rw [Bool.eq_false_iff]
      intro hdigit
      have hc := halpha c List.mem_cons_self
      rw [isDigit_iff] at hdigit
      rw [isAlpha_iff] at hc
      omega
    rw [List.dropWhile_append_of_pos hsize, List.dropWhile_cons_of_neg (by simp [hc])]
  rw [bitString?, hcut]
  dsimp only
  rw [List.reverse_append, List.reverse_singleton, List.singleton_append, hletters]
  exact Option.isSome_map.trans hspec

end Literal

/-- Squashed, the literals among the operands still look like literals, and names do not. -/
theorem IsOperand.isLiteralText_eq (h : IsOperand b t) :
    Literal.isLiteralText (squash t) = b := by
  cases h with
  | name hname =>
    cases hname with
    | basic hne hchars hdigit =>
      have htoken : IsToken t := ⟨hne, fun c hc => isBlank_of_isNameChar (hchars c hc)⟩
      have hquote : '"' ∉ t := fun hmem => absurd (hchars _ hmem) (by decide)
      rw [htoken.squash_eq, Literal.isLiteralText, trim_eq_self htoken.not_blank]
      obtain ⟨c, u, rfl⟩ := List.exists_cons_of_ne_nil hne
      have hc : c ≠ '"' ∧ c ≠ '\'' := by
        constructor <;>
        · rintro rfl
          exact absurd (hchars _ List.mem_cons_self) (by decide)
      dsimp only
      rw [Literal.bitString?_eq_none hquote]
      simp [hdigit c rfl, hc]
    | extended body =>
      obtain ⟨u, hsquash⟩ := exists_squash_cons (c := '\\') (by decide) (body ++ ['\\'])
      rw [Literal.isLiteralText, trim_squash, hsquash]
      dsimp only
      rw [Literal.bitString?_backslash]
      rfl
  | number hdigit _ =>
    exact Literal.isLiteralText_squash_cons (isBlank_of_isIdent (isIdent_of_isDigit hdigit))
      (.inl hdigit) _
  | character c => exact Literal.isLiteralText_character c
  | string _ => exact Literal.isLiteralText_squash_cons (by decide) (.inr rfl) _
  | @bitString size spec digits hsize hspec hdigits =>
    have hsome := Literal.isSome_bitString? hsize hspec digits
    have htoken : IsToken (size ++ (spec ++ '"' :: (digits ++ ['"']))) := by
      obtain ⟨-, halpha⟩ := isAlpha_of_isSome_ofSpec? hspec
      refine ⟨by simp, fun c hc => ?_⟩
      simp only [List.mem_append, List.mem_cons, List.not_mem_nil, or_false] at hc
      rcases hc with hc | hc | rfl | hc | rfl
      · exact isBlank_of_isIdent (isIdent_of_isDigit (hsize c hc))
      · exact isBlank_of_isIdent (isIdent_of_isAlpha (halpha c hc))
      · decide
      · exact (hdigits c hc).2
      · decide
    rw [htoken.squash_eq, Literal.isLiteralText, trim_eq_self htoken.not_blank]
    -- From here on only the first character of the literal matters.
    generalize size ++ (spec ++ '"' :: (digits ++ ['"'])) = v at hsome htoken
    obtain ⟨c, u, rfl⟩ := List.exists_cons_of_ne_nil htoken.ne_nil
    simp [hsome]

end DesignFacts

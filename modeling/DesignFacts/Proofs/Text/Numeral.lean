import DesignFacts.Text.Numeral
import Mathlib.Data.Nat.Digits.Lemmas

/-!
# Numerals and their values

A numeral of a base is written in digits of the base, with underscores among them (`IsNumeral`). Its
value is the positional value of its digits (`valueOf`), wherever the underscores stand. Reading a
numeral without its underscores gives this value, and a text with any other character in it is not
read at all.

Main results: `digits?_of_isNumeral` and `digits?_eq_none_of_mem`.
-/

namespace DesignFacts.Numeral

variable {base : Nat} {t : Text}

/-! ## Signed 64-bit numbers -/

/-- A signed 64-bit number. -/
def IsWord (n : Int) : Prop := -2 ^ 63 ≤ n ∧ n < 2 ^ 63

instance (n : Int) : Decidable (IsWord n) := inferInstanceAs (Decidable (_ ∧ _))

theorem fits_iff_isWord {n : Int} : fits n = true ↔ IsWord n := by
  simp [fits, IsWord]

theorem checked_eq (n : Int) : checked n = if IsWord n then some n else none := by
  by_cases h : IsWord n
  · rw [checked, if_pos (fits_iff_isWord.2 h), if_pos h]
  · rw [checked, if_neg (mt fits_iff_isWord.1 h), if_neg h]

/-! ## Numerals -/

/-- A numeral of a base: digits of the base with underscores among them. -/
structure IsNumeral (base : Nat) (t : Text) : Prop where
  digit : ∀ c ∈ t, c = '_' ∨ ∃ d ∈ digitValue c, d < base
  nonempty : ∃ c ∈ t, c ≠ '_'

instance (base : Nat) (t : Text) : Decidable (IsNumeral base t) :=
  @decidable_of_iff _ _ ⟨fun h => ⟨h.1, h.2⟩, fun h => ⟨h.digit, h.nonempty⟩⟩
    (@instDecidableAnd _ _ (List.decidableBAll _ t) (List.decidableBEx _ t))

theorem IsNumeral.ne_nil (h : IsNumeral base t) : t ≠ [] := by
  obtain ⟨c, hc, -⟩ := h.nonempty
  exact List.ne_nil_of_mem hc

theorem IsNumeral.notMem (h : IsNumeral base t) {c : Char} (hc : c ≠ '_')
    (hdigit : digitValue c = none) : c ∉ t := by
  intro hmem
  rcases h.digit c hmem with heq | ⟨d, hd, -⟩
  · exact hc heq
  · rw [hdigit] at hd
    cases hd

/-- The number that the digits of a text stand for, the first one counting most. -/
def valueOf (base : Nat) (t : Text) : Nat := Nat.ofDigits base (t.filterMap digitValue).reverse

theorem digit?_eq_some_iff {c : Char} {d : Nat} :
    digit? base c = some d ↔ digitValue c = some d ∧ d < base := by
  simp [digit?, Option.filter_eq_some_iff]

/-- Letters are no decimal digits. -/
theorem digit?_ten_eq_none {c : Char} (h : c.isDigit = false) : digit? 10 c = none := by
  rw [digit?, digitValue, h, if_neg (by simp)]
  split
  · simp
  · rfl

theorem isDigit_of_digitValue {c : Char} {d : Nat} (hd : digitValue c = some d) (hlt : d < 10) :
    c.isDigit = true := by
  by_contra hdigit
  have hnone := digit?_ten_eq_none (Bool.eq_false_iff.2 hdigit)
  rw [digit?_eq_some_iff.2 ⟨hd, hlt⟩] at hnone
  cases hnone

theorem digitValue_underscore : digitValue '_' = none := by decide

theorem length_filterMap_digitValue (h : ∀ c ∈ t, ∃ d ∈ digitValue c, d < base) :
    (t.filterMap digitValue).length = t.length := by
  refine List.filterMap_length_eq_length.2 fun c hc => ?_
  obtain ⟨d, hd, -⟩ := h c hc
  exact Option.isSome_iff_exists.2 ⟨d, hd⟩

/-- Underscores have no value. -/
theorem valueOf_filter (base : Nat) (t : Text) :
    valueOf base (t.filter (· != '_')) = valueOf base t := by
  unfold valueOf
  congr 2
  rw [List.filterMap_filter]
  refine List.filterMap_congr fun c _ => ?_
  by_cases hc : c = '_'
  · simp [hc, digitValue_underscore]
  · simp [hc]

/-- Digits behind a number continue it. -/
theorem digitsFrom?_of_digits (acc : Nat) (h : ∀ c ∈ t, ∃ d ∈ digitValue c, d < base) :
    digitsFrom? base acc t = some (acc * base ^ t.length + valueOf base t) := by
  induction t generalizing acc with
  | nil => simp [digitsFrom?, valueOf]
  | cons c t ih =>
    obtain ⟨d, hd, hlt⟩ := h c (by simp)
    have hrest : ∀ c ∈ t, ∃ d ∈ digitValue c, d < base := fun c hc => h c (by simp [hc])
    rw [digitsFrom?, digit?_eq_some_iff.2 ⟨hd, hlt⟩, Option.bind_some, ih _ hrest]
    have hvalue : valueOf base (c :: t) = valueOf base t + base ^ t.length * d := by
      rw [valueOf, List.filterMap_cons_some hd, List.reverse_cons, Nat.ofDigits_append,
        List.length_reverse, length_filterMap_digitValue hrest, Nat.ofDigits_singleton]
      rfl
    rw [hvalue, List.length_cons, Nat.pow_succ]
    congr 1
    ring

/-- Reading a numeral gives its value. -/
theorem digits?_of_isNumeral (h : IsNumeral base t) :
    digits? base (t.filter (· != '_')) = some (valueOf base t) := by
  obtain ⟨x, hx, hne⟩ := h.nonempty
  have hnonempty : (t.filter (· != '_')).isEmpty = false :=
    List.isEmpty_eq_false_iff_exists_mem.2 ⟨x, by simp [hx, hne]⟩
  have hdigits : ∀ c ∈ t.filter (· != '_'), ∃ d ∈ digitValue c, d < base := by
    intro c hc
    obtain ⟨hmem, hc⟩ := List.mem_filter.1 hc
    exact (h.digit c hmem).resolve_left (by simpa using hc)
  rw [digits?, hnonempty, if_neg (by simp), digitsFrom?_of_digits 0 hdigits, valueOf_filter]
  simp

theorem digits?_eq_none_of_mem {c : Char} (hc : c ∈ t) (hdigit : digit? base c = none) :
    digits? base t = none := by
  have hfrom : ∀ acc, digitsFrom? base acc t = none := by
    induction t with
    | nil => simp at hc
    | cons x t ih =>
      intro acc
      rw [digitsFrom?]
      rcases List.mem_cons.1 hc with rfl | hc
      · rw [hdigit, Option.bind_none]
      · cases digit? base x with
        | none => rfl
        | some d => exact ih hc _
  rw [digits?, hfrom, ite_self]

/-! ## Signs -/

/-- Without a sign in front, the whole text is read as digits. -/
theorem signed?_of_unsigned (h : ∀ c ∈ t.head?, c ≠ '-' ∧ c ≠ '+') :
    signed? t = (digits? 10 t).bind fun n => checked n := by
  unfold signed?
  split
  · exact absurd rfl (h _ rfl).1
  · exact absurd rfl (h _ rfl).2
  · rfl

/-- Behind its first character, a number has digits only. -/
theorem signed?_cons_eq_none {c x : Char} (hx : x ∈ t) (hdigit : digit? 10 x = none) :
    signed? (c :: t) = none := by
  have hrest : digits? 10 t = none := digits?_eq_none_of_mem hx hdigit
  have hall : digits? 10 (c :: t) = none := digits?_eq_none_of_mem (by simp [hx]) hdigit
  unfold signed?
  split
  · rename_i heq
    rw [← (List.cons.inj heq).2, hrest, Option.bind_none]
  · rename_i heq
    rw [← (List.cons.inj heq).2, hrest, Option.bind_none]
  · rw [hall, Option.bind_none]

/-- Without its underscores, a numeral is read as its value. -/
theorem unsigned?_filter_of_isNumeral {bound : Nat} (h : IsNumeral base t)
    (hlt : valueOf base t < bound) :
    unsigned? base bound (t.filter (· != '_')) = some (valueOf base t) := by
  have hplus : '+' ∉ t.filter (· != '_') := fun hmem =>
    h.notMem (by decide) (by decide) (List.mem_filter.1 hmem).1
  unfold unsigned?
  split
  · rename_i heq
    exact absurd (heq ▸ List.mem_cons_self) hplus
  · dsimp only
    rw [digits?_of_isNumeral h, Option.filter_some, if_pos (decide_eq_true hlt)]

theorem unsigned?_of_isNumeral {bound : Nat} (h : IsNumeral 10 t) (hplain : '_' ∉ t)
    (hlt : valueOf 10 t < bound) : unsigned? 10 bound t = some (valueOf 10 t) := by
  have hfilter : t.filter (· != '_') = t :=
    List.filter_eq_self.2 fun c hc => bne_iff_ne.2 fun heq => hplain (heq ▸ hc)
  have hread := unsigned?_filter_of_isNumeral h hlt
  rwa [hfilter] at hread

theorem unsigned?_cons_eq_none {bound : Nat} {c x : Char} (hx : x ∈ t)
    (hdigit : digit? 10 x = none) : unsigned? 10 bound (c :: t) = none := by
  have hrest : digits? 10 t = none := digits?_eq_none_of_mem hx hdigit
  have hall : digits? 10 (c :: t) = none := digits?_eq_none_of_mem (by simp [hx]) hdigit
  unfold unsigned?
  split
  · rename_i heq
    dsimp only
    rw [← (List.cons.inj heq).2, hrest, Option.filter_none]
  · dsimp only
    rw [hall, Option.filter_none]

end DesignFacts.Numeral

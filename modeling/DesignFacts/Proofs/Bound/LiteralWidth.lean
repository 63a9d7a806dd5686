import DesignFacts.Expression.Literal
import DesignFacts.Proofs.Bound.BasedLiteral
import Mathlib.Order.Bounds.Defs

/-!
# Values and widths of number literals

A number is written in decimal digits, or in the digits of a base between two `#`, with underscores
among the digits. Two readers look at such a literal: a bound is evaluated to its value
(`Bound.evaluate`), and a comparison is given its width (`Literal.bits`). They cut the text in
different ways, and one counts in signed words where the other counts in unsigned ones.

**Digits** (`WrittenNumeral`). What a text of digits stands for is said by the place of every digit
in `digitAlphabet`, without either reader.

**Widths** (`isLeast_bitsFor`). The width of a number is the least one in which it can be counted.

Main result: on every literal of a signed 64-bit number, one reader finds the value and the other
one the least width of this value (`NumberLiteral.value_and_width`).
-/

namespace DesignFacts

open Text

namespace Numeral

/-! ## Written digits -/

/-- The digits in the order of their values. -/
def digitAlphabet : Text :=
  ['0', '1', '2', '3', '4', '5', '6', '7', '8', '9', 'a', 'b', 'c', 'd', 'e', 'f']

/-- A character is the digit of a value in a base, letters in either case. -/
def IsDigit (base : Nat) (c : Char) (d : Nat) : Prop :=
  digitAlphabet[d]? = some c.toLower ∧ d < base

instance (base : Nat) (c : Char) (d : Nat) : Decidable (IsDigit base c d) :=
  inferInstanceAs (Decidable (_ ∧ _))

/-- A text of digits of a base, with underscores anywhere among them. -/
structure WrittenNumeral (base : Nat) where
  text : Text
  /-- The values of the digits from left to right. -/
  digits : List Nat
  spelled : List.Forall₂ (IsDigit base) (text.filter (· != '_')) digits
  nonempty : digits ≠ []

/-- The number that a text of digits stands for. -/
def WrittenNumeral.value {base : Nat} (w : WrittenNumeral base) : Nat :=
  Nat.ofDigits base w.digits.reverse

variable {base : Nat}

theorem digitValue_of_isDigit {c : Char} {d : Nat} (h : IsDigit base c d) :
    digitValue c = some d := by
  have hplaces : ∀ d < digitAlphabet.length, digitAlphabet[d]?.bind digitValue = some d := by decide
  have hd := hplaces d (List.getElem?_eq_some_iff.1 h.1).1
  rwa [h.1, Option.bind_some, digitValue_toLower] at hd

/-- The readers find in a text the digits that are written there, and no others. -/
theorem digits_of_spelled {t : Text} {ds : List Nat} (h : List.Forall₂ (IsDigit base) t ds) :
    t.filterMap digitValue = ds ∧ ∀ c ∈ t, ∃ d ∈ digitValue c, d < base := by
  induction h with
  | nil => exact ⟨rfl, by simp⟩
  | @cons c d t ds hdigit _ ih =>
    have hvalue := digitValue_of_isDigit hdigit
    refine ⟨by rw [List.filterMap_cons_some hvalue, ih.1], fun x hx => ?_⟩
    rcases List.mem_cons.1 hx with rfl | hx
    · exact ⟨d, hvalue, hdigit.2⟩
    · exact ih.2 x hx

namespace WrittenNumeral

variable (w : WrittenNumeral base)

theorem isNumeral : IsNumeral base w.text where
  digit := by
    intro c hc
    by_cases heq : c = '_'
    · exact .inl heq
    · exact .inr ((digits_of_spelled w.spelled).2 c (List.mem_filter.2 ⟨hc, bne_iff_ne.2 heq⟩))
  nonempty := by
    have hne : w.text.filter (· != '_') ≠ [] := by
      intro hnil
      have hspelled := w.spelled
      rw [hnil, List.forall₂_nil_left_iff] at hspelled
      exact w.nonempty hspelled
    obtain ⟨c, hc⟩ := List.exists_mem_of_ne_nil _ hne
    exact ⟨c, (List.mem_filter.1 hc).1, bne_iff_ne.1 (List.mem_filter.1 hc).2⟩

theorem valueOf_text : valueOf base w.text = w.value := by
  rw [← valueOf_filter, valueOf, (digits_of_spelled w.spelled).1, value]

end WrittenNumeral

/-! ## Widths -/

/-- So many bits hold a number, and fewer do not. -/
theorem isLeast_bitsFor (n : Nat) : IsLeast {w | 1 ≤ w ∧ n < 2 ^ w} (bitsFor n) := by
  rw [bitsFor]
  by_cases hn : n = 0
  · rw [if_pos hn]
    exact ⟨⟨le_refl 1, by omega⟩, fun w hw => hw.1⟩
  · rw [if_neg hn]
    exact ⟨⟨by omega, Nat.lt_log2_self⟩, fun w hw => (Nat.log2_lt hn).2 hw.2⟩

end Numeral

open Numeral

/-! ## Literals -/

/-- A number as it is written: in decimal digits, or in a base from 2 to 16. -/
inductive NumberLiteral where
  | decimal (digits : WrittenNumeral 10)
  | based (base : WrittenNumeral 10) (joined : '_' ∉ base.text)
      (range : 2 ≤ base.value ∧ base.value ≤ 16) (digits : WrittenNumeral base.value)

namespace NumberLiteral

def text : NumberLiteral → Text
  | decimal digits => digits.text
  | based base _ _ digits => base.text ++ '#' :: (digits.text ++ ['#'])

def value : NumberLiteral → Nat
  | decimal digits => digits.value
  | based _ _ _ digits => digits.value

end NumberLiteral

/-- The based literal of a written base and written digits. -/
def Bound.BasedLiteral.ofWritten (base : WrittenNumeral 10) (joined : '_' ∉ base.text)
    (range : 2 ≤ base.value ∧ base.value ≤ 16) (digits : WrittenNumeral base.value) :
    BasedLiteral where
  base := base.text
  digits := digits.text
  decimal := base.isNumeral
  joined := joined
  range := by rwa [base.valueOf_text]
  numeral := by
    rw [base.valueOf_text]
    exact digits.isNumeral

theorem Bound.BasedLiteral.value_ofWritten (base : WrittenNumeral 10) (joined : '_' ∉ base.text)
    (range : 2 ≤ base.value ∧ base.value ≤ 16) (digits : WrittenNumeral base.value) :
    (ofWritten base joined range digits).value = digits.value := by
  show valueOf (valueOf 10 base.text) digits.text = digits.value
  rw [base.valueOf_text, digits.valueOf_text]

/-! ### The value -/

theorem Bound.evaluate_numeral {t : Text} (h : IsNumeral 10 t) (hvalue : IsWord (valueOf 10 t))
    (m : Constants) : evaluate m t = .ok (some (valueOf 10 t)) := by
  have hplain := isPlain_of_isNumeral h
  rw [evaluate_of_core_eq (core_of_plain hplain) (scanned_of_plain hplain h.ne_nil _),
    integer?_literal h, checked_eq, if_pos hvalue, Option.some_or]

theorem NumberLiteral.evaluate_text (l : NumberLiteral) (hvalue : l.value < 2 ^ 63)
    (m : Constants) : Bound.evaluate m l.text = .ok (some l.value) := by
  have hword : IsWord l.value := by
    unfold IsWord
    omega
  cases l with
  | decimal digits =>
    have hvalue := digits.valueOf_text
    have heval := Bound.evaluate_numeral digits.isNumeral (by rwa [hvalue]) m
    rwa [hvalue] at heval
  | based base joined range digits =>
    have hvalue := Bound.BasedLiteral.value_ofWritten base joined range digits
    have heval := (Bound.BasedLiteral.ofWritten base joined range digits).evaluate_text_append
      (m := m) (by rwa [hvalue]) isBlanks_nil []
    rw [List.append_nil, hvalue] at heval
    exact heval

/-! ### The width -/

namespace Literal

/-- A text without blanks and quotes is read as a number. -/
theorem bits_of_plain {t : Text} (hblank : ∀ c ∈ t, isBlank c = false) (hquote : '"' ∉ t)
    (htick : '\'' ∉ t) :
    bits t = match based? t with
      | some (base, digits) =>
        widthOf (base.bind fun b =>
          if 2 ≤ b ∧ b ≤ 36 then Numeral.unsigned? b Numeral.word64 digits else none)
      | none => widthOf (Numeral.unsigned? 10 Numeral.word64 (plainDigits t)) := by
  have hstring : bitString? t = none := by
    rw [bitString?, cut_eq_none_of_notMem hquote]
  have henclosed {c : Char} (hc : c ∉ t) (least : Nat) : isEnclosed c least t = false := by
    have hhead : (t.head? == some c) = false :=
      beq_false_of_ne fun heq => hc (List.mem_of_mem_head? heq)
    rw [isEnclosed, hhead, Bool.false_and, Bool.false_and]
  rw [bits, trim_eq_self hblank, hstring]
  dsimp only
  rw [henclosed hquote, henclosed htick]
  rfl

/-- A numeral that fits an unsigned word has the width of its value. -/
theorem widthOf_numeral {base : Nat} {t : Text} (h : IsNumeral base t)
    (hlt : valueOf base t < 2 ^ 64) :
    widthOf (Numeral.unsigned? base Numeral.word64 (plainDigits t)) = bitsFor (valueOf base t) := by
  have hread : Numeral.unsigned? base Numeral.word64 (plainDigits t) = some (valueOf base t) :=
    unsigned?_filter_of_isNumeral h hlt
  rw [hread]
  rfl

theorem bits_numeral {t : Text} (h : IsNumeral 10 t) (hlt : valueOf 10 t < 2 ^ 64) :
    bits t = bitsFor (valueOf 10 t) := by
  have hhash : based? t = none := by
    rw [based?, cut_eq_none_of_notMem (h.notMem (by decide) (by decide)), Option.map_none]
  rw [bits_of_plain (fun c hc => (Bound.isPlain_of_isNumeral h c hc).1)
    (h.notMem (by decide) (by decide)) (h.notMem (by decide) (by decide)), hhash]
  exact widthOf_numeral h hlt

end Literal

namespace Bound.BasedLiteral

variable (l : BasedLiteral)

/-- Only the last `#` is dropped from the digits. -/
theorem based?_text : Literal.based? l.text =
    some (some (valueOf 10 l.base), Literal.plainDigits l.digits) := by
  have hbase : '#' ∉ l.base := not_hash_mem_of_isNumeral l.decimal
  have hdigits : ∀ c ∈ l.digits.getLast?, (c == '#') = false := by
    intro c hc
    refine beq_false_of_ne ?_
    rintro rfl
    exact not_hash_mem_of_isNumeral l.numeral (List.mem_of_mem_getLast? hc)
  have htrim : trim l.base = l.base :=
    trim_eq_self fun c hc => (isPlain_of_isNumeral l.decimal c hc).1
  have hread : unsigned? 10 word32 l.base = some (valueOf 10 l.base) :=
    unsigned?_of_isNumeral l.decimal l.joined (lt_of_le_of_lt l.range.2 (by decide))
  have hcut : cut ['#'] l.text = some (l.base, l.digits ++ ['#']) := by
    rw [text, cut_append_of_notMem hbase]
    simp [cut]
  rw [Literal.based?, hcut, Option.map_some]
  dsimp only
  rw [htrim, hread, dropEnd_append_of_pos (by simp), dropEnd_eq_self hdigits]

theorem notMem_text {c : Char} (hhash : c ≠ '#') (hunderscore : c ≠ '_')
    (hdigit : digitValue c = none) : c ∉ l.text := by
  simp only [text, List.mem_append, List.mem_cons, List.not_mem_nil, or_false, not_or]
  exact ⟨l.decimal.notMem hunderscore hdigit, hhash, l.numeral.notMem hunderscore hdigit, hhash⟩

theorem bits_text (hlt : l.value < 2 ^ 64) : Literal.bits l.text = bitsFor l.value := by
  have hrange : 2 ≤ valueOf 10 l.base ∧ valueOf 10 l.base ≤ 36 := by
    have := l.range
    omega
  rw [Literal.bits_of_plain (fun c hc => (l.isPlain_of_mem_text c hc).1)
    (l.notMem_text (by decide) (by decide) (by decide))
    (l.notMem_text (by decide) (by decide) (by decide)), based?_text]
  dsimp only
  rw [Option.bind_some, if_pos hrange]
  exact Literal.widthOf_numeral l.numeral hlt

end Bound.BasedLiteral

theorem NumberLiteral.bits_text (l : NumberLiteral) (hvalue : l.value < 2 ^ 64) :
    Literal.bits l.text = bitsFor l.value := by
  cases l with
  | decimal digits =>
    have hnumber := digits.valueOf_text
    have hbits := Literal.bits_numeral digits.isNumeral (by rwa [hnumber])
    rwa [hnumber] at hbits
  | based base joined range digits =>
    have hnumber := Bound.BasedLiteral.value_ofWritten base joined range digits
    have hbits :=
      (Bound.BasedLiteral.ofWritten base joined range digits).bits_text (by rwa [hnumber])
    rwa [hnumber] at hbits

/-! ### Both -/

/-- **The two readers agree.** On a literal of a signed 64-bit number, decimal or based, a bound is
evaluated to this number whatever the constants are, and the width is the least one of at least one
bit in which the number can be counted. -/
theorem NumberLiteral.value_and_width (l : NumberLiteral) (hvalue : l.value ≤ 2 ^ 63 - 1)
    (m : Constants) :
    Bound.evaluate m l.text = .ok (some l.value) ∧
      IsLeast {w | 1 ≤ w ∧ l.value < 2 ^ w} (Literal.bits l.text) := by
  refine ⟨l.evaluate_text (by omega) m, ?_⟩
  rw [l.bits_text (by omega)]
  exact isLeast_bitsFor l.value

/-- `16#7f_FF_ff_FF_ff_FF_ff_FF#`, the greatest signed 64-bit number. -/
def NumberLiteral.greatest : NumberLiteral :=
  .based ⟨['1', '6'], [1, 6], by decide, by decide⟩ (by decide) (by decide)
    ⟨"7f_FF_ff_FF_ff_FF_ff_FF".toList, 7 :: List.replicate 15 15, by decide, by decide⟩

theorem NumberLiteral.value_and_width_greatest :
    greatest.value ≤ 2 ^ 63 - 1 ∧
      Bound.evaluate [] "16#7f_FF_ff_FF_ff_FF_ff_FF#".toList = .ok (some 9223372036854775807) ∧
      IsLeast {w | 1 ≤ w ∧ 9223372036854775807 < 2 ^ w}
        (Literal.bits "16#7f_FF_ff_FF_ff_FF_ff_FF#".toList) := by
  have hvalue : greatest.value = 9223372036854775807 := by decide
  have htext : greatest.text = "16#7f_FF_ff_FF_ff_FF_ff_FF#".toList := by decide
  have hle : greatest.value ≤ 2 ^ 63 - 1 := by
    rw [hvalue]
    decide
  have hboth := greatest.value_and_width hle []
  rw [htext, hvalue] at hboth
  exact ⟨hle, hboth⟩

end DesignFacts

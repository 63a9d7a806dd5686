import DesignFacts.Text.Numeral

/-!
# Words that are no texts

Some plain words would be read back as something else than a text: truth values, nothing, and
numbers.
-/

namespace DesignFacts.Yaml

open Text

def truthWords : List String := ["true", "True", "TRUE", "false", "False", "FALSE"]

/-- The words for nothing. -/
def nothingWords : List String := ["", "~", "null", "Null", "NULL"]

/-- The words for numbers that are not finite. -/
def unboundedWords : List String :=
  [".inf", ".Inf", ".INF", "+.inf", "+.Inf", "+.INF", "-.inf", "-.Inf", "-.INF", ".nan", ".NaN",
    ".NAN"]

/-- A text without one sign at its start. -/
def unsigned (t : Text) : Text :=
  match t with
  | '+' :: rest => rest
  | '-' :: rest => rest
  | _ => t

/-- The base that the start of a number gives, and the digits after it. -/
def radix? : Text → Option (Nat × Text)
  | '0' :: 'x' :: t => some (16, t)
  | '0' :: 'o' :: t => some (8, t)
  | '0' :: 'b' :: t => some (2, t)
  | _ => none

/-- Whether a text is a whole number with its base written out, of at most 128 bits. -/
def isRadixNumber (t : Text) : Bool :=
  match radix? (unsigned t) with
  | some (base, digits) =>
    (Numeral.digits? base digits).any fun n =>
      if t.head? == some '-' then n ≤ Nat.pow 2 127 else n < Nat.pow 2 128
  | none => false

/-- The exponent after a decimal number: a number, or zero if nothing is written. -/
def exponent? : Text → Option Int
  | [] => some 0
  | e :: t =>
    if e == 'e' || e == 'E' then
      (Numeral.digits? 10 (unsigned t)).map fun n => if t.head? == some '-' then -(n : Int) else n
    else none

/-- Whether a number with these digits before and after the point, times a power of ten, lies
within the range of floating-point numbers: below the middle between the largest of them and the
power of two that follows. -/
def isInRange (whole fraction : Text) (exponent : Int) : Bool :=
  let digits := (whole ++ fraction).dropWhile (· == '0')
  let places := (digits.length : Int) - fraction.length + exponent
  if digits.isEmpty || places ≤ 308 then true
  else if places > 309 then false
  else
    let scale := places - digits.length
    let value := (Numeral.digits? 10 digits).getD 0
    let limit := Nat.pow 2 1024 - Nat.pow 2 970
    let shift := Nat.pow 10 scale.natAbs
    if scale < 0 then value < limit * shift else value * shift < limit

/-- Whether a text without a sign is a decimal number within range. A point may stand first or
last. -/
def isDecimalNumber (t : Text) : Bool :=
  let whole := t.takeWhile Char.isDigit
  let rest := t.dropWhile Char.isDigit
  let (fraction, tail) := match rest with
    | '.' :: more => (more.takeWhile Char.isDigit, more.dropWhile Char.isDigit)
    | _ => ([], rest)
  !(whole ++ fraction).isEmpty && (exponent? tail).any (isInRange whole fraction)

/-- Whether a text is digits after a leading zero. -/
def isPaddedNumber (t : Text) : Bool :=
  match unsigned t with
  | '0' :: d :: rest => (d :: rest).all Char.isDigit
  | _ => false

/-- Whether a plain word would not be read as a text. -/
def isSpecialWord (t : Text) : Bool :=
  (truthWords ++ nothingWords ++ unboundedWords).any (fun w => w.toList == t)
    || isRadixNumber t || isPaddedNumber t || isDecimalNumber (unsigned t)

end DesignFacts.Yaml

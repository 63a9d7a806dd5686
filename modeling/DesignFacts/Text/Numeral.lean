import DesignFacts.Text.Basic

/-!
# Numerals

Reading numbers from text. A numeral is a nonempty run of digits of its base, letters of either
case standing for the digits from ten on; a sign may stand directly before it. Numbers live in
machine words, so every reader takes the bound that its result has to respect.
-/

namespace DesignFacts.Numeral

/-- The number of values of an unsigned 32-bit word. -/
def word32 : Nat := 4294967296

/-- The number of values of an unsigned 64-bit word. -/
def word64 : Nat := 18446744073709551616

/-- Whether an integer is a signed 64-bit number. -/
def fits (n : Int) : Bool :=
  decide (-9223372036854775808 ≤ n) && decide (n < 9223372036854775808)

/-- An integer, if it is a signed 64-bit number. -/
def checked (n : Int) : Option Int := if fits n then some n else none

/-- The value of a character as a digit, whatever the base: `0` to `9`, then the letters. -/
def digitValue (c : Char) : Option Nat :=
  if c.isDigit then some (c.toNat - '0'.toNat)
  else if c.isAlpha then some (c.toLower.toNat - 'a'.toNat + 10)
  else none

/-- The value of a character as a digit of a base. -/
def digit? (base : Nat) (c : Char) : Option Nat := (digitValue c).filter (· < base)

/-- The value of a run of digits that follow the number `acc`. -/
def digitsFrom? (base : Nat) (acc : Nat) : Text → Option Nat
  | [] => some acc
  | c :: cs => (digit? base c).bind fun d => digitsFrom? base (acc * base + d) cs

/-- The value of a nonempty run of digits. -/
def digits? (base : Nat) (t : Text) : Option Nat := if t.isEmpty then none else digitsFrom? base 0 t

/-- A number below `bound`, written in digits after an optional plus sign. -/
def unsigned? (base bound : Nat) (t : Text) : Option Nat :=
  let body := match t with
    | '+' :: rest => rest
    | t => t
  (digits? base body).filter (· < bound)

/-- A signed 64-bit number, written in decimal digits after an optional sign. -/
def signed? (t : Text) : Option Int :=
  match t with
  | '-' :: rest => (digits? 10 rest).bind fun n => checked (-(n : Int))
  | '+' :: rest => (digits? 10 rest).bind fun n => checked n
  | t => (digits? 10 t).bind fun n => checked n

/-- The number of bits that a number needs, at least one. -/
def bitsFor (n : Nat) : Nat := if n = 0 then 1 else Nat.log2 n + 1

/-- The decimal digits of a number. -/
def decimal (n : Nat) : Text := Nat.toDigits 10 n

/-- The decimal digits of an integer, after a minus sign if it is negative. -/
def signedDecimal (n : Int) : Text :=
  match n with
  | .ofNat k => decimal k
  | .negSucc k => '-' :: decimal (k + 1)

end DesignFacts.Numeral

import DesignFacts.Text.Numeral

/-!
# Literals

How wide a literal is, judged by its text: a bit string by its size or its digits, a string by
its characters, a character as one bit, and a number by the bits that its value needs. Underscores
between digits do not count.
-/

namespace DesignFacts.Literal

open Text

/-- The digits that a bit string is written in. -/
inductive BitBase where
  | hex
  | binary
  | octal
  | decimal
  deriving DecidableEq

/-- The base that the letters before the quote name, in small letters. -/
def BitBase.ofSpec? (spec : Text) : Option BitBase :=
  if ["x", "ux", "sx"].any (·.toList == spec) then some .hex
  else if ["b", "ub", "sb"].any (·.toList == spec) then some .binary
  else if ["o", "uo", "so"].any (·.toList == spec) then some .octal
  else if spec == ['d'] then some .decimal
  else none

/-- A bit string such as `8x"FF"`: its size if one is written, its base and its digits. -/
structure BitString where
  size : Option Nat
  base : BitBase
  digits : Text

def bitString? (t : Text) : Option BitString :=
  match cut ['"'] t with
  | none => none
  | some (spec, rest) =>
    match rest.reverse with
    | '"' :: body =>
      let number := spec.takeWhile Char.isDigit
      (BitBase.ofSpec? (lower (spec.dropWhile Char.isDigit))).map fun base =>
        { size := Numeral.unsigned? 10 Numeral.word32 number, base, digits := body.reverse }
    | _ => none

/-- Whether a text looks like a literal: it starts with a digit or a quote, or is a bit string. -/
def isLiteralText (t : Text) : Bool :=
  match trim t with
  | [] => false
  | c :: cs =>
    c.isDigit || c == '"' || (c == '\'' && 3 ≤ bytes (c :: cs)) || (bitString? (c :: cs)).isSome

/-- The text without underscores. -/
def plainDigits (t : Text) : Text := t.filter (· != '_')

/-- The width of a number below 2^64, 0 if there is none. -/
def widthOf (value : Option Nat) : Nat := (value.map Numeral.bitsFor).getD 0

def BitString.width (b : BitString) : Nat :=
  match b.size with
  | some size => size
  | none =>
    match b.base with
    | .hex => 4 * (plainDigits b.digits).length
    | .binary => (plainDigits b.digits).length
    | .octal => 3 * (plainDigits b.digits).length
    | .decimal => widthOf (Numeral.unsigned? 10 Numeral.word64 (plainDigits b.digits))

/-- Whether a text starts and ends with a character and is at least `least` bytes long. -/
def isEnclosed (c : Char) (least : Nat) (t : Text) : Bool :=
  t.head? == some c && t.getLast? == some c && least ≤ bytes t

/-- The base of a based literal `base#digits#` and its digits. -/
def based? (t : Text) : Option (Option Nat × Text) :=
  (cut ['#'] t).map fun (base, rest) =>
    (Numeral.unsigned? 10 Numeral.word32 (trim base), plainDigits (dropEnd (· == '#') rest))

/-- The width of a literal in bits, 0 if it is unknown. A based literal whose base has no digits,
that is a base outside 2 to 36, has no width either. -/
def bits (literal : Text) : Nat :=
  let t := trim literal
  match bitString? t with
  | some b => b.width
  | none =>
    if isEnclosed '"' 2 t then (plainDigits (t.drop 1).dropLast).length
    else if isEnclosed '\'' 3 t then 1
    else match based? t with
      | some (base, digits) =>
        widthOf (base.bind fun b =>
          if 2 ≤ b ∧ b ≤ 36 then Numeral.unsigned? b Numeral.word64 digits else none)
      | none => widthOf (Numeral.unsigned? 10 Numeral.word64 (plainDigits t))

/-- Whether a literal is a based literal with a base that has no digits. -/
def hasWrongBase (literal : Text) : Bool :=
  let t := trim literal
  (bitString? t).isNone && !isEnclosed '"' 2 t && !isEnclosed '\'' 3 t &&
    ((based? t).bind Prod.fst).any fun b => b < 2 || 36 < b

end DesignFacts.Literal

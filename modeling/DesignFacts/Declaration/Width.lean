import DesignFacts.Text.Numeral

/-!
# Widths of types

How many bits a type has, judged by its text; 0 stands for unknown. Single-bit types have width 1,
vector types with literal bounds the distance of the bounds plus one, and integers with a literal
range the bits that its number of values needs. Bounds that are no literals are never guessed.
-/

namespace DesignFacts.Width

open Text

/-- The single-bit types. -/
def scalarMarks : List String := ["std_logic", "std_ulogic", "bit", "boolean"]

def vectorMarks : List String :=
  ["std_logic_vector", "std_ulogic_vector", "bit_vector", "unsigned", "signed"]

/-- The integer types that take a range. -/
def integerMarks : List String := ["integer", "natural", "positive"]

/-- The type mark of a small-letter type text, without libraries and packages before it. -/
def typeMark (t : Text) : Text := afterLast '.' (trim (before '(' t))

/-! ## Literal ranges -/

/-- A decimal number at the start of a text, and what follows it. -/
def number? (signed : Bool) (t : Text) : Option (Text × Text) :=
  let (sign, body) : Text × Text := match t with
    | '-' :: rest => if signed then (['-'], rest) else ([], t)
    | _ => ([], t)
  let digits := body.takeWhile Char.isDigit
  if digits.isEmpty then none else some (sign ++ digits, body.dropWhile Char.isDigit)

/-- What follows the blanks at the start of a text, if there are any. -/
def blanks? (t : Text) : Option Text := if t.head?.any isBlank then some (trimStart t) else none

/-- What follows a word at the start of a text. -/
def word? (word : String) (t : Text) : Option Text :=
  if startsWith t word then some (t.drop word.length) else none

/-- What follows a direction at the start of a text. -/
def direction? (t : Text) : Option Text := (word? "downto" t).or (word? "to" t)

/-- The two numbers of a range at the start of a text, and what follows it. -/
def bounds? (signed : Bool) (t : Text) : Option (Text × Text × Text) := do
  let (left, t) ← number? signed t
  let t ← blanks? t
  let t ← direction? t
  let t ← blanks? t
  let (right, t) ← number? signed t
  return (left, right, t)

/-- The bounds of a vector: a range in the last parentheses, with nothing after them. -/
def vectorBounds? (t : Text) : Option (Text × Text) := do
  guard (t.contains '(')
  let (left, right, rest) ← bounds? false (trimStart (afterLast '(' t))
  match trimStart rest with
  | ')' :: rest => if rest.all isBlank then some (left, right) else none
  | _ => none

/-- The small letter that a character stands for where letters are compared in Unicode's sense:
the long s is an s. -/
def foldLongS (c : Char) : Char := if c == 'ſ' then 's' else c

/-- The bounds of an integer type with a range. -/
def integerBounds? (t : Text) : Option (Text × Text) := do
  let t := t.map foldLongS
  let t ← integerMarks.findSome? fun mark => word? mark t
  let t ← blanks? t
  let t ← word? "range" t
  let t ← blanks? t
  let (left, right, rest) ← bounds? true t
  if rest.isEmpty then some (left, right) else none

/-! ## Widths -/

/-- The width of a vector with two bounds, 0 if it is no 32-bit number. -/
def ofVectorBounds (left right : Text) : Nat :=
  match Numeral.unsigned? 10 Numeral.word64 left, Numeral.unsigned? 10 Numeral.word64 right with
  | some a, some b =>
    let width := (max a b - min a b) + 1
    if width < Numeral.word32 then width else 0
  | _, _ => 0

/-- The bits that a number of values needs, at least one. -/
def bitsForValues (values : Nat) : Nat := if values ≤ 2 then 1 else Nat.log2 (values - 1) + 1

/-- The width of an integer type between two bounds; 64 if it has 2^64 values. -/
def ofIntegerBounds (left right : Text) : Nat :=
  match Numeral.signed? left, Numeral.signed? right with
  | some a, some b =>
    let values := (a - b).natAbs + 1
    if values < Numeral.word64 then bitsForValues values else 64
  | _, _ => 0

def isVector (type : Text) : Bool :=
  let mark := typeMark (lower (trim type))
  vectorMarks.any (·.toList == mark)

/-- The width of a type in bits, 0 if it is unknown. -/
def estimate (type : Text) : Nat :=
  let t := lower (trim type)
  let mark := typeMark t
  if t.isEmpty then 0
  else if scalarMarks.any (·.toList == mark) && !t.contains '(' then 1
  else if vectorMarks.any (·.toList == mark) then
    match vectorBounds? t with
    | some (left, right) => ofVectorBounds left right
    | none => 0
  else match integerBounds? t with
    | some (left, right) => ofIntegerBounds left right
    | none => 0

end DesignFacts.Width

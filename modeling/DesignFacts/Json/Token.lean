import DesignFacts.Text.Numeral

/-!
# Tokens of a JSON text

Strict JSON: structural characters, strings, and bare words (numbers, `true`, `false`, `null`)
with blanks between them. A string is kept as the code units that its escapes name and the
characters that stand in it, because a unit alone may be half of a character; `decode` gives the
text if every half has its partner. A number is kept only if it is written as a natural number,
the one form that a tree dump has a use for.
-/

namespace DesignFacts.Json

/-- A piece of a string: a character as it stands, or a 16-bit code unit named by an escape. -/
inductive Piece where
  | char (c : Char)
  | codeUnit (n : Nat)

inductive Token where
  | openBrace | closeBrace | openBracket | closeBracket | colon | comma
  | string (pieces : List Piece)
  /-- A number, with its value if it is written as a natural number. -/
  | number (value : Option Nat)
  | bool (value : Bool)
  | null

/-! ## Strings -/

/-- The character that two halves of a surrogate pair make. -/
def ofSurrogates (high low : Nat) : Char :=
  Char.ofNat (0x10000 + (high - 0xD800) * 0x400 + (low - 0xDC00))

/-- Whether a code unit is the first half of a pair. -/
def isHigh (n : Nat) : Bool := 0xD800 ≤ n && n ≤ 0xDBFF

/-- Whether a code unit is the second half of a pair. -/
def isLow (n : Nat) : Bool := 0xDC00 ≤ n && n ≤ 0xDFFF

/-- The text of a string, unless it holds half a character. -/
def decode : List Piece → Option Text
  | [] => some []
  | .char c :: rest => (decode rest).map (c :: ·)
  | .codeUnit n :: rest =>
    if isHigh n then
      match rest with
      | .codeUnit m :: rest =>
        if isLow m then (decode rest).map (ofSurrogates n m :: ·) else none
      | _ => none
    else if isLow n then none
    else (decode rest).map (Char.ofNat n :: ·)

/-- The character that a one-letter escape stands for. -/
def escaped? : Char → Option Char
  | '"' => some '"'
  | '\\' => some '\\'
  | '/' => some '/'
  | 'b' => some '\x08'
  | 'f' => some '\x0c'
  | 'n' => some '\n'
  | 'r' => some '\r'
  | 't' => some '\t'
  | _ => none

/-! ## Numbers -/

/-- Drop a nonempty run of digits. -/
def dropDigits? (t : Text) : Option Text :=
  match t with
  | c :: cs => if c.isDigit then some (cs.dropWhile Char.isDigit) else none
  | [] => none

/-- Whether a text is an exponent, or empty. -/
def isExponent : Text → Bool
  | [] => true
  | c :: cs =>
    (c == 'e' || c == 'E') &&
      (match cs with
        | '+' :: ds | '-' :: ds => dropDigits? ds == some []
        | ds => dropDigits? ds == some [])

/-- Whether a text is a fraction, an exponent or both, or empty. -/
def isFraction : Text → Bool
  | '.' :: cs => (dropDigits? cs).any isExponent
  | cs => isExponent cs

/-- Whether a text is an unsigned number: no zero stands before another digit. -/
def isUnsigned : Text → Bool
  | '0' :: cs => isFraction cs
  | cs => (dropDigits? cs).any isFraction

/-- The token that a bare word spells. -/
def bare? (t : Text) : Option Token :=
  if t == "true".toList then some (.bool true)
  else if t == "false".toList then some (.bool false)
  else if t == "null".toList then some .null
  else match t with
    | '-' :: cs => if isUnsigned cs then some (.number none) else none
    | cs =>
      if isUnsigned cs then
        some (.number (if cs.all Char.isDigit then Numeral.digits? 10 cs else none))
      else none

/-! ## The lexer -/

/-- Where the lexer stands between two characters; what it has read is kept backward. -/
inductive Mode where
  | ground
  | string (read : List Piece)
  | escape (read : List Piece)
  /-- In the digits of a code unit: how many are still to come, and their value so far. -/
  | hex (read : List Piece) (left : Nat) (value : Nat)
  | bare (read : Text)

/-- A lexer: the tokens read so far, last first, and where it stands. -/
structure Lexer where
  tokens : List Token := []
  mode : Mode := .ground

/-- The blanks between tokens. -/
def isSpace (c : Char) : Bool := c == ' ' || c == '\t' || c == '\r' || c == '\n'

/-- The token that a structural character is. -/
def structural? : Char → Option Token
  | '{' => some .openBrace
  | '}' => some .closeBrace
  | '[' => some .openBracket
  | ']' => some .closeBracket
  | ':' => some .colon
  | ',' => some .comma
  | _ => none

namespace Lexer

/-- A character between tokens. -/
def pushGround (l : Lexer) (c : Char) : Lexer :=
  if isSpace c then { l with mode := .ground }
  else if c == '"' then { l with mode := .string [] }
  else match structural? c with
    | some t => { tokens := t :: l.tokens, mode := .ground }
    | none => { l with mode := .bare [c] }

/-- What one more character does; `none` if no JSON text goes on like this. -/
def push (l : Lexer) (c : Char) : Option Lexer :=
  match l.mode with
  | .ground => some (l.pushGround c)
  | .string read =>
    if c == '"' then some { tokens := .string read.reverse :: l.tokens, mode := .ground }
    else if c == '\\' then some { l with mode := .escape read }
    else if c.toNat < 0x20 then none
    else some { l with mode := .string (.char c :: read) }
  | .escape read =>
    if c == 'u' then some { l with mode := .hex read 4 0 }
    else (escaped? c).map fun e => { l with mode := .string (.char e :: read) }
  | .hex read left value =>
    (Numeral.digit? 16 c).map fun d =>
      let value := value * 16 + d
      if left ≤ 1 then { l with mode := .string (.codeUnit value :: read) }
      else { l with mode := .hex read (left - 1) value }
  | .bare read =>
    if isSpace c || c == '"' || (structural? c).isSome then
      (bare? read.reverse).map fun t => pushGround { tokens := t :: l.tokens } c
    else some { l with mode := .bare (c :: read) }

/-- The tokens at the end of the text. -/
def finish (l : Lexer) : Option (List Token) :=
  match l.mode with
  | .ground => some l.tokens.reverse
  | .bare read => (bare? read.reverse).map fun t => (t :: l.tokens).reverse
  | _ => none

end Lexer

def tokenize (text : Text) : Option (List Token) :=
  (text.foldlM Lexer.push {}).bind Lexer.finish

end DesignFacts.Json

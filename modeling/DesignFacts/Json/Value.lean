import DesignFacts.Json.Token

/-!
# JSON values

The value that a token sequence spells, read once from left to right with the arrays and objects
that are still open on a stack. Objects keep all their entries in order, repeated keys included;
what a repeated key means is for the reader of the object to say.
-/

namespace DesignFacts.Json

/-- A value. Keys and strings stay undecoded, as parts that nobody asks for may hold anything. -/
inductive Value where
  | null
  | bool (value : Bool)
  | number (value : Option Nat)
  | string (pieces : List Piece)
  | array (items : List Value)
  | object (entries : List (List Piece × Value))

/-- An array or object that is still open; what it holds so far is kept backward. -/
inductive Frame where
  | array (items : List Value)
  | object (entries : List (List Piece × Value)) (key : List Piece)

/-- What may come next. -/
inductive Expect where
  /-- A value, or the end of an array that has no items yet. -/
  | value (mayClose : Bool)
  /-- A key, or the end of an object that has no entries yet. -/
  | key (entries : List (List Piece × Value)) (mayClose : Bool)
  | colon (entries : List (List Piece × Value)) (key : List Piece)
  /-- A comma or the end of the innermost array or object. -/
  | after
  /-- Nothing: the value is complete. -/
  | nothing (value : Value)

/-- The state of the reader. -/
structure Reading where
  stack : List Frame := []
  expect : Expect := .value false

namespace Reading

/-- Put a complete value where it belongs. -/
def complete (stack : List Frame) (v : Value) : Reading :=
  match stack with
  | [] => { expect := .nothing v }
  | .array items :: outer => { stack := .array (v :: items) :: outer, expect := .after }
  | .object entries key :: outer =>
    { stack := .object ((key, v) :: entries) [] :: outer, expect := .after }

/-- A token where a value may begin. -/
def startValue (stack : List Frame) : Token → Option Reading
  | .null => some (complete stack .null)
  | .bool b => some (complete stack (.bool b))
  | .number n => some (complete stack (.number n))
  | .string s => some (complete stack (.string s))
  | .openBracket => some { stack := .array [] :: stack, expect := .value true }
  | .openBrace => some { stack, expect := .key [] true }
  | _ => none

/-- What one more token does. -/
def push (r : Reading) (t : Token) : Option Reading :=
  match r.expect, t, r.stack with
  | .value true, .closeBracket, .array items :: outer =>
    some (complete outer (.array items.reverse))
  | .value _, t, stack => startValue stack t
  | .key entries true, .closeBrace, stack => some (complete stack (.object entries.reverse))
  | .key entries _, .string key, stack => some { stack, expect := .colon entries key }
  | .colon entries key, .colon, stack =>
    some { stack := .object entries key :: stack, expect := .value false }
  | .after, .comma, .array items :: outer =>
    some { stack := .array items :: outer, expect := .value false }
  | .after, .comma, .object entries _ :: outer =>
    some { stack := outer, expect := .key entries false }
  | .after, .closeBracket, .array items :: outer => some (complete outer (.array items.reverse))
  | .after, .closeBrace, .object entries _ :: outer =>
    some (complete outer (.object entries.reverse))
  | _, _, _ => none

end Reading

/-- The value that a JSON text spells. -/
def parse (text : Text) : Option Value := do
  let tokens ← tokenize text
  let reading ← tokens.foldlM Reading.push {}
  match reading.expect with
  | .nothing v => some v
  | _ => none

end DesignFacts.Json

import DesignFacts.Text.Numeral

/-!
# Documents

A document is what a report is written as: a tree of records with named fields in a fixed order,
lists, texts, numbers and truth values. It is written as JSON, with every entry of a list or record
on a line of its own, indented by two blanks a level.
-/

namespace DesignFacts

/-- A tree of records, lists and plain values. -/
inductive Document where
  | null
  | flag (b : Bool)
  | number (n : Int)
  | text (t : Text)
  | list (items : List Document)
  | record (fields : List (Text × Document))

namespace Document

/-- A record with known field names. -/
def object (fields : List (String × Document)) : Document :=
  .record (fields.map fun (key, value) => (key.toList, value))

def word (s : String) : Document := .text s.toList

/-- A natural number. -/
def count (n : Nat) : Document := .number n

/-- A text that may be missing. -/
def orNull (t : Option Text) : Document :=
  match t with
  | some t => .text t
  | none => .null

def texts (ts : List Text) : Document := .list (ts.map .text)

/-- A list of documents of some things. -/
def rows {α : Type} (f : α → Document) (xs : List α) : Document := .list (xs.map f)

/-! ## Writing -/

/-- The four digits of a number in base sixteen, with leading zeros. -/
def hexDigits (n : Nat) : Text :=
  [n / 4096 % 16, n / 256 % 16, n / 16 % 16, n % 16].map fun d =>
    if d < 10 then Char.ofNat ('0'.toNat + d) else Char.ofNat ('a'.toNat + (d - 10))

/-- A character inside a quoted text. -/
def quoteChar (c : Char) : Text :=
  if c == '"' then ['\\', '"']
  else if c == '\\' then ['\\', '\\']
  else if c == '\n' then ['\\', 'n']
  else if c == '\r' then ['\\', 'r']
  else if c == '\t' then ['\\', 't']
  else if c.toNat == 8 then ['\\', 'b']
  else if c.toNat == 12 then ['\\', 'f']
  else if c.toNat < 32 then '\\' :: 'u' :: hexDigits c.toNat
  else [c]

/-- A text in quotes. -/
def quote (t : Text) : Text := '"' :: t.flatMap quoteChar ++ ['"']

/-- A new line at a depth. -/
def newLine (depth : Nat) : Text := '\n' :: List.replicate (2 * depth) ' '

/-- Entries between brackets, each on a line of its own. -/
def bracket (opening closing : Char) (depth : Nat) (entries : List Text) : Text :=
  match entries with
  | [] => [opening, closing]
  | _ =>
    opening :: List.intercalate [','] (entries.map fun e => newLine (depth + 1) ++ e)
      ++ newLine depth ++ [closing]

mutual

/-- A document that starts at a depth. -/
def write (depth : Nat) : Document → Text
  | null => "null".toList
  | flag b => (if b then "true" else "false").toList
  | number n => Numeral.signedDecimal n
  | text t => quote t
  | list items => bracket '[' ']' depth (writeItems (depth + 1) items)
  | record fields => bracket '{' '}' depth (writeFields (depth + 1) fields)

def writeItems (depth : Nat) : List Document → List Text
  | [] => []
  | d :: ds => write depth d :: writeItems depth ds

def writeFields (depth : Nat) : List (Text × Document) → List Text
  | [] => []
  | f :: fs => writeField depth f :: writeFields depth fs

def writeField (depth : Nat) : Text × Document → Text
  | (key, value) => quote key ++ ':' :: ' ' :: write depth value

end

/-- A whole document. -/
def pretty (d : Document) : Text := write 0 d

end Document

end DesignFacts

import DesignFacts.Text.Numeral
import DesignFacts.Yaml.Basic

/-!
# Anchors, tags and directives

An anchor names a value so that it can be referred to. A tag names the type of a value; a handle in
it stands for the start of the type's address, and a directive in front of a document can declare
further handles. Types have no bearing on texts, lists and records, so only the handle of a tag is
kept.
-/

namespace DesignFacts.Yaml

/-! ## Anchors -/

/-- Whether a name may end before a text. -/
def endsName (t : Text) : Bool := t.head?.all fun c => isGap c || "?:,]\x7d%@`".toList.contains c

/-- The name that an anchor or a reference starts with, and the text after it. -/
def anchorName? (t : Text) : Option (Text × Text) :=
  let name := t.takeWhile isNameChar
  let rest := t.dropWhile isNameChar
  if name.isEmpty || !endsName rest then none else some (name, rest)

/-! ## Addresses -/

/-- Whether a character may stand in an address. Inside angle brackets more of them may. -/
def isAddressChar (isVerbatim : Bool) (c : Char) : Bool :=
  isNameChar c || ";/?:@&=+$.!~*'()".toList.contains c || (isVerbatim && ",[]".toList.contains c)

/-- How many bytes follow the first byte of a character. -/
def bytesAfter? (first : Nat) : Option Nat :=
  if first < 0x80 then some 0
  else if 0xC0 ≤ first && first < 0xE0 then some 1
  else if 0xE0 ≤ first && first < 0xF0 then some 2
  else if 0xF0 ≤ first && first < 0xF8 then some 3
  else none

/-- The text after an address. A percent sign escapes a byte; `pending` counts the bytes that the
character before still needs. -/
def afterAddress? (isVerbatim : Bool) (pending : Nat) : Text → Option Text
  | '%' :: a :: b :: t => do
    let byte := (← Numeral.digit? 16 a) * 16 + (← Numeral.digit? 16 b)
    match pending with
    | 0 => afterAddress? isVerbatim (← bytesAfter? byte) t
    | left + 1 => if 0x80 ≤ byte && byte < 0xC0 then afterAddress? isVerbatim left t else none
  | c :: t =>
    if pending != 0 || c == '%' then none
    else if isAddressChar isVerbatim c then afterAddress? isVerbatim 0 t
    else some (c :: t)
  | [] => if pending == 0 then some [] else none

/-- The text after an address that is not empty. -/
def afterSomeAddress? (isVerbatim : Bool) (t : Text) : Option Text :=
  (afterAddress? isVerbatim 0 t).filter fun rest => rest.length < t.length

/-! ## Tags -/

/-- The handles that need no directive: none at all, and one or two exclamation marks. -/
def commonHandles : List Text := [[], ['!'], ['!', '!']]

/-- The handle of the tag that a text starts with, and the text after it. -/
def tagHandle? (t : Text) : Option (Text × Text) :=
  match t with
  | '!' :: '<' :: t =>
    match afterSomeAddress? true t with
    | some ('>' :: rest) => some ([], rest)
    | _ => none
  | '!' :: t =>
    let name := t.takeWhile isNameChar
    match t.dropWhile isNameChar with
    | '!' :: rest => (afterSomeAddress? false rest).map fun rest => ('!' :: name ++ ['!'], rest)
    | rest => (afterAddress? false 0 rest).map fun rest => (['!'], rest)
  | _ => none

/-- The handle of a tag with nothing but a gap behind it; inside brackets a comma may follow too. -/
def tag? (inFlow : Bool) (t : Text) : Option (Text × Text) :=
  (tagHandle? t).filter fun (_, rest) => endsWord rest || (inFlow && rest.head? == some ',')

/-! ## Directives -/

/-- A line in front of a document. -/
inductive Directive where
  | version (major minor : Nat)
  | handle (name : Text)

namespace Directive

/-- The number of at most nine digits that a text starts with, and the text after it. -/
def number? (t : Text) : Option (Nat × Text) :=
  let digits := t.takeWhile Char.isDigit
  if 9 < digits.length then none
  else (Numeral.digits? 10 digits).map fun n => (n, t.dropWhile Char.isDigit)

/-- The version that a text starts with. -/
def version? (t : Text) : Option (Directive × Text) := do
  let (major, t) ← number? t
  match t with
  | '.' :: t =>
    let (minor, t) ← number? t
    return (.version major minor, t)
  | _ => none

/-- The handle that a text starts with, and the text after it. -/
def handleName? (t : Text) : Option (Text × Text) :=
  match t with
  | '!' :: t =>
    let name := t.takeWhile isNameChar
    match t.dropWhile isNameChar with
    | '!' :: rest => some ('!' :: name ++ ['!'], rest)
    | rest => if name.isEmpty then some (['!'], rest) else none
  | _ => none

/-- The declaration of a handle that a text starts with. -/
def handle? (t : Text) : Option (Directive × Text) := do
  let (name, t) ← handleName? t
  if t.head?.any isSpaceOrTab then
    let rest ← afterSomeAddress? true (t.dropWhile isSpaceOrTab)
    if endsWord rest then return (.handle name, rest) else none
  else none

/-- The directive that a text starts with, and the text after its line. -/
def read? (t : Text) : Option (Directive × Text) :=
  match t with
  | '%' :: t => do
    let name := t.takeWhile isNameChar
    let rest := t.dropWhile isNameChar
    let value := rest.dropWhile isSpaceOrTab
    if !endsWord rest then none
    let (directive, rest) ←
      if name == "YAML".toList then version? value
      else if name == "TAG".toList then handle? value
      else none
    return (directive, ← afterLine? rest)
  | _ => none

/-- The handles that some directives declare. There is at most one version, which has to be 1.1 or
1.2, and no handle is declared twice. -/
def handles? : List Directive → Option (List Text)
  | [] => some []
  | .version major minor :: ds =>
    let isVersion (d : Directive) : Bool := d matches .version ..
    if major == 1 && (minor == 1 || minor == 2) && !ds.any isVersion then handles? ds else none
  | .handle name :: ds => do
    let names ← handles? ds
    if names.contains name then none else return name :: names

end Directive

end DesignFacts.Yaml

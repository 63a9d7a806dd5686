import DesignFacts.Text.Basic

/-!
# Characters and places

A reader of YAML has to know the line and the column at which it stands: columns decide where a
block ends, and a key ends on the line on which it starts.

Line breaks are brought into one form before anything else is read. Afterwards a line feed is a
break that may be folded, and the line and paragraph separators are breaks that are kept.
-/

namespace DesignFacts.Yaml

/-! ## Characters -/

/-- Whether a text may hold a character. -/
def isAllowed (c : Char) : Bool :=
  let n := c.toNat
  n == 0x09 || n == 0x0A || n == 0x0D || (0x20 ≤ n && n ≤ 0x7E) || n == 0x85
    || (0xA0 ≤ n && n != 0xFFFE && n != 0xFFFF)

/-- The text with carriage returns and next-line characters written as line feeds. -/
def unifyBreaks : Text → Text
  | [] => []
  | '\r' :: '\n' :: t => '\n' :: unifyBreaks t
  | '\r' :: t => '\n' :: unifyBreaks t
  | c :: t => (if c.toNat == 0x85 then '\n' else c) :: unifyBreaks t

/-- Whether a character ends a line. -/
def isBreak (c : Char) : Bool := c == '\n' || c.toNat == 0x2028 || c.toNat == 0x2029

/-- Whether a character is a space or a tab. -/
def isSpaceOrTab (c : Char) : Bool := c == ' ' || c == '\t'

/-- Whether a character stands between words: a space, a tab or a line break. -/
def isGap (c : Char) : Bool := isSpaceOrTab c || isBreak c

/-- Whether a word ends before the text. -/
def endsWord (t : Text) : Bool := t.head?.all isGap

/-- Whether a character belongs to the name of an anchor, a tag handle or a directive. -/
def isNameChar (c : Char) : Bool := c.isAlphanum || c == '_' || c == '-'

/-- Whether a text starts with a mark between documents. Such a mark counts at the start of a line
only. -/
def isMarker (t : Text) : Bool :=
  (Text.startsWith t "---" || Text.startsWith t "...") && endsWord (t.drop 3)

/-- The text after the rest of a line on which nothing but a comment may stand. -/
def afterLine? (t : Text) : Option Text :=
  let t := t.dropWhile isSpaceOrTab
  let t := if t.head? == some '#' then t.dropWhile fun c => !isBreak c else t
  match t with
  | [] => some []
  | c :: t => if isBreak c then some t else none

/-! ## Places -/

/-- A place in a text, counted from zero. -/
structure Place where
  line : Nat := 0
  /-- The number of characters before it on its line. -/
  column : Nat := 0
  /-- The number of bytes before it on its line. -/
  offset : Nat := 0

def Place.after (p : Place) (c : Char) : Place :=
  if isBreak c then { line := p.line + 1 }
  else { p with column := p.column + 1, offset := p.offset + c.utf8Size }

/-- What is still to be read, and where it stands. -/
structure Cursor where
  rest : Text
  place : Place := {}

namespace Cursor

/-- The cursor some characters on. -/
def advance (c : Cursor) : Nat → Cursor
  | 0 => c
  | n + 1 =>
    match c.rest with
    | [] => c
    | x :: t => advance ⟨t, c.place.after x⟩ n

/-- The cursor at a later text. -/
def moveTo (c : Cursor) (later : Text) : Cursor := c.advance (c.rest.length - later.length)

/-- Whether a mark between documents comes next. -/
def atMarker (c : Cursor) : Bool := c.place.column == 0 && isMarker c.rest

end Cursor

/-- Pass spaces, line breaks and comments, and a byte order mark at the start of a line. `tabs` says
whether tabs are passed too; after a line break they are only inside brackets. -/
def skipFrom (inFlow tabs comment : Bool) (p : Place) : Text → Cursor
  | [] => ⟨[], p⟩
  | c :: t =>
    if isBreak c then skipFrom inFlow inFlow false (p.after c) t
    else if comment || c == ' ' || (tabs && c == '\t') || (p.column == 0 && c.toNat == 0xFEFF) then
      skipFrom inFlow tabs comment (p.after c) t
    else if c == '#' then skipFrom inFlow tabs true (p.after c) t
    else ⟨c :: t, p⟩

end DesignFacts.Yaml

import DesignFacts.Text.Numeral
import DesignFacts.Yaml.Basic

/-!
# Scalars on a line

Texts that are plain, in single quotes, or in double quotes with escapes. All of them may go on
over several lines. The blanks around a line break are dropped, a single line feed becomes a space,
and of several breaks all but a first line feed are kept.
-/

namespace DesignFacts.Yaml

/-- What stands between the last character of a scalar and the next one: spaces and tabs on a line,
or line breaks. The first break is missing if it is escaped. -/
inductive Gap where
  | blanks (t : Text)
  | breaks (first : Option Char) (more : Text)

namespace Gap

/-- Nothing between two characters. -/
def empty : Gap := .blanks []

/-- What the gap counts for in the scalar's text. -/
def text : Gap → Text
  | blanks t => t
  | breaks (some '\n') [] => [' ']
  | breaks (some '\n') more => more
  | breaks first more => first.toList ++ more

/-- The gap with one more blank or line break. -/
def push (g : Gap) (c : Char) : Gap :=
  if isBreak c then
    match g with
    | blanks _ => breaks (some c) []
    | breaks first more => breaks first (more ++ [c])
  else
    match g with
    | blanks t => blanks (t ++ [c])
    | g => g

/-- Whether the gap is wider than nothing. -/
def isOpen : Gap → Bool
  | blanks t => !t.isEmpty
  | breaks .. => true

/-- Whether the gap crosses a line break. -/
def isBroken : Gap → Bool
  | blanks _ => false
  | breaks .. => true

end Gap

/-! ## Plain scalars -/

/-- Whether a character parts the items inside brackets. -/
def isBracketMark (c : Char) : Bool :=
  c == ',' || c == '[' || c == ']' || c == '\x7b' || c == '\x7d'

/-- Whether a character has a meaning of its own at the start of a value. -/
def isIndicator (c : Char) : Bool := isBracketMark c || "#&*!|>'\"%@`".toList.contains c

/-- Whether a plain scalar goes no further than the gap `g`: what follows is a comment or a mark
between documents, or stands outside brackets on a line that is indented less than `floor`. -/
def stopsPlain (floor : Nat) (inFlow : Bool) (g : Gap) (c : Cursor) : Bool :=
  g.isOpen && (c.rest.head? == some '#' || c.atMarker
    || (g.isBroken && !inFlow && c.place.column < floor))

/-- Whether a plain scalar ends before a character. -/
def endsPlain (inFlow : Bool) (c : Char) (t : Text) : Bool :=
  (c == ':' && endsWord t) || (inFlow && isBracketMark c)

/-- Whether a character may not stand in a plain scalar: a colon that touches a bracket. -/
def breaksPlain (inFlow : Bool) (c : Char) (t : Text) : Bool :=
  inFlow && c == ':' && t.head?.any fun d => d == '?' || isBracketMark d

/-- A plain scalar that was read. -/
structure PlainScalar where
  text : Text
  /-- Whether line breaks were passed after its last character. -/
  isBroken : Bool
  /-- What follows it. -/
  cursor : Cursor

/-- The rest of a plain scalar after the gap `g`. A tab may not indent a line of it. -/
def plainFrom (floor : Nat) (inFlow : Bool) (g : Gap) (p : Place) : Text → Option PlainScalar
  | [] => some ⟨[], g.isBroken, ⟨[], p⟩⟩
  | c :: t =>
    if isGap c then
      if c == '\t' && g.isBroken && p.column < floor then none
      else plainFrom floor inFlow (g.push c) (p.after c) t
    else if stopsPlain floor inFlow g ⟨c :: t, p⟩ then some ⟨[], g.isBroken, ⟨c :: t, p⟩⟩
    else if breaksPlain inFlow c t then none
    else if endsPlain inFlow c t then some ⟨[], g.isBroken, ⟨c :: t, p⟩⟩
    else (plainFrom floor inFlow .empty (p.after c) t).map fun s =>
      { s with text := g.text ++ c :: s.text }

/-- The plain scalar that starts here. -/
def plainScalar (floor : Nat) (inFlow : Bool) (c : Cursor) : Option PlainScalar :=
  plainFrom floor inFlow .empty c.place c.rest

/-! ## Single quotes -/

/-- The text up to the closing quote, and what follows it. Two quotes stand for one. -/
def singleFrom (g : Gap) (p : Place) : Text → Option (Text × Cursor)
  | [] => none
  | '\'' :: '\'' :: t =>
    (singleFrom .empty ((p.after '\'').after '\'') t).map fun (s, d) => (g.text ++ '\'' :: s, d)
  | '\'' :: t => some (g.text, ⟨t, p.after '\''⟩)
  | c :: t =>
    if isGap c then singleFrom (g.push c) (p.after c) t
    else if p.column == 0 && isMarker (c :: t) then none
    else (singleFrom .empty (p.after c) t).map fun (s, d) => (g.text ++ c :: s, d)

/-! ## Double quotes -/

/-- The character that an escape of one letter stands for. -/
def escaped? : Char → Option Char
  | '0' => some (Char.ofNat 0)
  | 'a' => some (Char.ofNat 7)
  | 'b' => some (Char.ofNat 8)
  | 't' => some '\t'
  | '\t' => some '\t'
  | 'n' => some '\n'
  | 'v' => some (Char.ofNat 11)
  | 'f' => some (Char.ofNat 12)
  | 'r' => some '\r'
  | 'e' => some (Char.ofNat 27)
  | ' ' => some ' '
  | '"' => some '"'
  | '/' => some '/'
  | '\\' => some '\\'
  | 'N' => some (Char.ofNat 0x85)
  | '_' => some (Char.ofNat 0xA0)
  | 'L' => some (Char.ofNat 0x2028)
  | 'P' => some (Char.ofNat 0x2029)
  | _ => none

/-- How many hexadecimal digits follow the letter of an escape. -/
def codeLength? : Char → Option Nat
  | 'x' => some 2
  | 'u' => some 4
  | 'U' => some 8
  | _ => none

/-- The character of a number, if there is one. -/
def charOf? (n : Nat) : Option Char := if n.isValidChar then some (Char.ofNat n) else none

/-- Where a reader is inside double quotes: among characters, after a backslash, or before the
last digits of a number. -/
inductive Mode where
  | text
  | escape
  | code (left value : Nat)

/-- The text up to the closing quote, and what follows it. -/
def doubleFrom (m : Mode) (g : Gap) (p : Place) : Text → Option (Text × Cursor)
  | [] => none
  | c :: t =>
    let on (m : Mode) (g : Gap) := doubleFrom m g (p.after c) t
    let emit (x : Char) := (on .text .empty).map fun (s, d) => (x :: s, d)
    match m with
    | .text =>
      if isGap c then on .text (g.push c)
      else if p.column == 0 && isMarker (c :: t) then none
      else if c == '"' then some (g.text, ⟨t, p.after c⟩)
      else if c == '\\' then (on .escape .empty).map fun (s, d) => (g.text ++ s, d)
      else (on .text .empty).map fun (s, d) => (g.text ++ c :: s, d)
    | .escape =>
      if isBreak c then on .text (.breaks none [])
      else
        match codeLength? c, escaped? c with
        | some left, _ => on (.code left 0) .empty
        | none, some x => emit x
        | none, none => none
    | .code left value =>
      match Numeral.digit? 16 c with
      | none => none
      | some d =>
        if left ≤ 1 then (charOf? (value * 16 + d)).bind emit
        else on (.code (left - 1) (value * 16 + d)) .empty

/-- The quoted scalar that starts here, and what follows it. -/
def quotedScalar (c : Cursor) : Option (Text × Cursor) :=
  match c.rest with
  | '\'' :: t => singleFrom .empty (c.place.after '\'') t
  | '"' :: t => doubleFrom .text .empty (c.place.after '"') t
  | _ => none

end DesignFacts.Yaml

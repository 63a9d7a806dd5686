import DesignFacts.Yaml.BlockScalar
import DesignFacts.Yaml.Scalar
import DesignFacts.Yaml.Tag

/-!
# Tokens

A text is cut into tokens from left to right. The layout of blocks becomes tokens of its own: a list
or record opens where its first dash or key stands further to the right than what surrounds it, and
closes before the first token that stands further to the left.

Whether a value is a key is only known at the colon behind it. So the place where a key may have
started is kept, one for every pair of brackets around, and the token for the key is put there
later. A key has to end on its line and within 1024 bytes.
-/

namespace DesignFacts.Yaml

inductive Token where
  | directive (d : Directive)
  | documentStart
  | documentEnd
  /-- The start of a block list. -/
  | blockList
  /-- The start of a block record. -/
  | blockRecord
  | blockEnd
  | listStart
  | listEnd
  | recordStart
  | recordEnd
  /-- The dash before an item of a block list. -/
  | dash
  | comma
  /-- What comes next is a key. -/
  | key
  | colon
  | anchor (name : Text)
  | reference (name : Text)
  | tag (handle : Text)
  /-- A scalar, with or without quotes. -/
  | scalar (text : Text) (plain : Bool)

/-- Where a key may have started. -/
structure KeyStart where
  /-- The number of tokens before it. -/
  before : Nat
  place : Place
  /-- Whether nothing but a key can stand there. -/
  isRequired : Bool

/-- The longest key, in bytes, with the blanks after it. -/
def longestKey : Nat := 1024

/-- Whether a key that started there cannot go on to a place. -/
def KeyStart.isOver (k : KeyStart) (p : Place) : Bool :=
  k.place.line < p.line || k.place.offset + longestKey < p.offset

/-- A text that is partly cut into tokens. -/
structure Scanning where
  cursor : Cursor
  /-- The tokens so far, the last one first. -/
  made : List Token := []
  /-- The number of tokens so far. -/
  count : Nat := 0
  /-- For every open block, the innermost first, the column after the one in which it stands. -/
  floors : List Nat := []
  /-- Where a key may have started inside the innermost brackets. -/
  key : Option KeyStart := none
  /-- The same for all brackets around them. -/
  outerKeys : List (Option KeyStart) := []
  /-- Whether a key may start here. -/
  keyAllowed : Bool := true

namespace Scanning

/-- Whether the place is inside brackets. -/
def inFlow (s : Scanning) : Bool := !s.outerKeys.isEmpty

/-- The first column that belongs inside the innermost block. -/
def floor (s : Scanning) : Nat := s.floors.headD 0

/-- One more token. -/
def push (s : Scanning) (t : Token) : Scanning :=
  { s with made := t :: s.made, count := s.count + 1 }

/-- The scanning some characters on. -/
def advance (s : Scanning) (n : Nat) : Scanning := { s with cursor := s.cursor.advance n }

/-! ## Keys -/

/-- Give up the key that may have started inside the innermost brackets. -/
def dropKey? (s : Scanning) : Option Scanning :=
  if s.key.any (·.isRequired) then none else some { s with key := none }

/-- Note that a key may start here, if it may. -/
def startKey? (s : Scanning) : Option Scanning :=
  if s.keyAllowed then do
    let start : KeyStart :=
      { before := s.count
        place := s.cursor.place
        isRequired := !s.inFlow && s.floor == s.cursor.place.column + 1 }
    return { ← s.dropKey? with key := some start }
  else some s

/-- Give up all keys that cannot go on to this place. -/
def dropOverKeys? (s : Scanning) : Option Scanning := do
  let check (k : Option KeyStart) : Option (Option KeyStart) :=
    match k with
    | some k =>
      if k.isOver s.cursor.place then if k.isRequired then none else some none else some (some k)
    | none => some none
  return { s with key := ← check s.key, outerKeys := ← s.outerKeys.mapM check }

/-! ## Blocks -/

def opensBlock (s : Scanning) (column : Nat) : Bool := !s.inFlow && s.floor ≤ column

/-- Open a block here, if one opens. -/
def openBlock (s : Scanning) (t : Token) : Scanning :=
  let column := s.cursor.place.column
  if s.opensBlock column then { s.push t with floors := (column + 1) :: s.floors } else s

/-- Close all blocks that lie further to the right than a floor. -/
def closeFrom (s : Scanning) (floor : Nat) : List Nat → Scanning
  | [] => { s with floors := [] }
  | f :: fs =>
    if floor < f then (s.push .blockEnd).closeFrom floor fs else { s with floors := f :: fs }

/-- Close all blocks that lie further to the right than a floor, outside brackets. -/
def closeBlocks (s : Scanning) (floor : Nat) : Scanning :=
  if s.inFlow then s else s.closeFrom floor s.floors

/-- Close all blocks before something that stands between documents. -/
def leave? (s : Scanning) : Option Scanning := do
  return { ← (s.closeBlocks 0).dropKey? with keyAllowed := false }

/-! ## The tokens one by one -/

def directive? (s : Scanning) : Option Scanning := do
  let s ← s.leave?
  let (d, rest) ← Directive.read? s.cursor.rest
  return { s with cursor := s.cursor.moveTo rest }.push (.directive d)

/-- A mark between documents. -/
def marker? (s : Scanning) : Option Scanning := do
  let s ← s.leave?
  let token : Token := if s.cursor.rest.head? == some '-' then .documentStart else .documentEnd
  return (s.advance 3).push token

def open? (s : Scanning) (t : Token) : Option Scanning := do
  let s ← s.startKey?
  return { (s.advance 1).push t with
    key := none, outerKeys := s.key :: s.outerKeys, keyAllowed := true }

/-- A closing bracket. -/
def close? (s : Scanning) (t : Token) : Option Scanning := do
  let s ← s.dropKey?
  let s := match s.outerKeys with
    | [] => s
    | k :: ks => { s with key := k, outerKeys := ks }
  return { (s.advance 1).push t with keyAllowed := false }

def comma? (s : Scanning) : Option Scanning := do
  return { ((← s.dropKey?).advance 1).push .comma with keyAllowed := true }

def dash? (s : Scanning) : Option Scanning := do
  if !s.inFlow && !s.keyAllowed then none
  let s ← (s.openBlock .blockList).dropKey?
  return { (s.advance 1).push .dash with keyAllowed := true }

/-- A question mark before a key. -/
def question? (s : Scanning) : Option Scanning := do
  if !s.inFlow && !s.keyAllowed then none
  let s ← (s.openBlock .blockRecord).dropKey?
  return { (s.advance 1).push .key with keyAllowed := !s.inFlow }

/-- Put the token for a key where the key started, and open a block there if one opens. -/
def insertKey (s : Scanning) (k : KeyStart) : Scanning :=
  let opens := s.opensBlock k.place.column
  let since := s.count - k.before
  let tokens : List Token := if opens then [.key, .blockRecord] else [.key]
  { s with
    made := s.made.take since ++ tokens ++ s.made.drop since
    count := s.count + tokens.length
    floors := if opens then (k.place.column + 1) :: s.floors else s.floors
    key := none }

def colon? (s : Scanning) : Option Scanning :=
  match s.key with
  | some k => some { ((s.insertKey k).advance 1).push .colon with keyAllowed := false }
  | none =>
    if s.inFlow then some { (s.advance 1).push .colon with keyAllowed := false }
    else if s.keyAllowed then
      some { ((s.openBlock .blockRecord).advance 1).push .colon with keyAllowed := true }
    else none

/-- An anchor, or a reference to one. -/
def anchor? (s : Scanning) (token : Text → Token) : Option Scanning := do
  let s ← s.startKey?
  let (name, rest) ← anchorName? (s.cursor.rest.drop 1)
  return { s with cursor := s.cursor.moveTo rest, keyAllowed := false }.push (token name)

/-- A tag. -/
def tagged? (s : Scanning) : Option Scanning := do
  let s ← s.startKey?
  let (handle, rest) ← tag? s.inFlow s.cursor.rest
  return { s with cursor := s.cursor.moveTo rest, keyAllowed := false }.push (.tag handle)

/-- A scalar below a mark. -/
def block? (s : Scanning) : Option Scanning := do
  let s ← s.dropKey?
  let (t, cursor) ← blockScalar s.floor s.cursor
  return { s with cursor, keyAllowed := true }.push (.scalar t false)

def quoted? (s : Scanning) : Option Scanning := do
  let s ← s.startKey?
  let (t, cursor) ← quotedScalar s.cursor
  return { s with cursor, keyAllowed := false }.push (.scalar t false)

/-- A plain scalar. -/
def plain? (s : Scanning) : Option Scanning := do
  let s ← s.startKey?
  let p ← plainScalar s.floor s.inFlow s.cursor
  return { s with cursor := p.cursor, keyAllowed := p.isBroken }.push (.scalar p.text true)

/-! ## All tokens -/

/-- Go on to the next token: blanks and comments are passed, keys that go too far are given up, and
blocks that end are closed. -/
def toNext? (s : Scanning) : Option Scanning := do
  let cursor := skipFrom s.inFlow (s.inFlow || !s.keyAllowed) false s.cursor.place s.cursor.rest
  let isNewLine := s.cursor.place.line < cursor.place.line
  let s ← dropOverKeys? { s with cursor, keyAllowed := s.keyAllowed || (isNewLine && !s.inFlow) }
  return s.closeBlocks (cursor.place.column + 1)

/-- The token that starts with a character, with the text after that character. -/
def token? (s : Scanning) (c : Char) (t : Text) : Option Scanning :=
  if c == '%' && s.cursor.place.column == 0 then s.directive?
  else if s.cursor.atMarker then s.marker?
  else
    match c with
    | '[' => s.open? .listStart
    | '\x7b' => s.open? .recordStart
    | ']' => s.close? .listEnd
    | '\x7d' => s.close? .recordEnd
    | ',' => s.comma?
    | '-' => if endsWord t then s.dash? else s.plain?
    | '?' => if s.inFlow || endsWord t then s.question? else s.plain?
    | ':' => if s.inFlow || endsWord t then s.colon? else s.plain?
    | '&' => s.anchor? .anchor
    | '*' => s.anchor? .reference
    | '!' => s.tagged?
    | '|' => if s.inFlow then none else s.block?
    | '>' => if s.inFlow then none else s.block?
    | '\'' => s.quoted?
    | '"' => s.quoted?
    | c => if isGap c || isIndicator c then none else s.plain?

/-- Cut the rest of the text into tokens. Every token takes a character at least. -/
def finish? : Nat → Scanning → Option (List Token)
  | 0, _ => none
  | fuel + 1, s => do
    let s ← s.toNext?
    match s.cursor.rest with
    | [] => return (← s.leave?).made.reverse
    | c :: t => finish? fuel (← s.token? c t)

end Scanning

def tokens? (t : Text) : Option (List Token) :=
  Scanning.finish? (t.length + 1) { cursor := ⟨t, {}⟩ }

end DesignFacts.Yaml

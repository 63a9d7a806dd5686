import DesignFacts.Sexp.Item
import DesignFacts.Tree.Arena

/-!
# Laying out a tree

An s-expression has no source text, so one is made from its tokens: they follow each other with a
single space between them, and a new line starts after every `;`. A list of plain tokens is one
leaf whose text is its tokens joined by spaces, an empty list is a leaf spelled like its kind, and
any other list covers what its items cover.

The page is written once from left to right; the spans and rows of the nodes are noted on the way.
-/

namespace DesignFacts.Sexp

open Text

/-- The text written so far, backward, with its length in bytes and the row of its end. -/
structure Page where
  written : Text := []
  length : Nat := 0
  row : Nat := 0
  length_eq : length = bytes written := by rfl
  row_eq : row = written.count '\n' := by rfl

namespace Page

/-- Write more characters. -/
def write (p : Page) (t : Text) : Page where
  written := t.reverse ++ p.written
  length := p.length + bytes t
  row := p.row + t.count '\n'
  length_eq := by rw [p.length_eq, bytes_append, bytes_reverse, Nat.add_comm]
  row_eq := by rw [p.row_eq, List.count_append, List.count_reverse, Nat.add_comm]

/-- The page ready for the next token: a space separates it from a token on the same line. -/
def space (p : Page) : Page :=
  match p.written with
  | [] => p
  | c :: _ => if c == '\n' then p else p.write [' ']

/-- Write a token; a semicolon ends the line. -/
def token (p : Page) (t : Text) : Page :=
  let p := p.space.write t
  if t == [';'] then p.write ['\n'] else p

/-- The whole text of the page. -/
def text (p : Page) : Text := p.written.reverse

end Page

/-- The text of a list of plain tokens. -/
def leafText (kind : Text) (items : List Item) : Text :=
  if items.isEmpty then kind else join " " (items.filterMap Item.tokenText?)

/-- A leaf with the given text, as it comes to stand on the page. -/
def leaf (p : Page) (tag : Text) (named : Bool) (field : Option Text) (t : Text) : Cell :=
  let start := p.space
  { tag := String.ofList tag
    named
    field := field.map String.ofList
    start := start.length
    stop := start.length + bytes t
    row := start.row
    children := [] }

/-- A list with parts of its own: it reaches from its first part to its last one. The nodes under
it are numbered from `first` on. -/
def branch (p : Page) (kind : Text) (field : Option Text) (first : Nat) (parts : List Nat)
    (below : List Cell) : Cell :=
  let head := parts.head?.bind fun i => below[i - first]?
  let last := parts.getLast?.bind fun i => below[i - first]?
  let start := (head.map Cell.start).getD p.length
  { tag := String.ofList kind
    named := true
    field := field.map String.ofList
    start
    stop := (last.map Cell.stop).getD start
    row := (head.map Cell.row).getD p.row
    children := parts }

mutual

/-- Write an item on the page. The result has the cells of its node, with the given number, and of
the nodes under that. -/
def place (p : Page) (id : Nat) : Item → Page × List Cell
  | .token field t => (p.token t, [leaf p t false field t])
  | .list field kind items =>
    if items.all Item.isPlainToken then
      let t := leafText kind items
      (p.token t, [leaf p kind true field t])
    else
      let (p, parts, below) := placeAll p (id + 1) items
      (p, branch p kind field (id + 1) parts below :: below)

/-- Write items on the page, one after another, with their nodes numbered from `id` on. The result
has the numbers of the items themselves and all cells. -/
def placeAll (p : Page) (id : Nat) : List Item → Page × List Nat × List Cell
  | [] => (p, [], [])
  | item :: items =>
    let (p, own) := place p id item
    let (p, ids, rest) := placeAll p (id + own.length) items
    (p, id :: ids, own ++ rest)

end

/-- The arena that an item lays out to. -/
def layout (item : Item) : Arena :=
  let (page, cells) := place {} 0 item
  { source := page.text, cells }

/-- The arena that a written form describes. -/
def parse (text : Text) : Except Error Arena := do
  let tokens ← tokenize text
  let item ← readItem tokens
  return layout item

end DesignFacts.Sexp

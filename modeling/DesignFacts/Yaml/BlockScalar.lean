import DesignFacts.Yaml.Basic

/-!
# Scalars below a mark

A bar or a greater-than sign opens a scalar that stands on the lines below it. Its lines are
indented by the same number of columns, which is given behind the mark or taken from the first line
that is not blank. Below a bar all line breaks are kept; below a greater-than sign single line feeds
between lines that start with no blank become spaces.
-/

namespace DesignFacts.Yaml

/-- What happens to the line breaks at the end: none is kept, the first one, or all of them. -/
inductive Chomp where
  | strip
  | clip
  | keep

/-- What is said behind the mark. -/
structure BlockHeader where
  chomp : Chomp := .clip
  /-- The indentation beyond that of the surrounding block. -/
  increment : Option Nat := none

namespace BlockHeader

/-- The sign that a text starts with, and the text after it. -/
def chompOf? : Text → Option (Chomp × Text)
  | '+' :: t => some (.keep, t)
  | '-' :: t => some (.strip, t)
  | _ => none

/-- The header that a text starts with, and the text after it: a sign and a digit in either order. A
zero cannot be the digit. -/
def read? (t : Text) : Option (BlockHeader × Text) :=
  let digitOf? (t : Text) : Option (Nat × Text) :=
    match t with
    | c :: t => if c.isDigit then some (c.toNat - '0'.toNat, t) else none
    | [] => none
  let nonzero (h : BlockHeader) (t : Text) : Option (BlockHeader × Text) :=
    if h.increment == some 0 then none else some (h, t)
  match chompOf? t, digitOf? t with
  | some (chomp, t), _ =>
    match digitOf? t with
    | some (n, t) => nonzero { chomp, increment := some n } t
    | none => some ({ chomp }, t)
  | none, some (n, t) =>
    match chompOf? t with
    | some (chomp, t) => nonzero { chomp, increment := some n } t
    | none => nonzero { increment := some n } t
  | none, none => some ({}, t)

end BlockHeader

/-- The blank lines that come next. -/
structure BlankLines where
  /-- Their line breaks. -/
  breaks : Text
  /-- The widest indentation among them and of the line after them. -/
  widest : Nat
  /-- What follows them, after its indentation. -/
  cursor : Cursor

/-- Pass indentation and blank lines. The indentation ends at the given column, if one is known, and
no tab may stand in it. -/
def blankLines (indent : Option Nat) (widest : Nat) (p : Place) : Text → Option BlankLines
  | [] => some ⟨[], max widest p.column, ⟨[], p⟩⟩
  | c :: t =>
    let indents := indent.all fun n => p.column < n
    if indents && c == ' ' then blankLines indent widest (p.after c) t
    else if indents && c == '\t' then none
    else if isBreak c then
      (blankLines indent (max widest p.column) (p.after c) t).map fun b =>
        { b with breaks := c :: b.breaks }
    else some ⟨[], max widest p.column, ⟨c :: t, p⟩⟩

/-- What stands between the lines of a block scalar: the break that ends a line, the breaks of blank
lines after it, and whether the line starts with a blank. -/
structure BlockGap where
  first : Option Char := none
  more : Text
  afterBlank : Bool := false

/-- What a gap counts for between two lines, the second of which starts with a blank or not. -/
def BlockGap.text (isLiteral beforeBlank : Bool) (g : BlockGap) : Text :=
  if !isLiteral && g.first == some '\n' && !g.afterBlank && !beforeBlank then
    if g.more.isEmpty then [' '] else g.more
  else g.first.toList ++ g.more

/-- What a gap counts for at the end. -/
def BlockGap.tail (chomp : Chomp) (g : BlockGap) : Text :=
  match chomp with
  | .strip => []
  | .clip => g.first.toList
  | .keep => g.first.toList ++ g.more

/-- The lines of a block scalar after a gap, and what follows them. -/
def blockLines (isLiteral : Bool) (chomp : Chomp) (indent : Nat) :
    Nat → BlockGap → Cursor → Option (Text × Cursor)
  | 0, _, _ => none
  | fuel + 1, g, c =>
    if c.rest.isEmpty || c.place.column != indent then some (g.tail chomp, c)
    else do
      let isBlank := c.rest.head?.any isSpaceOrTab
      let line := c.rest.takeWhile fun x => !isBreak x
      let d := c.advance line.length
      let first := d.rest.head?
      let e := d.advance 1
      let b ← blankLines (some indent) 0 e.place e.rest
      let (t, f) ← blockLines isLiteral chomp indent fuel ⟨first, b.breaks, isBlank⟩ b.cursor
      return (g.text isLiteral isBlank ++ line ++ t, f)

/-- The block scalar that starts at its mark, and what follows it. Lines outside the surrounding
block are indented less than `floor`. -/
def blockScalar (floor : Nat) (c : Cursor) : Option (Text × Cursor) := do
  let isLiteral := c.rest.head? == some '|'
  let (header, t) ← BlockHeader.read? (c.rest.drop 1)
  let start := c.moveTo (← afterLine? t)
  let given := header.increment.map fun n => (floor - 1) + n
  let b ← blankLines given 0 start.place start.rest
  let indent := given.getD (max 1 (max floor b.widest))
  blockLines isLiteral header.chomp indent (b.cursor.rest.length + 1) { more := b.breaks } b.cursor

end DesignFacts.Yaml

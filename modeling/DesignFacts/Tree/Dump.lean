import DesignFacts.Tree.Arena

/-!
# Tree dumps

A dump describes a syntax tree from outside: the source text and, for every node, its tag, field
and byte span, with the row left open where the writer did not give it. `Dump.arena` numbers its
nodes, every node before its parts. A row that is left open is searched among the starts of lines.
-/

namespace DesignFacts

structure DumpNode where
  tag : String
  named : Bool
  field : Option String
  start : Nat
  stop : Nat
  /-- The row of the first byte, if the dump gives it. -/
  row : Option Nat
  children : List DumpNode

/-- A dump: a source text and the description of its tree. -/
structure Dump where
  source : Text
  root : DumpNode

/-! ## Rows -/

/-- The offsets at which a character stands in a text that begins at `offset`. -/
def offsetsFrom (c : Char) (offset : Nat) : Text → List Nat
  | [] => []
  | d :: t =>
    let later := offsetsFrom c (offset + d.utf8Size) t
    if d == c then offset :: later else later

/-- The offsets at which the lines of a source start. -/
def lineStarts (source : Text) : Array Nat :=
  (0 :: (offsetsFrom '\n' 0 source).map (· + 1)).toArray

/-- Search the entries from `base` on, `size` of them, for the first one that fails a test which no
entry passes behind one that fails it. -/
def partitionFrom (p : Nat → Bool) (xs : Array Nat) (base size : Nat) : Nat :=
  if 1 < size then
    let half := size / 2
    partitionFrom p xs (if xs[base + half]?.any p then base + half else base) (size - half)
  else if xs[base]?.any p then base + 1 else base
termination_by size
decreasing_by omega

def partitionPoint (p : Nat → Bool) (xs : Array Nat) : Nat := partitionFrom p xs 0 xs.size

/-- The row of a byte offset: that of the last line that starts at it or before it. -/
def rowAt (starts : Array Nat) (offset : Nat) : Nat :=
  partitionPoint (fun start => decide (start ≤ offset)) starts - 1

namespace DumpNode

mutual

/-- The cells of a node and all nodes under it, the node itself with the given number. -/
def cells (starts : Array Nat) (id : Nat) : DumpNode → List Cell
  | ⟨tag, named, field, start, stop, row, children⟩ =>
    let (parts, below) := cellsAll starts (id + 1) children
    { tag, named, field, start, stop
      row := row.getD (rowAt starts start)
      children := parts } :: below

/-- The numbers of some nodes and the cells of their trees, numbered one after another. -/
def cellsAll (starts : Array Nat) (id : Nat) : List DumpNode → List Nat × List Cell
  | [] => ([], [])
  | n :: ns =>
    let own := cells starts id n
    let (ids, rest) := cellsAll starts (id + own.length) ns
    (id :: ids, own ++ rest)

end

end DumpNode

def Dump.arena (d : Dump) : Arena where
  source := d.source
  cells := d.root.cells (lineStarts d.source) 0

end DesignFacts

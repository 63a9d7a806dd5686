import DesignFacts.Tree.Node

/-!
# Arenas

A reader puts the nodes of a tree down one after another, every node before its parts, and numbers
them from 0 on. In such an arena a node names its parts by their numbers, and node 0 is the root.

`Arena.load` links the nodes into a tree. It refuses an arena without nodes, and one in which a
span is reversed, leaves the source or cuts a character; then it names the first such node.
-/

namespace DesignFacts

/-- A node of an arena. -/
structure Cell where
  tag : String
  named : Bool
  field : Option String
  start : Nat
  stop : Nat
  row : Nat
  /-- The numbers of its parts. -/
  children : List Nat

/-- A source text and the numbered nodes of a tree over it. -/
structure Arena where
  source : Text
  cells : List Cell

/-- A node whose span is no piece of the source. -/
structure SpanError where
  /-- The number of the node. -/
  index : Nat
  start : Nat
  stop : Nat
  /-- The length of the source in bytes. -/
  length : Nat
  deriving DecidableEq

/-- Why an arena is no tree. -/
inductive ArenaError where
  | span (e : SpanError)
  | empty
  deriving DecidableEq

def ArenaError.message : ArenaError → String
  | span e => s!"node {e.index} spans {e.start}..{e.stop}, outside a source of {e.length} bytes"
  | empty => "syntax tree has no root node"

namespace Cell

open Text

/-- Whether the span of a node is a piece of the source: in order, inside it, and cut between
characters. -/
def fits (source : Text) (c : Cell) : Bool :=
  c.start ≤ c.stop &&
    match dropBytes? c.start source with
    | some ahead => (dropBytes? (c.stop - c.start) ahead).isSome
    | none => false

/-- The node that a cell becomes with the given parts. -/
def link (source : Text) (c : Cell) (parts : List Node) : Node where
  tag := c.tag
  named := c.named
  field := c.field
  start := c.start
  stop := c.stop
  row := c.row
  ahead := (dropBytes? c.start source).getD []
  children := parts

end Cell

namespace Arena

/-- The nodes of the cells that are numbered from `first` on. The parts of a node come after it, so
they are linked before it. -/
def nodesFrom (source : Text) (first : Nat) : List Cell → List Node
  | [] => []
  | c :: cs =>
    let later := nodesFrom source (first + 1) cs
    c.link source
        (c.children.filterMap fun i => if first < i then later[i - (first + 1)]? else none)
      :: later

/-- The nodes of an arena in the order of their numbers. -/
def nodes (a : Arena) : List Node := nodesFrom a.source 0 a.cells

/-- The first node whose span is no piece of the source. -/
def firstMisfit (a : Arena) : Option SpanError :=
  (a.cells.zipIdx.find? fun (c, _) => !c.fits a.source).map fun (c, index) =>
    { index, start := c.start, stop := c.stop, length := Text.bytes a.source }

/-- The tree that an arena holds. -/
def load (a : Arena) : Except ArenaError Tree :=
  match a.firstMisfit with
  | some e => .error (.span e)
  | none =>
    match a.nodes with
    | [] => .error .empty
    | root :: _ => .ok { source := a.source, root }

end Arena

end DesignFacts

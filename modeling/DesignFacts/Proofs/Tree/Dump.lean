import DesignFacts.Proofs.Sexp.WellFormed
import DesignFacts.Proofs.Tree.Line

/-!
# Dumping a tree

A tree that was read from an s-expression can be dumped and read again from its dump. The two
readers number nodes by different recursions and find rows in different ways; this file shows that
they agree.

**Dumps** (`Dump.ofTree`). The dump of a tree has its source and, for every node, its tag, its field
and its span. Rows are left out.

**The shape decides the numbers.** If the nodes of some trees, listed in pre-order, are linked from
the cells of a row of trees, then numbering their dumps gives that row again
(`Forest.cellsAll_ofNodes`). This needs that the row of every cell is the one found in the source.

Main result: the arena of the dump is the arena that was read, and it loads as the tree that was
read (`dump_readTree_sexp`).
-/

namespace DesignFacts

mutual

/-- The dump of a node, without its row. -/
def DumpNode.ofNode : Node → DumpNode
  | ⟨tag, named, field, start, stop, _, _, children⟩ =>
    ⟨tag, named, field, start, stop, none, DumpNode.ofNodes children⟩

def DumpNode.ofNodes : List Node → List DumpNode
  | [] => []
  | n :: ns => DumpNode.ofNode n :: DumpNode.ofNodes ns

end

/-- The dump of a tree, without rows. -/
def Dump.ofTree (t : Tree) : Dump where
  source := t.source
  root := .ofNode t.root

namespace Forest

variable {P : Cell → List Cell → Prop} {id : Nat} {ids : List Nat} {roots cells : List Cell}

/-- Numbering the dumps of nodes that are linked from a row of trees gives that row. -/
theorem cellsAll_ofNodes {source : Text} (h : Forest P id ids roots cells) {ns : List Node}
    {post : List Cell} {more : List Node} (hlength : ns.length = ids.length)
    (hlinks : List.Forall₂ (Arena.Links source) (cells ++ post) (Node.subtrees ns ++ more))
    (hrows : ∀ c ∈ cells, c.row = rowAt (lineStarts source) c.start) :
    DumpNode.cellsAll (lineStarts source) id (DumpNode.ofNodes ns) = (ids, cells) ∧
      List.Forall₂ (Arena.Links source) post more := by
  induction h generalizing ns post more with
  | nil id =>
    obtain rfl : ns = [] := List.length_eq_zero_iff.1 hlength
    exact ⟨rfl, hlinks⟩
  | @cons id c parts below ids roots rest _ _ _ ihbelow ihrest =>
    obtain ⟨n, ns, rfl⟩ := List.exists_cons_of_length_eq_add_one hlength
    -- The nodes in preorder: the first one, those below it, those of the row behind it, and `more`.
    have hnodes : Node.subtrees (n :: ns) ++ more =
        n :: (Node.subtrees n.children ++ (Node.subtrees ns ++ more)) := by
      rw [Node.subtrees, Node.subtree_eq, List.cons_append, List.cons_append, List.append_assoc]
    have hcells : c :: (below ++ rest) ++ post = c :: (below ++ (rest ++ post)) := by simp
    rw [hnodes, hcells] at hlinks
    obtain ⟨⟨parts, rfl, hparts⟩, hlinks⟩ := List.forall₂_cons.1 hlinks
    obtain ⟨hbelow, hlinks⟩ := ihbelow hparts hlinks fun d hd => hrows d (by simp [hd])
    obtain ⟨hrest, hlinks⟩ :=
      ihrest (Nat.succ.inj hlength) hlinks fun d hd => hrows d (by simp [hd])
    refine ⟨?_, hlinks⟩
    have hfirst :
        DumpNode.cells (lineStarts source) id (.ofNode (c.link source parts)) = c :: below := by
      rw [Cell.link, DumpNode.ofNode, DumpNode.cells, hbelow, Option.getD_none,
        ← hrows c List.mem_cons_self]
    rw [DumpNode.ofNodes, DumpNode.cellsAll, hfirst, List.length_cons, hrest]
    rfl

end Forest

open Sexp

/-- Parsing is laying out the item that the tokens spell. -/
theorem parse_eq (text : Text) : parse text = (tokenize text >>= readItem).map layout := by
  simp only [parse]
  cases tokenize text with
  | error e => rfl
  | ok tokens =>
    show (readItem tokens >>= fun item => pure (layout item)) = (readItem tokens).map layout
    cases readItem tokens <;> rfl

/-- The arena of the dump of a laid out tree is the arena it was loaded from. -/
theorem arena_ofTree_layout (item : Item) {tree : Tree} (h : (layout item).load = .ok tree) :
    (Dump.ofTree tree).arena = layout item := by
  obtain ⟨tree', hload, hsource, hsubtree⟩ := load_layout item
  obtain rfl : tree' = tree := Except.ok.inj (hload.symm.trans h)
  obtain ⟨c, hforest⟩ := forest_layout item
  have hwell := wellFormed_layout item
  have hlinks : List.Forall₂ (Arena.Links (layout item).source) ((layout item).cells ++ [])
      (Node.subtrees [tree'.root] ++ []) := by
    simpa [Node.subtrees, hsubtree] using hwell.preordered.forall₂_nodes
  have hrows : ∀ c ∈ (layout item).cells,
      c.row = rowAt (lineStarts (layout item).source) c.start := by
    intro c hc
    obtain ⟨_, hlaid, -⟩ := hwell.laid c hc
    rw [rowAt_lineStarts]
    exact hlaid.row_eq
  have hlength : [tree'.root].length = [0].length := rfl
  obtain ⟨hcells, -⟩ := hforest.cellsAll_ofNodes hlength hlinks hrows
  have hroot : (DumpNode.ofNode tree'.root).cells (lineStarts (layout item).source) 0 =
      (layout item).cells := by
    simpa [DumpNode.ofNodes, DumpNode.cellsAll] using hcells
  rw [Dump.arena, Dump.ofTree, hsource, hroot]

/-- **The two readers agree.** Numbering the dump of a tree that was read from an s-expression gives
the arena that was read, with its source, tags, fields, spans, rows and numbers, and loading that
gives the tree again. -/
theorem dump_readTree_sexp (text : Text) :
    (TreeFormat.sexp.readTree text).map (fun tree => (Dump.ofTree tree).arena) =
      TreeFormat.sexp.readArena text ∧
    (TreeFormat.sexp.readTree text >>= fun tree =>
      (Dump.ofTree tree).arena.load.mapError ReadError.span) = TreeFormat.sexp.readTree text := by
  rw [TreeFormat.readArena, parse_eq]
  cases hread : tokenize text >>= readItem with
  | error e =>
    rw [readTree_sexp_eq, hread]
    exact ⟨rfl, rfl⟩
  | ok item =>
    obtain ⟨tree, hload, htree⟩ := readTree_sexp_of_item hread
    have harena := arena_ofTree_layout item hload
    rw [htree]
    constructor
    · show Except.ok (Dump.ofTree tree).arena = Except.ok (layout item)
      rw [harena]
    · show (Dump.ofTree tree).arena.load.mapError ReadError.span = Except.ok tree
      rw [harena, hload]
      rfl

end DesignFacts

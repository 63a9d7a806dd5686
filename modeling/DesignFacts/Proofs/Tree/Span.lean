import DesignFacts.Proofs.Text.Bytes
import DesignFacts.Proofs.Tree.Line
import DesignFacts.Proofs.Tree.Preorder
import DesignFacts.Proofs.Tree.Row

/-!
# Spans of a dump

The spans of a dump come from outside, so they may overlap, be reversed, leave the source or cut a
character. Reading the dump checks each of them by itself. This file shows that this is the right
check: it refuses no dump with good spans, and after it every piece of source that is taken between
two nodes, whatever their order, is cut between characters.

**The nodes of a dump** (`DumpNode.preorder`) are listed each before its parts. This is the order of
the cells in its arena (`forall₂_describes_cells`), and it is the order of the nodes in its tree.

**Pieces of source** (`Node.OnSource`). A node that begins and ends between characters of the source
and sees the source from its own first byte on has only such pieces
(`Node.OnSource.covers_textThrough`).

Main result: `Dump.load_arena_iff`.
-/

namespace DesignFacts

open Text

/-! ## The nodes of a dump -/

namespace DumpNode

mutual

/-- A node of a dump and all nodes under it, each before its parts. -/
def preorder : DumpNode → List DumpNode
  | ⟨tag, named, field, start, stop, row, children⟩ =>
    ⟨tag, named, field, start, stop, row, children⟩ :: preorderAll children

/-- The nodes of several trees, one tree after another. -/
def preorderAll : List DumpNode → List DumpNode
  | [] => []
  | n :: ns => preorder n ++ preorderAll ns

end

/-- The span of a node is in order, inside the source, and cut between characters. -/
structure IsSpan (source : Text) (n : DumpNode) : Prop where
  ordered : n.start ≤ n.stop
  inside : n.stop ≤ bytes source
  start_boundary : IsBoundary source n.start
  stop_boundary : IsBoundary source n.stop

/-- A cell has the data of a node of a dump, and a number for each of its parts. -/
structure DescribesCell (source : Text) (n : DumpNode) (c : Cell) : Prop where
  tag : c.tag = n.tag
  named : c.named = n.named
  field : c.field = n.field
  start : c.start = n.start
  stop : c.stop = n.stop
  row : c.row = n.row.getD (rowAt (lineStarts source) n.start)
  parts : c.children.length = n.children.length

theorem length_cellsAll_ids (starts : Array Nat) (id : Nat) (ns : List DumpNode) :
    (cellsAll starts id ns).1.length = ns.length := by
  induction ns generalizing id with
  | nil => rfl
  | cons n ns ih => rw [cellsAll, List.length_cons, ih, List.length_cons]

mutual

/-- The cells of an arena are the nodes of its dump, in order. -/
theorem forall₂_describes_cells (source : Text) : ∀ (id : Nat) (n : DumpNode),
    List.Forall₂ (DescribesCell source) n.preorder (n.cells (lineStarts source) id)
  | id, ⟨_, _, _, _, _, _, children⟩ => by
    rw [preorder, cells]
    refine .cons ⟨rfl, rfl, rfl, rfl, rfl, rfl, ?_⟩
      (forall₂_describes_cellsAll source (id + 1) children)
    exact length_cellsAll_ids _ (id + 1) children

theorem forall₂_describes_cellsAll (source : Text) : ∀ (id : Nat) (ns : List DumpNode),
    List.Forall₂ (DescribesCell source) (preorderAll ns) (cellsAll (lineStarts source) id ns).2
  | _, [] => .nil
  | id, n :: ns => by
    rw [preorderAll, cellsAll]
    exact List.rel_append (forall₂_describes_cells source id n)
      (forall₂_describes_cellsAll source _ ns)

end

mutual

/-- The cells of a dump are numbered as a tree. -/
theorem forest_cells (starts : Array Nat) : ∀ (id : Nat) (n : DumpNode),
    ∃ c, Forest (fun _ _ => True) id [id] [c] (n.cells starts id)
  | id, ⟨_, _, _, _, _, _, children⟩ => by
    obtain ⟨parts, hparts⟩ := forest_cellsAll starts (id + 1) children
    rw [cells]
    exact ⟨_, Forest.single hparts trivial⟩

theorem forest_cellsAll (starts : Array Nat) : ∀ (id : Nat) (ns : List DumpNode),
    ∃ roots, Forest (fun _ _ => True) id (cellsAll starts id ns).1 roots (cellsAll starts id ns).2
  | id, [] => ⟨[], .nil id⟩
  | id, n :: ns => by
    obtain ⟨c, hfirst⟩ := forest_cells starts id n
    obtain ⟨roots, hrest⟩ := forest_cellsAll starts (id + (n.cells starts id).length) ns
    rw [cellsAll]
    exact ⟨_, hfirst.append hrest⟩

end

/-- The check of a cell is the check of its node. -/
theorem DescribesCell.fits_iff {source : Text} {n : DumpNode} {c : Cell}
    (h : n.DescribesCell source c) : c.fits source = true ↔ n.IsSpan source := by
  rw [Cell.fits_iff, h.start, h.stop]
  constructor
  · rintro ⟨hle, hstart, hstop⟩
    exact ⟨hle, hstop.le, hstart, hstop⟩
  · intro hspan
    exact ⟨hspan.ordered, hspan.start_boundary, hspan.stop_boundary⟩

/-- A node of a tree has the data of a node of a dump. A row that the dump leaves open is the number
of line ends before the first byte. -/
structure Describes (source : Text) (d : DumpNode) (n : Node) : Prop where
  tag : n.tag = d.tag
  named : n.named = d.named
  field : n.field = d.field
  start : n.start = d.start
  stop : n.stop = d.stop
  parts : n.children.length = d.children.length
  given_row : ∀ row, d.row = some row → n.row = row
  open_row : d.row = none → ∀ pre post, source = pre ++ post → bytes pre = d.start →
    n.row = pre.count '\n'

theorem DescribesCell.describes_link {source : Text} {d : DumpNode} {c : Cell} {n : Node}
    (h : d.DescribesCell source c) (hn : Arena.Links source c n) : d.Describes source n := by
  obtain ⟨parts, rfl, hparts⟩ := hn
  refine ⟨h.tag, h.named, h.field, h.start, h.stop, hparts.trans h.parts, ?_, ?_⟩
  · intro row hrow
    show c.row = row
    rw [h.row, hrow, Option.getD_some]
  · rintro hrow pre post rfl hpre
    show c.row = _
    rw [h.row, hrow, Option.getD_none, rowAt_lineStarts, ← hpre, takeBytes_append]

end DumpNode

/-! ## Pieces of source -/

/-- A node begins and ends between characters of the source, and sees the source from its first byte
on. -/
structure Node.OnSource (source : Text) (n : Node) : Prop where
  ordered : n.start ≤ n.stop
  stop_boundary : IsBoundary source n.stop
  ahead : ∃ pre, source = pre ++ n.ahead ∧ bytes pre = n.start

namespace Node.OnSource

variable {source : Text} {n m : Node}

/-- Between any two nodes lies a piece of the source, empty if the second one ends first. -/
theorem covers_textThrough (hn : n.OnSource source) (hm : m.OnSource source) :
    Covers source n.start (max m.stop n.start) (n.textThrough m) := by
  obtain ⟨pre, hsource, hpre⟩ := hn.ahead
  rcases Nat.le_total m.stop n.start with hle | hle
  · have hempty : n.textThrough m = [] := by
      have hzero : m.stop - n.start = bytes [] := Nat.sub_eq_zero_of_le hle
      rw [textThrough, hzero]
      exact takeBytes_append [] n.ahead
    rw [hempty, Nat.max_eq_right hle]
    exact ⟨pre, n.ahead, by simpa using hsource, hpre, by simpa using hpre⟩
  · obtain ⟨last, post, hlast, hstop⟩ := hm.stop_boundary
    obtain ⟨piece, rfl, hahead⟩ :=
      exists_append_of_bytes_le (hsource.symm.trans hlast) (by rw [hpre, hstop]; exact hle)
    have hlength : m.stop - n.start = bytes piece := by
      rw [← hstop, ← hpre, bytes_append, Nat.add_sub_cancel_left]
    have htext : n.textThrough m = piece := by
      rw [textThrough, hlength, hahead, takeBytes_append]
    rw [htext, Nat.max_eq_left hle]
    exact ⟨pre, post, hlast, hpre, by rw [← hstop, bytes_append]⟩

/-- The text of a node is the piece of source that it covers. -/
theorem covers_text (hn : n.OnSource source) : Covers source n.start n.stop n.text := by
  have hcovers := hn.covers_textThrough hn
  rwa [Nat.max_eq_left hn.ordered] at hcovers

end Node.OnSource

theorem Cell.onSource_link {source : Text} {c : Cell} (h : c.fits source = true)
    (parts : List Node) : (c.link source parts).OnSource source := by
  obtain ⟨hle, ⟨pre, post, rfl, hpre⟩, hstop⟩ := Cell.fits_iff.1 h
  refine ⟨hle, hstop, pre, ?_, hpre⟩
  have hahead : dropBytes? c.start (pre ++ post) = some post :=
    dropBytes?_eq_some_iff.2 ⟨pre, rfl, hpre⟩
  show pre ++ post = pre ++ (dropBytes? c.start (pre ++ post)).getD []
  rw [hahead, Option.getD_some]

/-! ## Loading -/

namespace Arena

/-- The search for a misfit finds the first one. -/
theorem firstMisfit_eq_some_iff {a : Arena} {e : SpanError} :
    a.firstMisfit = some e ↔ ∃ k c, a.cells[k]? = some c ∧ c.fits a.source = false ∧
      (∀ j < k, ∀ x, a.cells[j]? = some x → x.fits a.source = true) ∧
      e = ⟨k, c.start, c.stop, bytes a.source⟩ := by
  rw [firstMisfit, Option.map_eq_some_iff]
  constructor
  · rintro ⟨⟨c, k⟩, hfind, rfl⟩
    obtain ⟨hmisfit, i, hi, hget, hbefore⟩ := List.find?_eq_some_iff_getElem.1 hfind
    rw [List.getElem_zipIdx, Nat.zero_add, Prod.mk.injEq] at hget
    obtain ⟨rfl, rfl⟩ := hget
    refine ⟨i, _, List.getElem?_eq_getElem _, by simpa using hmisfit, fun j hj x hx => ?_, rfl⟩
    obtain ⟨hlt, rfl⟩ := List.getElem?_eq_some_iff.1 hx
    simpa using hbefore j hj
  · rintro ⟨k, c, hc, hmisfit, hbefore, rfl⟩
    obtain ⟨hk, rfl⟩ := List.getElem?_eq_some_iff.1 hc
    refine ⟨(a.cells[k], k), List.find?_eq_some_iff_getElem.2 ?_, rfl⟩
    refine ⟨by simpa using hmisfit, k, by simpa using hk, by simp, fun j hj => ?_⟩
    simpa using hbefore j hj _ (List.getElem?_eq_getElem (by omega))

/-- An arena with a node fails for its first misfit only. -/
theorem load_eq_error_iff {a : Arena} {root : Node} {rest : List Node}
    (hnodes : a.nodes = root :: rest) {e : ArenaError} :
    a.load = .error e ↔ ∃ m, a.firstMisfit = some m ∧ e = .span m := by
  unfold load
  cases hfirst : a.firstMisfit <;> simp [hnodes, eq_comm]

end Arena

namespace Dump

variable (d : Dump)

/-- The node of number `k` is the first one whose span is no piece of the source. -/
structure FirstMisfit (k : Nat) (n : DumpNode) : Prop where
  here : d.root.preorder[k]? = some n
  misfit : ¬ n.IsSpan d.source
  before : ∀ j < k, ∀ m, d.root.preorder[j]? = some m → m.IsSpan d.source

theorem forall₂_describes_arena :
    List.Forall₂ (DumpNode.DescribesCell d.source) d.root.preorder d.arena.cells :=
  d.root.forall₂_describes_cells d.source 0

/-- The first misfit of an arena is that of its dump. -/
theorem firstMisfit_arena_iff {e : SpanError} :
    d.arena.firstMisfit = some e ↔
      ∃ k n, d.FirstMisfit k n ∧ e = ⟨k, n.start, n.stop, bytes d.source⟩ := by
  have hentry {k : Nat} := exists_getElem?_of_forall₂ d.forall₂_describes_arena (k := k)
  rw [Arena.firstMisfit_eq_some_iff]
  constructor
  · rintro ⟨k, c, hc, hmisfit, hbefore, rfl⟩
    obtain ⟨n, hn, hcell⟩ := hentry.2 c hc
    refine ⟨k, n, ⟨hn, ?_, fun j hj m hm => ?_⟩, by rw [hcell.start, hcell.stop]; rfl⟩
    · rw [← hcell.fits_iff]
      exact Bool.not_eq_true _ ▸ hmisfit
    · obtain ⟨x, hx, hcell⟩ := hentry.1 m hm
      exact hcell.fits_iff.1 (hbefore j hj x hx)
  · rintro ⟨k, n, hfirst, rfl⟩
    obtain ⟨c, hc, hcell⟩ := hentry.1 n hfirst.here
    refine ⟨k, c, hc, ?_, fun j hj x hx => ?_, by rw [hcell.start, hcell.stop]; rfl⟩
    · exact Bool.not_eq_true _ ▸ mt hcell.fits_iff.1 hfirst.misfit
    · obtain ⟨m, hm, hcell⟩ := hentry.2 x hx
      exact hcell.fits_iff.2 (hfirst.before j hj m hm)

/-- There is no misfit in an arena if there is none in its dump. -/
theorem forall_fits_arena_iff :
    (∀ c ∈ d.arena.cells, c.fits d.source = true) ↔ ∀ n ∈ d.root.preorder, n.IsSpan d.source := by
  obtain ⟨hcells, hnodes⟩ := exists_mem_of_forall₂ d.forall₂_describes_arena
  constructor
  · intro h n hn
    obtain ⟨c, hc, hcell⟩ := hcells n hn
    exact hcell.fits_iff.1 (h c hc)
  · intro h c hc
    obtain ⟨n, hn, hcell⟩ := hnodes c hc
    exact hcell.fits_iff.2 (h n hn)

/-- The arena of a dump links its cells into a tree. -/
theorem exists_nodes_arena : ∃ root rest, d.arena.nodes = root :: rest ∧
    List.Forall₂ (Arena.Links d.source) d.arena.cells root.subtree := by
  obtain ⟨c, hforest⟩ : ∃ c, Forest (fun _ _ => True) 0 [0] [c] d.arena.cells :=
    d.root.forest_cells (lineStarts d.source) 0
  obtain ⟨root, rest, hnodes, hsubtree⟩ := hforest.nodes_eq_subtree
  refine ⟨root, rest, hnodes, ?_⟩
  rw [hsubtree]
  exact hforest.preordered.forall₂_nodes

/-- **Reading a dump accepts exactly the good spans.** A dump becomes a tree if and only if the span
of every node is in order, inside the source and cut between characters. It is refused otherwise,
with the number in pre-order and the span of the first node that fails. The nodes of the tree are
those of the dump in the same order, with the rows that it gives; where it gives none, the row is
the number of line ends before the node. And of any two nodes of the tree, however they lie, the
text of the first and the text from the first through the second are pieces of the source between
characters. -/
theorem load_arena_iff :
    ((∃ t, d.arena.load = .ok t) ↔ ∀ n ∈ d.root.preorder, n.IsSpan d.source) ∧
    (∀ e, d.arena.load = .error e ↔
      ∃ k n, d.FirstMisfit k n ∧ e = .span ⟨k, n.start, n.stop, bytes d.source⟩) ∧
    ∀ t, d.arena.load = .ok t →
      t.source = d.source ∧
      List.Forall₂ (DumpNode.Describes d.source) d.root.preorder t.root.subtree ∧
      ∀ n ∈ t.root.subtree, ∀ m ∈ t.root.subtree,
        Covers d.source n.start n.stop n.text ∧
        Covers d.source n.start (max m.stop n.start) (n.textThrough m) := by
  obtain ⟨root, rest, hnodes, hlinks⟩ := d.exists_nodes_arena
  refine ⟨?_, fun e => ?_, fun t ht => ?_⟩
  · rw [← d.forall_fits_arena_iff]
    constructor
    · rintro ⟨t, ht⟩
      exact ((Arena.load_eq_ok_iff hnodes).1 ht).1
    · intro hfits
      exact ⟨_, (Arena.load_eq_ok_iff hnodes).2 ⟨hfits, rfl⟩⟩
  · rw [Arena.load_eq_error_iff hnodes]
    constructor
    · rintro ⟨m, hm, rfl⟩
      obtain ⟨k, n, hfirst, rfl⟩ := d.firstMisfit_arena_iff.1 hm
      exact ⟨k, n, hfirst, rfl⟩
    · rintro ⟨k, n, hfirst, rfl⟩
      exact ⟨_, d.firstMisfit_arena_iff.2 ⟨k, n, hfirst, rfl⟩, rfl⟩
  · obtain ⟨hfits, rfl⟩ := (Arena.load_eq_ok_iff hnodes).1 ht
    -- The nodes are linked from cells, and the arena has loaded because all cells fit.
    have honSource : ∀ n ∈ root.subtree, n.OnSource d.source := by
      intro n hn
      obtain ⟨c, hc, parts, rfl, -⟩ := (exists_mem_of_forall₂ hlinks).2 n hn
      exact Cell.onSource_link (hfits c hc) parts
    refine ⟨rfl, ?_, fun n hn m hm => ?_⟩
    · exact forall₂_comp (fun _ _ _ hcell => hcell.describes_link) d.forall₂_describes_arena hlinks
    · exact ⟨(honSource n hn).covers_text, (honSource n hn).covers_textThrough (honSource m hm)⟩

/-- The span of node 1 cuts the letter before it. -/
example : (Dump.arena ⟨['é', 'a'], ⟨"design_file", true, none, 0, 3, none,
    [⟨"identifier", true, none, 1, 3, none, []⟩]⟩⟩).load = .error (.span ⟨1, 1, 3, 3⟩) := rfl

end Dump

end DesignFacts

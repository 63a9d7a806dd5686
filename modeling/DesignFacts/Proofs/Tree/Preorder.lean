import DesignFacts.Tree.Arena
import Mathlib.Data.List.Basic
import Mathlib.Data.List.Forall2
import Mathlib.Data.List.Nodup
import Mathlib.Data.List.Range

/-!
# Arenas in pre-order

When are the nodes of an arena numbered in the order in which one meets them, every node before its
parts? This file gives the shape of such arenas and what follows from it.

**The shape** (`Forest`). A row of trees is numbered from some number on: the first tree begins
with its root, then come the trees of the parts of that root, and then the other trees of the row.
The relation carries a property `P` of every node and its parts.

**Going through** (`Arena.Yields`). A stack holds the numbers of the nodes to come. The first is
taken off, and its parts are put on.

**What follows.** Going through a row of trees yields its numbers in order (`Forest.yields`), and
the roots and the parts of all nodes are its numbers, once each (`Forest.perm_children`). So an
arena that holds one tree is numbered in pre-order (`Forest.preordered`), and its linked nodes,
listed by number, are the subtree of the root (`Forest.nodes_eq_subtree`).
-/

namespace DesignFacts

/-- A row of trees that is numbered from `id` on: the numbers and the cells of their roots, and all
their cells. `P` holds of every cell and the cells of its parts. -/
inductive Forest (P : Cell → List Cell → Prop) : Nat → List Nat → List Cell → List Cell → Prop
  | nil (id : Nat) : Forest P id [] [] []
  | cons {id : Nat} {c : Cell} {parts below : List Cell} {ids : List Nat} {roots rest : List Cell} :
      Forest P (id + 1) c.children parts below → P c parts →
      Forest P (id + (below.length + 1)) ids roots rest →
      Forest P id (id :: ids) (c :: roots) (c :: (below ++ rest))

namespace Forest

variable {P : Cell → List Cell → Prop} {id : Nat} {ids : List Nat} {roots cells : List Cell}

/-- A tree by itself. -/
theorem single {c : Cell} {parts below : List Cell}
    (hbelow : Forest P (id + 1) c.children parts below) (hP : P c parts) :
    Forest P id [id] [c] (c :: below) := by
  simpa using Forest.cons hbelow hP (.nil _)

/-- Two rows one after the other. -/
theorem append {ids' : List Nat} {roots' cells' : List Cell} (h : Forest P id ids roots cells)
    (h' : Forest P (id + cells.length) ids' roots' cells') :
    Forest P id (ids ++ ids') (roots ++ roots') (cells ++ cells') := by
  induction h with
  | nil id => simpa using h'
  | @cons id c parts below ids roots rest hbelow hP _ _ ih =>
    have hrest := ih (by simpa [Nat.add_assoc, Nat.add_comm, Nat.add_left_comm] using h')
    simpa using Forest.cons hbelow hP hrest

theorem length_roots (h : Forest P id ids roots cells) : roots.length = ids.length := by
  induction h with
  | nil => rfl
  | cons _ _ _ _ ih => simp [ih]

theorem root_property (h : Forest P id ids roots cells) : ∀ c ∈ roots, ∃ parts, P c parts := by
  induction h with
  | nil => simp
  | cons _ hP _ _ ih =>
    intro d hd
    rcases List.mem_cons.1 hd with rfl | hd
    · exact ⟨_, hP⟩
    · exact ih d hd

/-- The numbers of a row lie in its range. -/
theorem id_bounds (h : Forest P id ids roots cells) :
    ∀ i ∈ ids, id ≤ i ∧ i < id + cells.length := by
  induction h with
  | nil => simp
  | @cons id c parts below ids roots rest _ _ _ _ ih =>
    intro i hi
    simp only [List.length_cons, List.length_append]
    rcases List.mem_cons.1 hi with rfl | hi
    · omega
    · have := ih i hi
      omega

/-! ## Cells by number -/

/-- Counted from the first number of a row, its numbers lead to its roots. -/
theorem getElem?_sub_ids (h : Forest P id ids roots cells) (post : List Cell) :
    ids.map (fun i => (cells ++ post)[i - id]?) = roots.map some := by
  induction h with
  | nil => rfl
  | @cons id c parts below ids roots rest _ _ hrest _ ih =>
    rw [List.map_cons, List.map_cons, ← ih]
    refine congrArg₂ List.cons (by simp) (List.map_congr_left fun i hi => ?_)
    obtain ⟨hle, -⟩ := hrest.id_bounds i hi
    have hskip : i - id = (i - (id + (below.length + 1))) + (c :: below).length := by
      rw [List.length_cons]
      omega
    have hlist : c :: (below ++ rest) ++ post = (c :: below) ++ (rest ++ post) := by simp
    rw [hlist, List.getElem?_append_right (by omega), hskip, Nat.add_sub_cancel]

/-- The numbers of a row lead to its roots. -/
theorem getElem?_ids (h : Forest P id ids roots cells) (pre post : List Cell)
    (hpre : pre.length = id) :
    ids.map (fun i => (pre ++ cells ++ post)[i]?) = roots.map some := by
  rw [← h.getElem?_sub_ids post]
  refine List.map_congr_left fun i hi => ?_
  obtain ⟨hle, -⟩ := h.id_bounds i hi
  rw [List.append_assoc, List.getElem?_append_right (by omega), hpre]

/-- The first number leads to the first root. -/
theorem getElem?_head (h : Forest P id ids roots cells) :
    (ids.head?.bind fun i => cells[i - id]?) = roots.head? := by
  have hmap := congrArg (fun l => l.head?.bind fun c => c) (h.getElem?_sub_ids [])
  simpa [List.head?_map, Option.bind_map, Function.comp_def] using hmap

/-- The last number leads to the last root. -/
theorem getElem?_last (h : Forest P id ids roots cells) :
    (ids.getLast?.bind fun i => cells[i - id]?) = roots.getLast? := by
  have hmap := congrArg (fun l => l.getLast?.bind fun c => c) (h.getElem?_sub_ids [])
  simpa [List.getLast?_map, Option.bind_map, Function.comp_def] using hmap

/-- The property holds of every cell and the cells that its numbers lead to. -/
theorem cell_property (h : Forest P id ids roots cells) (pre post : List Cell)
    (hpre : pre.length = id) :
    ∀ c ∈ cells, ∃ parts, P c parts ∧
      c.children.map (fun i => (pre ++ cells ++ post)[i]?) = parts.map some := by
  induction h generalizing pre post with
  | nil => simp
  | @cons id c parts below ids roots rest hbelow hP _ ihbelow ihrest =>
    have hlist₁ : pre ++ (c :: (below ++ rest)) ++ post =
        (pre ++ [c]) ++ below ++ (rest ++ post) := by simp
    have hlist₂ : pre ++ (c :: (below ++ rest)) ++ post = (pre ++ c :: below) ++ rest ++ post := by
      simp
    have hpre₁ : (pre ++ [c]).length = id + 1 := by simp [hpre]
    have hpre₂ : (pre ++ c :: below).length = id + (below.length + 1) := by simp [hpre]
    intro d hd
    rcases List.mem_cons.1 hd with rfl | hd
    · exact ⟨parts, hP, by rw [hlist₁]; exact hbelow.getElem?_ids _ _ hpre₁⟩
    · rcases List.mem_append.1 hd with hd | hd
      · rw [hlist₁]
        exact ihbelow _ _ hpre₁ d hd
      · rw [hlist₂]
        exact ihrest _ _ hpre₂ d hd

/-! ## Parts -/

/-- The numbers of a row: its first root, the nodes below that, and the rest. -/
theorem range'_row (id m n : Nat) : List.range' id (m + n + 1) =
    id :: (List.range' (id + 1) m ++ List.range' (id + (m + 1)) n) := by
  have hshift : id + (m + 1) = id + 1 + m := by omega
  rw [List.range'_succ, hshift, List.range'_append_1]

/-- The roots of a row and the parts of its cells are all its numbers, once each. -/
theorem perm_children (h : Forest P id ids roots cells) :
    (ids ++ cells.flatMap Cell.children).Perm (List.range' id cells.length) := by
  induction h with
  | nil => exact .nil
  | @cons id c parts below ids roots rest _ _ _ ihbelow ihrest =>
    rw [List.length_cons, List.length_append, range'_row, List.cons_append]
    refine List.Perm.cons id ?_
    rw [List.flatMap_cons, List.flatMap_append, ← List.append_assoc c.children]
    -- The parts of the first tree and the other roots change places.
    refine List.perm_append_comm_assoc _ _ _ |>.trans ?_
    exact ihbelow.append ihrest

/-- No number is a part twice. -/
theorem nodup_children (h : Forest P id ids roots cells) : (cells.flatMap Cell.children).Nodup :=
  (List.nodup_append.1 (h.perm_children.nodup_iff.2 List.nodup_range')).2.1

/-- A part comes after the node it belongs to. -/
theorem lt_of_mem_children (h : Forest P id ids roots cells) :
    ∀ k c, cells[k]? = some c → ∀ j ∈ c.children, id + k < j ∧ j < id + cells.length := by
  induction h with
  | nil => simp
  | @cons id c parts below ids roots rest hbelow _ _ ihbelow ihrest =>
    intro k d hd j hj
    simp only [List.length_cons, List.length_append]
    cases k with
    | zero =>
      obtain rfl : c = d := by simpa using hd
      have := hbelow.id_bounds j hj
      omega
    | succ k =>
      rw [List.getElem?_cons_succ, List.getElem?_append] at hd
      split at hd
      · have := ihbelow k d hd j hj
        omega
      · have := ihrest (k - below.length) d hd j hj
        omega

end Forest

/-! ## Going through an arena -/

namespace Arena

/-- One step: the first number is taken off the stack, and the numbers of its parts are put on. -/
def next? (a : Arena) : List Nat → Option (Nat × List Nat)
  | [] => none
  | i :: stack => a.cells[i]?.map fun c => (i, c.children ++ stack)

/-- Going on from a stack yields some numbers and then ends. -/
inductive Yields (a : Arena) : List Nat → List Nat → Prop
  | done : Yields a [] []
  | next {stack stack' : List Nat} {i : Nat} {is : List Nat} :
      a.next? stack = some (i, stack') → Yields a stack' is → Yields a stack (i :: is)

end Arena

namespace Forest

variable {P : Cell → List Cell → Prop} {id : Nat} {ids : List Nat} {roots cells : List Cell}

/-- Going through a row of trees yields its numbers in order. -/
theorem yields (h : Forest P id ids roots cells) {a : Arena} (pre post : List Cell)
    (ha : a.cells = pre ++ cells ++ post) (hpre : pre.length = id) {stack out : List Nat}
    (hout : a.Yields stack out) :
    a.Yields (ids ++ stack) (List.range' id cells.length ++ out) := by
  induction h generalizing pre post stack out with
  | nil => simpa using hout
  | @cons id c parts below ids roots rest _ _ _ ihbelow ihrest =>
    have hrest : a.Yields (ids ++ stack)
        (List.range' (id + (below.length + 1)) rest.length ++ out) :=
      ihrest (pre ++ c :: below) post (by simp [ha]) (by simp [hpre]) hout
    have hbelow := ihbelow (pre ++ [c]) (rest ++ post) (by simp [ha]) (by simp [hpre]) hrest
    rw [List.length_cons, List.length_append, range'_row, List.cons_append, List.cons_append,
      List.append_assoc]
    refine .next ?_ hbelow
    simp [Arena.next?, ha, ← hpre]

/-! ## Linked nodes -/

theorem length_nodesFrom (source : Text) (id : Nat) (cells : List Cell) :
    (Arena.nodesFrom source id cells).length = cells.length := by
  induction cells generalizing id with
  | nil => rfl
  | cons c cells ih => simp [Arena.nodesFrom, ih]

theorem subtree_link (source : Text) (c : Cell) (parts : List Node) :
    (c.link source parts).subtree = c.link source parts :: Node.subtrees parts := by
  rw [Cell.link, Node.subtree]

/-- The nodes of a row of trees, listed by number, are the subtrees of the roots. -/
theorem nodesFrom_append (h : Forest P id ids roots cells) (source : Text) (post : List Cell) :
    ∃ ns : List Node,
      Arena.nodesFrom source id (cells ++ post) =
        Node.subtrees ns ++ Arena.nodesFrom source (id + cells.length) post ∧
      ids.filterMap (fun i =>
        if id ≤ i then (Arena.nodesFrom source id (cells ++ post))[i - id]? else none) = ns := by
  induction h generalizing post with
  | nil => exact ⟨[], rfl, rfl⟩
  | @cons id c parts below ids roots rest hbelow _ hrest ihbelow ihrest =>
    obtain ⟨ms, hms, hmslookup⟩ := ihbelow (rest ++ post)
    obtain ⟨ns, hns, hnslookup⟩ := ihrest post
    set root := c.link source ms
    -- The numbers below the root come first, then those of the trees beside it.
    have hnodes : Arena.nodesFrom source id (c :: (below ++ rest) ++ post) =
        root.subtree ++ Arena.nodesFrom source (id + (below.length + 1)) (rest ++ post) := by
      have hshift : id + (below.length + 1) = id + 1 + below.length := by omega
      rw [List.cons_append, Arena.nodesFrom, List.append_assoc, hshift, subtree_link,
        List.cons_append, ← hms]
      exact congrArg (c.link source · :: _) hmslookup
    have hlength : root.subtree.length = below.length + 1 := by
      have hlen := congrArg List.length hms
      simp only [length_nodesFrom, List.length_append] at hlen
      rw [subtree_link, List.length_cons]
      omega
    refine ⟨root :: ns, ?_, ?_⟩
    · rw [hnodes, hns, Node.subtrees, List.append_assoc, List.length_cons, List.length_append]
      congr 3
      omega
    · have hroot : (if id ≤ id then (root.subtree ++ Arena.nodesFrom source
          (id + (below.length + 1)) (rest ++ post))[id - id]? else none) = some root := by
        simp [root, subtree_link]
      rw [hnodes, List.filterMap_cons]
      simp only [hroot]
      rw [← hnslookup]
      congr 1
      -- The other roots are looked up behind all nodes of the first tree.
      refine List.filterMap_congr fun i hi => ?_
      obtain ⟨hle, -⟩ := hrest.id_bounds i hi
      have hskip : i - id - (below.length + 1) = i - (id + (below.length + 1)) := by omega
      rw [if_pos (by omega), if_pos hle, List.getElem?_append_right (by omega), hlength, hskip]

end Forest

/-! ## Arenas of one tree -/

namespace Arena

/-- Node `j` is a part of node `i`. -/
def IsPart (a : Arena) (i j : Nat) : Prop := ∃ c, a.cells[i]? = some c ∧ j ∈ c.children

/-- The nodes are numbered in pre-order, from the root on. -/
structure Preordered (a : Arena) : Prop where
  /-- Going through the arena from node 0 meets all nodes in the order of their numbers. -/
  yields : a.Yields [0] (List.range a.cells.length)
  part_after : ∀ i j, a.IsPart i j → i < j ∧ j < a.cells.length
  /-- Every node but the root is a part of exactly one node. -/
  parent : ∀ j, 0 < j → j < a.cells.length → ∃! i, a.IsPart i j
  /-- A node names no part twice. -/
  nodup : ∀ c ∈ a.cells, c.children.Nodup

end Arena

namespace Forest

variable {P : Cell → List Cell → Prop} {a : Arena} {c : Cell}

/-- Two nodes with a common part are one. -/
theorem part_unique (h : Forest P 0 [0] [c] a.cells) {i k j : Nat} (hi : a.IsPart i j)
    (hk : a.IsPart k j) : i = k := by
  obtain ⟨c, hc, hjc⟩ := hi
  obtain ⟨d, hd, hjd⟩ := hk
  have hpair := (List.nodup_flatMap.1 h.nodup_children).2
  obtain ⟨hi, rfl⟩ := List.getElem?_eq_some_iff.1 hc
  obtain ⟨hk, rfl⟩ := List.getElem?_eq_some_iff.1 hd
  rcases Nat.lt_trichotomy i k with hlt | heq | hlt
  · exact absurd hjd (List.disjoint_left.1 (List.pairwise_iff_getElem.1 hpair i k hi hk hlt) hjc)
  · exact heq
  · exact absurd hjc (List.disjoint_left.1 (List.pairwise_iff_getElem.1 hpair k i hk hi hlt) hjd)

/-- An arena that holds one tree is numbered in pre-order. -/
theorem preordered (h : Forest P 0 [0] [c] a.cells) : a.Preordered where
  yields := by
    have hrun := h.yields (a := a) [] [] (by simp) rfl .done
    simpa [List.range_eq_range'] using hrun
  part_after := by
    rintro i j ⟨d, hd, hj⟩
    simpa using h.lt_of_mem_children i d hd j hj
  parent := by
    intro j hpos hlt
    have hmem : j ∈ [0] ++ a.cells.flatMap Cell.children :=
      h.perm_children.mem_iff.2 (List.mem_range'_1.2 ⟨Nat.zero_le j, by omega⟩)
    rcases List.mem_append.1 hmem with hroot | hpart
    · simp only [List.mem_singleton] at hroot
      omega
    · obtain ⟨d, hd, hj⟩ := List.mem_flatMap.1 hpart
      obtain ⟨i, hi⟩ := List.mem_iff_getElem?.1 hd
      exact ⟨i, ⟨d, hi, hj⟩, fun k hk => h.part_unique hk ⟨d, hi, hj⟩⟩
  nodup := (List.nodup_flatMap.1 h.nodup_children).1

/-- The nodes of an arena that holds one tree are the subtree of the first one. -/
theorem nodes_eq_subtree (h : Forest P 0 [0] [c] a.cells) :
    ∃ root rest, a.nodes = root :: rest ∧ root.subtree = a.nodes := by
  obtain ⟨ns, hnodes, hns⟩ := h.nodesFrom_append a.source []
  have hall : a.nodes = Node.subtrees ns := by simpa [Arena.nodes, Arena.nodesFrom] using hnodes
  have hpos : 0 < a.nodes.length := by
    rw [Arena.nodes, length_nodesFrom]
    simpa using (h.id_bounds 0 (by simp)).2
  obtain ⟨root, rest, hlist⟩ := List.exists_cons_of_length_pos hpos
  have hroot : ns = [root] := by
    have hfirst : Arena.nodesFrom a.source 0 a.cells = root :: rest := hlist
    rw [List.append_nil, hfirst] at hns
    simpa using hns.symm
  refine ⟨root, rest, hlist, ?_⟩
  rw [hall, hroot, Node.subtrees, Node.subtrees, List.append_nil]

end Forest

/-! ## Loading -/

namespace Arena

/-- A node is linked from a cell if it has a part for every number there. -/
def Links (source : Text) (c : Cell) (n : Node) : Prop :=
  ∃ parts, n = c.link source parts ∧ parts.length = c.children.length

/-- If the parts of every cell come after it, then each of them is linked. -/
theorem forall₂_nodesFrom (source : Text) (id : Nat) (cells : List Cell)
    (h : ∀ k c, cells[k]? = some c → ∀ j ∈ c.children, id + k < j ∧ j < id + cells.length) :
    List.Forall₂ (Links source) cells (nodesFrom source id cells) := by
  induction cells generalizing id with
  | nil => exact .nil
  | cons c cells ih =>
    refine .cons ⟨_, rfl, ?_⟩ (ih (id + 1) fun k d hd j hj => ?_)
    · rw [List.length_filterMap_eq_countP, List.countP_eq_length]
      intro j hj
      obtain ⟨hlt, hend⟩ := h 0 c rfl j hj
      rw [List.length_cons] at hend
      rw [if_pos (by omega), List.getElem?_eq_getElem
        (by rw [Forest.length_nodesFrom]; omega), Option.isSome_some]
    · have := h (k + 1) d hd j hj
      rw [List.length_cons] at this
      omega

theorem Preordered.forall₂_nodes {a : Arena} (h : a.Preordered) :
    List.Forall₂ (Links a.source) a.cells a.nodes := by
  refine forall₂_nodesFrom a.source 0 a.cells fun k c hc j hj => ?_
  simpa using h.part_after k j ⟨c, hc, hj⟩

theorem firstMisfit_eq_none_iff {a : Arena} :
    a.firstMisfit = none ↔ ∀ c ∈ a.cells, c.fits a.source = true := by
  rw [firstMisfit, Option.map_eq_none_iff, List.find?_eq_none]
  constructor
  · intro h c hc
    obtain ⟨k, hk⟩ := List.mem_iff_getElem?.1 hc
    simpa using h (c, k) (List.mem_zipIdx_iff_getElem?.2 hk)
  · rintro h ⟨c, k⟩ hc
    simpa using h c (List.fst_mem_of_mem_zipIdx hc)

/-- An arena with a node loads if every span is a piece of the source. -/
theorem load_eq_ok_iff {a : Arena} {root : Node} {rest : List Node}
    (hnodes : a.nodes = root :: rest) {t : Tree} :
    a.load = .ok t ↔
      (∀ c ∈ a.cells, c.fits a.source = true) ∧ t = { source := a.source, root } := by
  rw [← firstMisfit_eq_none_iff]
  unfold load
  cases hfirst : a.firstMisfit <;> simp [hnodes, eq_comm]

end Arena

end DesignFacts

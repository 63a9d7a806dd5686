import DesignFacts.Proofs.Text.Bytes
import DesignFacts.Proofs.Tree.Preorder
import DesignFacts.Proofs.Tree.Row
import DesignFacts.Tree.Reader
import Mathlib.Data.List.Chain

/-!
# Trees laid out from items are well formed

The text, the rows and the numbers of a laid out tree grow together while its items are written.
This file shows that they fit each other.

**A node among its parts** (`Laid`). Its span is a piece of the source and its row counts the lines
before it. If it has parts, it reaches from the first to the last of them, and they do not overlap.

**The invariant.** All statements are about a source that only begins with the page, so what is
written later does not matter (`text_place`). Then an item becomes a tree of laid out nodes between
the ends of the page before and after it (`forest_place`), and its nodes spell it
(`forall₂_describes_place`).

Main result: a text is refused as an s-expression, or it is read as the tree of its item, with a
well formed arena (`readTree_sexp_wellFormed`).
-/

namespace DesignFacts

open Text

/-- A cell with the given parts is a piece of the source and covers its parts. -/
structure Laid (source : Text) (c : Cell) (parts : List Cell) : Prop where
  ordered : c.start ≤ c.stop
  inside : c.stop ≤ bytes source
  start_boundary : IsBoundary source c.start
  stop_boundary : IsBoundary source c.stop
  /-- The row is the number of line ends before the first byte. -/
  row_eq : c.row = (takeBytes c.start source).count '\n'
  start_eq : ∀ d, parts.head? = some d → c.start = d.start
  stop_eq : ∀ d, parts.getLast? = some d → c.stop = d.stop
  siblings : parts.IsChain fun d e => d.stop ≤ e.start

/-- An arena whose nodes are numbered in pre-order and are laid out over its source. -/
structure Arena.WellFormed (a : Arena) : Prop where
  preordered : a.Preordered
  laid : ∀ c ∈ a.cells, ∃ parts, Laid a.source c parts ∧
    c.children.map (fun i => a.cells[i]?) = parts.map some

namespace Sexp

/-! ## The page -/

namespace Page

@[simp] theorem text_write (p : Page) (t : Text) : (p.write t).text = p.text ++ t := by
  simp [text, write]

theorem bytes_text (p : Page) : bytes p.text = p.length := by
  rw [text, bytes_reverse, p.length_eq]

theorem count_text (p : Page) : p.text.count '\n' = p.row := by
  rw [text, List.count_reverse, p.row_eq]

theorem length_le_of_text {p q : Page} (h : p.text <+: q.text) : p.length ≤ q.length := by
  obtain ⟨more, hmore⟩ := h
  rw [← bytes_text, ← bytes_text, ← hmore, bytes_append]
  exact Nat.le_add_right _ _

theorem text_space (p : Page) : p.text <+: p.space.text := by
  unfold space
  split
  · exact List.prefix_rfl
  · split
    · exact List.prefix_rfl
    · rw [text_write]
      exact List.prefix_append _ _

/-- A token stands right after the space before it. -/
theorem text_token (p : Page) (t : Text) : p.space.text ++ t <+: (p.token t).text := by
  unfold token
  split
  · rw [text_write, text_write]
    exact List.prefix_append _ _
  · rw [text_write]

end Page

mutual

/-- Writing an item only adds to the page. -/
theorem text_place : ∀ (item : Item) (p : Page) (id : Nat), p.text <+: (place p id item).1.text
  | .token field t, p, id => by
    rw [place]
    exact p.text_space.trans ((List.prefix_append _ _).trans (p.text_token t))
  | .list field kind items, p, id => by
    rw [place]
    split
    · exact p.text_space.trans ((List.prefix_append _ _).trans (p.text_token _))
    · exact text_placeAll items p (id + 1)

theorem text_placeAll : ∀ (items : List Item) (p : Page) (id : Nat),
    p.text <+: (placeAll p id items).1.text
  | [], p, id => by
    rw [placeAll]
  | item :: items, p, id => by
    rw [placeAll]
    exact (text_place item p id).trans (text_placeAll items _ _)

end

/-! ## Leaves and branches -/

/-- A leaf covers its text, on any source that begins with the page after it. -/
theorem covers_leaf {source : Text} (p : Page) (tag : Text) (named : Bool) (field : Option Text)
    (t : Text) (h : (p.token t).text <+: source) :
    Covers source (leaf p tag named field t).start (leaf p tag named field t).stop t := by
  obtain ⟨post, hpost⟩ := (p.text_token t).trans h
  exact ⟨p.space.text, post, hpost.symm, p.space.bytes_text, by rw [p.space.bytes_text]; rfl⟩

theorem laid_leaf {source : Text} (p : Page) (tag : Text) (named : Bool) (field : Option Text)
    (t : Text) (h : (p.token t).text <+: source) : Laid source (leaf p tag named field t) [] := by
  have hcovers := covers_leaf p tag named field t h
  obtain ⟨post, hpost⟩ := (p.text_token t).trans h
  refine ⟨hcovers.le, hcovers.stop_boundary.le, hcovers.start_boundary, hcovers.stop_boundary, ?_,
    by simp, by simp, .nil⟩
  show p.space.row = (takeBytes p.space.length source).count '\n'
  rw [← hpost, List.append_assoc, ← p.space.bytes_text, takeBytes_append, p.space.count_text]

/-- Cells one after another from one offset to another. -/
def Between : Nat → List Cell → Nat → Prop
  | lo, [], hi => lo ≤ hi
  | lo, c :: cs, hi => lo ≤ c.start ∧ c.start ≤ c.stop ∧ Between c.stop cs hi

namespace Between

theorem mono {cs : List Cell} {lo lo' hi : Nat} (h : Between lo cs hi) (hlo : lo' ≤ lo) :
    Between lo' cs hi := by
  cases cs with
  | nil => exact Nat.le_trans hlo h
  | cons c cs => exact ⟨Nat.le_trans hlo h.1, h.2⟩

theorem isChain {cs : List Cell} {lo hi : Nat} (h : Between lo cs hi) :
    cs.IsChain fun d e => d.stop ≤ e.start := by
  induction cs generalizing lo with
  | nil => exact .nil
  | cons c cs ih =>
    obtain ⟨-, -, hrest⟩ := h
    refine List.isChain_cons.2 ⟨fun e he => ?_, ih hrest⟩
    cases cs with
    | nil => simp at he
    | cons d ds =>
      obtain rfl : d = e := by simpa using he
      exact hrest.1

/-- The last cell ends before the end, and after the start of the first one. -/
theorem last {cs : List Cell} {c d : Cell} {lo hi : Nat} (h : Between lo (c :: cs) hi)
    (hd : (c :: cs).getLast? = some d) : c.start ≤ d.stop ∧ d.stop ≤ hi := by
  induction cs generalizing c lo with
  | nil =>
    obtain rfl : c = d := by simpa using hd
    exact ⟨h.2.1, h.2.2⟩
  | cons e es ih =>
    obtain ⟨-, hspan, hrest⟩ := h
    have hlast := ih hrest (by simpa [List.getLast?_cons_cons] using hd)
    have hfirst : c.stop ≤ e.start := hrest.1
    omega

end Between

/-- A list with parts is laid out over them. -/
theorem laid_branch {source : Text} {p : Page} {kind : Text} {field : Option Text}
    {first lo hi : Nat} {ids : List Nat} {d : Cell} {roots below : List Cell}
    (hforest : Forest (Laid source) first ids (d :: roots) below)
    (hbetween : Between lo (d :: roots) hi) :
    Laid source (branch p kind field first ids below) (d :: roots) ∧
      Between lo [branch p kind field first ids below] hi := by
  obtain ⟨e, he⟩ : ∃ e, (d :: roots).getLast? = some e :=
    ⟨_, List.getLast?_eq_some_getLast (List.cons_ne_nil d roots)⟩
  set c := branch p kind field first ids below with hc
  have hhead := hforest.getElem?_head
  have hlast := hforest.getElem?_last
  rw [he] at hlast
  -- The list begins with its first part and ends with its last one. All else follows from where
  -- these two lie.
  have hstart : c.start = d.start := by simp [hc, branch, hhead]
  have hstop : c.stop = e.stop := by simp [hc, branch, hlast]
  have hrow : c.row = d.row := by simp [hc, branch, hhead]
  obtain ⟨_, hd⟩ := hforest.root_property d List.mem_cons_self
  obtain ⟨_, hlaid⟩ := hforest.root_property e (List.mem_of_getLast? he)
  obtain ⟨hspan, hend⟩ := hbetween.last he
  constructor
  · constructor
    · rw [hstart, hstop]
      exact hspan
    · rw [hstop]
      exact hlaid.inside
    · rw [hstart]
      exact hd.start_boundary
    · rw [hstop]
      exact hlaid.stop_boundary
    · rw [hrow, hstart]
      exact hd.row_eq
    · intro x hx
      obtain rfl : d = x := by simpa using hx
      exact hstart
    · intro x hx
      obtain rfl : e = x := Option.some.inj (he.symm.trans hx)
      exact hstop
    · exact hbetween.isChain
  · refine ⟨?_, ?_, ?_⟩
    · rw [hstart]
      exact hbetween.1
    · rw [hstart, hstop]
      exact hspan
    · show c.stop ≤ hi
      rw [hstop]
      exact hend

/-! ## Items become trees -/

/-- A leaf by itself is a tree. -/
theorem forest_leaf {source : Text} (p : Page) (id : Nat) (tag : Text) (named : Bool)
    (field : Option Text) (t : Text) (h : (p.token t).text <+: source) :
    Forest (Laid source) id [id] [leaf p tag named field t] [leaf p tag named field t] ∧
      Between p.length [leaf p tag named field t] (p.token t).length := by
  refine ⟨.single (.nil _) (laid_leaf p tag named field t h), ?_, Nat.le_add_right _ _, ?_⟩
  · exact Page.length_le_of_text p.text_space
  · show p.space.length + bytes t ≤ (p.token t).length
    obtain ⟨more, hmore⟩ := p.text_token t
    rw [← Page.bytes_text, ← Page.bytes_text, ← hmore]
    simp

/-- A list with an item that is no plain token has items. -/
theorem ne_nil_of_not_plain {items : List Item} (h : ¬ items.all Item.isPlainToken = true) :
    items ≠ [] := by
  rintro rfl
  exact h rfl

theorem length_placeAll_ids (items : List Item) (p : Page) (id : Nat) :
    (placeAll p id items).2.1.length = items.length := by
  induction items generalizing p id with
  | nil => rw [placeAll]; rfl
  | cons item items ih => rw [placeAll, List.length_cons, List.length_cons, ih]

mutual

/-- An item becomes a tree that lies on the page between where it was and where it is now. -/
theorem forest_place {source : Text} : ∀ (item : Item) (p : Page) (id : Nat),
    (place p id item).1.text <+: source →
      ∃ c, Forest (Laid source) id [id] [c] (place p id item).2 ∧
        Between p.length [c] (place p id item).1.length
  | .token field t, p, id, h => by
    rw [place] at h ⊢
    exact ⟨_, forest_leaf p id t false field t h⟩
  | .list field kind items, p, id, h => by
    rw [place] at h ⊢
    split at h
    · rename_i hplain
      rw [if_pos hplain]
      exact ⟨_, forest_leaf p id kind true field _ h⟩
    · rename_i hplain
      rw [if_neg hplain]
      obtain ⟨roots, hforest, hbetween⟩ := forest_placeAll items p (id + 1) h
      have hlength : roots.length = items.length :=
        hforest.length_roots.trans (length_placeAll_ids items p (id + 1))
      cases roots with
      | nil =>
        exact absurd (List.length_eq_zero_iff.1 hlength.symm) (ne_nil_of_not_plain hplain)
      | cons d roots =>
        obtain ⟨hlaid, hwithin⟩ := laid_branch hforest hbetween
        exact ⟨_, .single hforest hlaid, hwithin⟩

/-- Items become trees that follow each other on the page. -/
theorem forest_placeAll {source : Text} : ∀ (items : List Item) (p : Page) (id : Nat),
    (placeAll p id items).1.text <+: source →
      ∃ roots, Forest (Laid source) id (placeAll p id items).2.1 roots (placeAll p id items).2.2 ∧
        Between p.length roots (placeAll p id items).1.length
  | [], p, id, h => by
    rw [placeAll]
    exact ⟨[], .nil id, Nat.le_refl _⟩
  | item :: items, p, id, h => by
    rw [placeAll] at h ⊢
    obtain ⟨c, hfirst, hlo, hspan, hstop⟩ :=
      forest_place item p id ((text_placeAll items _ _).trans h)
    obtain ⟨roots, hrest, hbetween⟩ := forest_placeAll items _ _ h
    exact ⟨c :: roots, hfirst.append hrest, hlo, hspan, hbetween.mono hstop⟩

end

/-! ## What the nodes spell -/

namespace Item

/-- The items of a list that become nodes of their own: none, if all of them are plain tokens. -/
def parts : Item → List Item
  | .token _ _ => []
  | .list _ _ items => if items.all isPlainToken then [] else items

mutual

/-- The items that become nodes, each before its parts. -/
def nodes : Item → List Item
  | .token field t => [.token field t]
  | .list field kind items =>
    .list field kind items :: if items.all isPlainToken then [] else nodesAll items

def nodesAll : List Item → List Item
  | [] => []
  | item :: items => nodes item ++ nodesAll items

end

/-- The text of an item without parts: its token, its tokens with a space between them, or the kind
of a list without items. -/
def spelled : Item → Text
  | .token _ t => t
  | .list _ kind [] => kind
  | .list _ _ items => join " " (items.filterMap tokenText?)

end Item

/-- A cell has a part for each part of its item, and without parts it covers the text of that. -/
def Describes (source : Text) (item : Item) (c : Cell) : Prop :=
  c.children.length = item.parts.length ∧
    (item.parts = [] → Covers source c.start c.stop item.spelled)

theorem leafText_eq_spelled (field : Option Text) (kind : Text) (items : List Item) :
    leafText kind items = (Item.list field kind items).spelled := by
  cases items <;> rfl

mutual

/-- The cells of an item describe the items that become nodes, in order. -/
theorem forall₂_describes_place {source : Text} : ∀ (item : Item) (p : Page) (id : Nat),
    (place p id item).1.text <+: source →
      List.Forall₂ (Describes source) item.nodes (place p id item).2
  | .token field t, p, id, h => by
    rw [place] at h ⊢
    rw [Item.nodes]
    exact .cons ⟨rfl, fun _ => covers_leaf p t false field t h⟩ .nil
  | .list field kind items, p, id, h => by
    rw [place] at h ⊢
    rw [Item.nodes]
    split at h
    · rename_i hplain
      rw [if_pos hplain, if_pos hplain]
      have hparts : (Item.list field kind items).parts = [] := if_pos hplain
      refine .cons ⟨by rw [hparts]; rfl, fun _ => ?_⟩ .nil
      rw [← leafText_eq_spelled]
      exact covers_leaf p kind true field _ h
    · rename_i hplain
      rw [if_neg hplain, if_neg hplain]
      have hparts : (Item.list field kind items).parts = items := if_neg hplain
      refine .cons ⟨?_, fun hnil => ?_⟩ (forall₂_describes_placeAll items p (id + 1) h)
      · rw [hparts]
        exact length_placeAll_ids items p (id + 1)
      · exact absurd (hparts.symm.trans hnil) (ne_nil_of_not_plain hplain)

theorem forall₂_describes_placeAll {source : Text} : ∀ (items : List Item) (p : Page) (id : Nat),
    (placeAll p id items).1.text <+: source →
      List.Forall₂ (Describes source) (Item.nodesAll items) (placeAll p id items).2.2
  | [], p, id, _ => by
    rw [placeAll, Item.nodesAll]
    exact .nil
  | item :: items, p, id, h => by
    rw [placeAll] at h ⊢
    rw [Item.nodesAll]
    exact List.rel_append
      (forall₂_describes_place item p id ((text_placeAll items _ _).trans h))
      (forall₂_describes_placeAll items _ _ h)

end

/-! ## Layouts -/

theorem forest_layout (item : Item) :
    ∃ c, Forest (Laid (layout item).source) 0 [0] [c] (layout item).cells := by
  obtain ⟨c, hforest, -⟩ := forest_place item {} 0 List.prefix_rfl
  exact ⟨c, hforest⟩

/-- A layout is well formed. -/
theorem wellFormed_layout (item : Item) : (layout item).WellFormed := by
  obtain ⟨c, hforest⟩ := forest_layout item
  exact ⟨hforest.preordered, by simpa using hforest.cell_property [] [] rfl⟩

/-- A layout loads, and its nodes by number are the subtree of the root. -/
theorem load_layout (item : Item) : ∃ tree, (layout item).load = .ok tree ∧
    tree.source = (layout item).source ∧ tree.root.subtree = (layout item).nodes := by
  obtain ⟨c, hforest⟩ := forest_layout item
  obtain ⟨root, rest, hnodes, hsubtree⟩ := hforest.nodes_eq_subtree
  have hfits : ∀ c ∈ (layout item).cells, c.fits (layout item).source = true := by
    intro c hc
    obtain ⟨_, hlaid, -⟩ := (wellFormed_layout item).laid c hc
    exact Cell.fits_iff.2 ⟨hlaid.ordered, hlaid.start_boundary, hlaid.stop_boundary⟩
  exact ⟨_, (Arena.load_eq_ok_iff hnodes).2 ⟨hfits, rfl⟩, rfl, hsubtree⟩

/-- A node has a part for each part of its item, and without parts it has the text of that. -/
def Spells (item : Item) (n : Node) : Prop :=
  n.children.length = item.parts.length ∧ (n.children = [] → n.text = item.spelled)

theorem spells_of_links {source : Text} {item : Item} {c : Cell} {n : Node}
    (hc : Describes source item c) (hn : Arena.Links source c n) : Spells item n := by
  obtain ⟨hlength, hcovers⟩ := hc
  obtain ⟨parts, rfl, hparts⟩ := hn
  refine ⟨hparts.trans hlength, fun hnil => ?_⟩
  have hzero : item.parts.length = 0 := by
    rw [← hlength, ← hparts]
    exact congrArg List.length hnil
  exact Cell.text_link (hcovers (List.length_eq_zero_iff.1 hzero)) parts

/-- The nodes of a layout spell the items that become nodes, in order. -/
theorem forall₂_spells_layout (item : Item) :
    List.Forall₂ Spells item.nodes (layout item).nodes := by
  have hcells : List.Forall₂ (Describes (layout item).source) item.nodes (layout item).cells :=
    forall₂_describes_place item {} 0 List.prefix_rfl
  refine forall₂_comp ?_ hcells (wellFormed_layout item).preordered.forall₂_nodes
  exact fun _ _ _ => spells_of_links

/-- Reading is reading an item, laying it out and loading that. -/
theorem readTree_sexp_eq (text : Text) : TreeFormat.sexp.readTree text =
    ((tokenize text >>= readItem).mapError ReadError.sexp >>= fun item =>
      (layout item).load.mapError .span) := by
  simp only [TreeFormat.readTree, TreeFormat.readArena, parse]
  cases tokenize text with
  | error e => rfl
  | ok tokens =>
    show _ = ((readItem tokens).mapError ReadError.sexp >>= _)
    cases h : readItem tokens <;> simp [h, bind, Except.bind, Except.mapError, pure, Except.pure]

/-- A text that spells an item is read as the tree of its layout. -/
theorem readTree_sexp_of_item {text : Text} {item : Item}
    (h : (tokenize text >>= readItem) = .ok item) :
    ∃ tree, (layout item).load = .ok tree ∧ TreeFormat.sexp.readTree text = .ok tree := by
  obtain ⟨tree, hload, -⟩ := load_layout item
  refine ⟨tree, hload, ?_⟩
  rw [readTree_sexp_eq, h]
  show (layout item).load.mapError ReadError.span = .ok tree
  rw [hload]
  rfl

/-- **Trees read from s-expressions are well formed.** A text is refused for an error in its tokens
or lists, and otherwise read as the tree of the item it spells; no span is refused and no tree is
empty. -/
theorem readTree_sexp_wellFormed (text : Text) :
    (∃ e, (tokenize text >>= readItem) = .error e ∧
      TreeFormat.sexp.readTree text = .error (.sexp e)) ∨
    ∃ item tree, (tokenize text >>= readItem) = .ok item ∧
      TreeFormat.sexp.readTree text = .ok tree ∧
      tree.source = (layout item).source ∧ (layout item).WellFormed ∧
      tree.root.subtree = (layout item).nodes ∧
      List.Forall₂ (Arena.Links tree.source) (layout item).cells tree.root.subtree ∧
      List.Forall₂ Spells item.nodes tree.root.subtree := by
  rw [readTree_sexp_eq]
  cases tokenize text >>= readItem with
  | error e => exact .inl ⟨e, rfl, rfl⟩
  | ok item =>
    obtain ⟨tree, hload, hsource, hsubtree⟩ := load_layout item
    refine .inr ⟨item, tree, rfl, ?_, hsource, wellFormed_layout item, hsubtree, ?_, ?_⟩
    · show (layout item).load.mapError ReadError.span = .ok tree
      rw [hload]
      rfl
    · rw [hsource, hsubtree]
      exact (wellFormed_layout item).preordered.forall₂_nodes
    · rw [hsubtree]
      exact forall₂_spells_layout item

end Sexp

end DesignFacts

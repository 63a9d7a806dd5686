import DesignFacts.Proofs.Sexp.Rendering
import DesignFacts.Proofs.Tree.Row

/-!
# The tree of an item

The tree of an item is laid out as numbered cells and then linked. This file builds the same tree by
going through the item, without numbers.

**Writing.** An item leaves the page in a state that does not depend on the numbers of its nodes
(`Item.write`).

**Growing.** Over a source that begins with the page, an item grows into a leaf, or into a node over
the nodes of its items (`Item.grow`, `trunk`). Equal items that begin at equal places of the page
therefore grow into equal nodes, whatever stands around them.

**Surroundings.** An item stands in lists, which have other items before and after it (`Hole`).
Items that are written alike can take each other's place, and then nothing around them moves.

Main result: the layout of an item loads as the tree that the item grows into
(`load_layout_eq_grow`).
-/

namespace DesignFacts

namespace Node

/-- Rows of nodes with the same nodes in them, in pre-order, are the same. -/
theorem subtrees_injective {ns ms : List Node} (h : subtrees ns = subtrees ms) : ns = ms := by
  induction ns generalizing ms with
  | nil =>
    cases ms with
    | nil => rfl
    | cons m ms =>
      rw [subtrees, subtrees, m.subtree_eq] at h
      cases h
  | cons n ns ih =>
    cases ms with
    | nil =>
      rw [subtrees, subtrees, n.subtree_eq] at h
      cases h
    | cons m ms =>
      have hroot : n = m := by
        rw [subtrees, subtrees, n.subtree_eq, m.subtree_eq] at h
        exact (List.cons.inj h).1
      subst hroot
      rw [subtrees, subtrees] at h
      rw [ih (List.append_cancel_left h)]

end Node

/-- Where a node lies: its first byte, its last byte and its row. -/
def Node.place (n : Node) : Nat × Nat × Nat := (n.start, n.stop, n.row)

/-- Where a cell lies. -/
def Cell.place (c : Cell) : Nat × Nat × Nat := (c.start, c.stop, c.row)

namespace Forest

variable {P : Cell → List Cell → Prop} {id : Nat} {ids : List Nat} {roots cells : List Cell}

theorem map_place_nodesFrom (source : Text) (id : Nat) (cells : List Cell) :
    (Arena.nodesFrom source id cells).map Node.place = cells.map Cell.place := by
  induction cells generalizing id with
  | nil => rfl
  | cons c cells ih => rw [Arena.nodesFrom, List.map_cons, List.map_cons, ih]; rfl

/-- If the nodes of a row are known, then they are the nodes that its numbers lead to, and they lie
where its roots lie. -/
theorem eq_of_nodesFrom (h : Forest P id ids roots cells) {source : Text} {post : List Cell}
    {ns : List Node} (hns : Arena.nodesFrom source id (cells ++ post) =
      Node.subtrees ns ++ Arena.nodesFrom source (id + cells.length) post) :
    ids.filterMap (fun i =>
        if id ≤ i then (Arena.nodesFrom source id (cells ++ post))[i - id]? else none) = ns ∧
      roots.map Cell.place = ns.map Node.place := by
  obtain ⟨ms, hms, hlookup⟩ := h.nodesFrom_append source post
  obtain rfl : ms = ns := Node.subtrees_injective (List.append_cancel_right (hms.symm.trans hns))
  refine ⟨hlookup, ?_⟩
  -- The cells say where the nodes lie that their numbers lead to.
  have hplaces : ids.map (fun i =>
      (Arena.nodesFrom source id (cells ++ post))[i - id]?.map Node.place) =
      roots.map fun c => some c.place := by
    have hcells := congrArg (List.map (Option.map Cell.place)) (h.getElem?_sub_ids post)
    rw [List.map_map, List.map_map] at hcells
    refine Eq.trans (List.map_congr_left fun i _ => ?_) hcells
    rw [← List.getElem?_map, map_place_nodesFrom, List.getElem?_map]
    rfl
  calc roots.map Cell.place
      = (roots.map fun c => some c.place).filterMap fun place => place := by
        rw [List.filterMap_map]
        exact (congrFun List.filterMap_eq_map roots).symm
    _ = ids.filterMap fun i =>
          (Arena.nodesFrom source id (cells ++ post))[i - id]?.map Node.place := by
        rw [← hplaces, List.filterMap_map]
        rfl
    _ = ms.map Node.place := by
        rw [← hlookup, List.map_filterMap]
        refine List.filterMap_congr fun i hi => ?_
        rw [if_pos (h.id_bounds i hi).1]

end Forest

namespace Sexp

open Text

/-! ## Writing -/

namespace Item

mutual

/-- The page after an item is written on it. -/
def write (p : Page) : Item → Page
  | .token _ t => p.token t
  | .list _ kind items =>
    if items.all isPlainToken then p.token (leafText kind items) else writeAll p items

/-- The page after a row of items is written on it. -/
def writeAll (p : Page) : List Item → Page
  | [] => p
  | item :: items => writeAll (write p item) items

end

theorem writeAll_append (p : Page) (as bs : List Item) :
    writeAll p (as ++ bs) = writeAll (writeAll p as) bs := by
  induction as generalizing p with
  | nil => rfl
  | cons a as ih => exact ih (write p a)

end Item

mutual

theorem place_fst : ∀ (item : Item) (p : Page) (id : Nat), (place p id item).1 = item.write p
  | .token field t, p, id => by rw [place, Item.write]
  | .list field kind items, p, id => by
    rw [place, Item.write]
    split
    · rfl
    · exact placeAll_fst items p (id + 1)

theorem placeAll_fst : ∀ (items : List Item) (p : Page) (id : Nat),
    (placeAll p id items).1 = Item.writeAll p items
  | [], p, id => by rw [placeAll, Item.writeAll]
  | item :: items, p, id => by
    rw [placeAll, Item.writeAll, ← place_fst item p id]
    exact placeAll_fst items _ _

end

theorem Item.text_write (item : Item) (p : Page) : p.text <+: (item.write p).text := by
  rw [← place_fst item p 0]
  exact text_place item p 0

theorem Item.text_writeAll (items : List Item) (p : Page) :
    p.text <+: (Item.writeAll p items).text := by
  rw [← placeAll_fst items p 0]
  exact text_placeAll items p 0

/-! ## Growing -/

/-- The node of a list over the nodes of its items. -/
def trunk (source : Text) (kind : Text) (field : Option Text) (parts : List Node) : Node :=
  let start := (parts.head?.map Node.start).getD 0
  { tag := String.ofList kind
    named := true
    field := field.map String.ofList
    start
    stop := (parts.getLast?.map Node.stop).getD start
    row := (parts.head?.map Node.row).getD 0
    ahead := (dropBytes? start source).getD []
    children := parts }

/-- Lists over rows that begin and end at the same places agree in all but their parts. -/
theorem bare_trunk_eq {ns ms : List Node}
    (hfirst : ns.head?.map (fun n => (n.start, n.row)) = ms.head?.map fun n => (n.start, n.row))
    (hlast : ns.getLast?.map Node.stop = ms.getLast?.map Node.stop) (source kind : Text)
    (field : Option Text) :
    (trunk source kind field ns).bare = (trunk source kind field ms).bare := by
  have hstart : ns.head?.map Node.start = ms.head?.map Node.start := by
    simpa [Function.comp_def] using congrArg (Option.map Prod.fst) hfirst
  have hrow : ns.head?.map Node.row = ms.head?.map Node.row := by
    simpa [Function.comp_def] using congrArg (Option.map Prod.snd) hfirst
  simp only [Node.bare, trunk, hstart, hrow, hlast]

/-- The text of a list begins with a piece of the source that ends before the list does. -/
theorem text_trunk {source pre piece rest kind : Text} {field : Option Text} {parts : List Node}
    {c d : Node} (hsource : pre ++ piece ++ rest = source) (hc : parts.head? = some c)
    (hd : parts.getLast? = some d) (hstart : c.start = bytes pre)
    (hstop : bytes pre + bytes piece ≤ d.stop) :
    (trunk source kind field parts).text =
      piece ++ takeBytes (d.stop - (bytes pre + bytes piece)) rest := by
  have hahead : dropBytes? (bytes pre) source = some (piece ++ rest) :=
    dropBytes?_eq_some_iff.2 ⟨pre, by rw [← hsource, List.append_assoc], rfl⟩
  have hlength : d.stop - bytes pre = bytes piece + (d.stop - (bytes pre + bytes piece)) := by omega
  simp only [trunk, Node.text, hc, hd, Option.map_some, Option.getD_some, hstart, hahead]
  rw [hlength, takeBytes_bytes_add]

namespace Item

mutual

/-- The node of an item that is written on a page. -/
def grow (source : Text) (p : Page) : Item → Node
  | .token field t => (leaf p t false field t).link source []
  | .list field kind items =>
    if items.all isPlainToken then (leaf p kind true field (leafText kind items)).link source []
    else trunk source kind field (growAll source p items)

/-- The nodes of a row of items that are written on a page. -/
def growAll (source : Text) (p : Page) : List Item → List Node
  | [] => []
  | item :: items => grow source p item :: growAll source (item.write p) items

end

theorem growAll_append (source : Text) (p : Page) (as bs : List Item) :
    growAll source p (as ++ bs) = growAll source p as ++ growAll source (writeAll p as) bs := by
  induction as generalizing p with
  | nil => rfl
  | cons a as ih => exact congrArg (grow source p a :: ·) (ih (a.write p))

theorem length_growAll (source : Text) (p : Page) (items : List Item) :
    (growAll source p items).length = items.length := by
  induction items generalizing p with
  | nil => rfl
  | cons item items ih => exact congrArg (· + 1) (ih (item.write p))

end Item

/-! ## Lists with lists in them -/

section Lists

variable {E : Item} {items : List Item} (hE : E ∈ items) (hlist : E.isList = true)

include hE hlist

theorem not_plain_of_mem : ¬ items.all Item.isPlainToken = true := by
  intro hplain
  have htoken := List.all_eq_true.1 hplain E hE
  cases E with
  | token => cases hlist
  | list => cases htoken

theorem write_list_of_mem (field : Option Text) (kind : Text) (p : Page) :
    (Item.list field kind items).write p = Item.writeAll p items := by
  rw [Item.write, if_neg (not_plain_of_mem hE hlist)]

theorem grow_list_of_mem (field : Option Text) (kind : Text) (source : Text) (p : Page) :
    (Item.list field kind items).grow source p =
      trunk source kind field (Item.growAll source p items) := by
  rw [Item.grow, if_neg (not_plain_of_mem hE hlist)]

end Lists

/-! ## What an item grows into -/

namespace Item

/-- The kind of node that an item grows into. -/
def kind : Item → Kind
  | token .. => .other
  | list _ kind _ => Kind.ofTag (String.ofList kind)

/-- Whether an item is the given token, in any letter case. -/
def isWordToken (word : String) : Item → Bool
  | token _ t => isWord t word
  | list .. => false

variable (source : Text) (p : Page) (item : Item)

@[simp] theorem named_grow : (item.grow source p).named = item.isList := by
  cases item with
  | token => rfl
  | list field kind items =>
    rw [grow]
    split <;> rfl

@[simp] theorem field_grow : (item.grow source p).field = item.field.map String.ofList := by
  cases item with
  | token => rfl
  | list field kind items =>
    rw [grow]
    split <;> rfl

@[simp] theorem kind_grow : (item.grow source p).kind = item.kind := by
  cases item with
  | token => rfl
  | list field kind items =>
    rw [grow]
    split <;> rfl

variable {source} {p} {item}

theorem text_grow_token {field : Option Text} {t : Text} (h : (p.token t).text <+: source) :
    ((token field t).grow source p).text = t :=
  Cell.text_link (covers_leaf p t false field t h) []

theorem isToken_grow (h : (item.write p).text <+: source) (word : String) :
    (item.grow source p).isToken word = item.isWordToken word := by
  cases item with
  | token field t => exact congrArg (isWord · word) (text_grow_token h)
  | list field kind items => rw [Node.isToken, named_grow]; rfl

theorem any_growAll {f : Node → Bool} {g : Item → Bool}
    (hf : ∀ (item : Item) (q : Page), f (item.grow source q) = g item) (p : Page)
    (items : List Item) : (growAll source p items).any f = items.any g := by
  induction items generalizing p with
  | nil => rfl
  | cons item items ih => rw [growAll, List.any_cons, List.any_cons, hf, ih]

/-- The nodes of a row before a token have grown from the items before it. -/
theorem takeWhile_isToken_growAll {items : List Item} (h : (writeAll p items).text <+: source)
    (word : String) :
    (growAll source p items).takeWhile (fun c => !c.isToken word) =
      growAll source p (items.takeWhile fun item => !item.isWordToken word) := by
  induction items generalizing p with
  | nil => rfl
  | cons item items ih =>
    rw [writeAll] at h
    rw [growAll, List.takeWhile_cons, List.takeWhile_cons,
      isToken_grow ((text_writeAll items _).trans h), ih h]
    split <;> rfl

/-- A node of a row has grown from an item of it. -/
theorem exists_of_mem_growAll {items : List Item} {c : Node} (hc : c ∈ growAll source p items) :
    ∃ item ∈ items, ∃ q, (item.write q).text <+: (writeAll p items).text ∧
      c = item.grow source q := by
  induction items generalizing p with
  | nil => cases hc
  | cons item items ih =>
    rw [growAll] at hc
    rcases List.mem_cons.1 hc with rfl | hc
    · exact ⟨item, List.mem_cons_self, p, text_writeAll items (item.write p), rfl⟩
    · obtain ⟨i, hi, q, hq, rfl⟩ := ih hc
      exact ⟨i, List.mem_cons_of_mem item hi, q, hq, rfl⟩

end Item

/-! ## Surroundings -/

/-- A list with one of its items left out. -/
structure Hole where
  field : Option Text
  kind : Text
  before : List Item
  after : List Item

namespace Hole

/-- The item with the given lists around it, the outermost first. -/
def fill (item : Item) : List Hole → Item
  | [] => item
  | hole :: around =>
    .list hole.field hole.kind (hole.before ++ fill item around :: hole.after)

/-- The page on which the item is written. -/
def page (p : Page) : List Hole → Page
  | [] => p
  | hole :: around => page (Item.writeAll p hole.before) around

/-- The node that stands where the item is left out. -/
def node? : List Hole → Node → Option Node
  | [], n => some n
  | hole :: around, n => n.children[hole.before.length]?.bind (node? around)

variable {item item' : Item}

theorem isList_fill (h : item.isList = true) (around : List Hole) :
    (fill item around).isList = true := by
  cases around with
  | nil => exact h
  | cons hole around => rfl

theorem not_plain_fill (h : item.isList = true) (hole : Hole) (around : List Hole) :
    ¬ (hole.before ++ fill item around :: hole.after).all Item.isPlainToken = true :=
  not_plain_of_mem (by simp) (isList_fill h around)

theorem write_fill_cons (h : item.isList = true) (hole : Hole) (around : List Hole) (p : Page) :
    (fill item (hole :: around)).write p = Item.writeAll
      ((fill item around).write (Item.writeAll p hole.before)) hole.after := by
  rw [fill, Item.write, if_neg (not_plain_fill h hole around), Item.writeAll_append, Item.writeAll]

theorem grow_fill_cons (h : item.isList = true) (hole : Hole) (around : List Hole) (source : Text)
    (p : Page) :
    (fill item (hole :: around)).grow source p = trunk source hole.kind hole.field
      (Item.growAll source p hole.before ++
        (fill item around).grow source (Item.writeAll p hole.before) ::
          Item.growAll source ((fill item around).write (Item.writeAll p hole.before))
            hole.after) := by
  rw [fill, Item.grow, if_neg (not_plain_fill h hole around), Item.growAll_append, Item.growAll]

/-- Items that are written alike are written alike in the same surroundings. -/
theorem write_fill_eq (h : item.isList = true) (h' : item'.isList = true)
    (hwrite : ∀ p, item'.write p = item.write p) (around : List Hole) (p : Page) :
    (fill item' around).write p = (fill item around).write p := by
  induction around generalizing p with
  | nil => exact hwrite p
  | cons hole around ih => rw [write_fill_cons h, write_fill_cons h', ih]

theorem text_write_page (h : item.isList = true) (around : List Hole) (p : Page) :
    (item.write (page p around)).text <+: ((fill item around).write p).text := by
  induction around generalizing p with
  | nil => exact List.prefix_rfl
  | cons hole around ih =>
    rw [write_fill_cons h]
    exact (ih _).trans (Item.text_writeAll hole.after _)

/-- The item grows into the node that stands where it was put. -/
theorem node?_grow_fill (h : item.isList = true) (around : List Hole) (source : Text) (p : Page) :
    node? around ((fill item around).grow source p) = some (item.grow source (page p around)) := by
  induction around generalizing p with
  | nil => rfl
  | cons hole around ih =>
    rw [grow_fill_cons h, node?]
    show (_ : Option Node).bind _ = _
    simp only [trunk]
    rw [List.getElem?_append_right (by rw [Item.length_growAll]), Item.length_growAll, Nat.sub_self]
    exact ih _

end Hole

/-! ## Layouts -/

/-- Linking the cell of a list to the nodes of its items gives its trunk. -/
theorem link_branch {source : Text} {p : Page} {kind : Text} {field : Option Text} {first : Nat}
    {ids : List Nat} {roots below : List Cell} {parts : List Node}
    (hforest : Forest (Laid source) first ids roots below)
    (hplaces : roots.map Cell.place = parts.map Node.place) (hne : parts ≠ []) :
    (branch p kind field first ids below).link source parts = trunk source kind field parts := by
  obtain ⟨d, hd⟩ := Option.ne_none_iff_exists'.1 (mt List.head?_eq_none_iff.1 hne)
  obtain ⟨e, he⟩ := Option.ne_none_iff_exists'.1 (mt List.getLast?_eq_none_iff.1 hne)
  have hhead : (roots.head?.map Cell.place) = some d.place := by
    rw [← List.head?_map, hplaces, List.head?_map, hd, Option.map_some]
  have hlast : (roots.getLast?.map Cell.place) = some e.place := by
    rw [← List.getLast?_map, hplaces, List.getLast?_map, he, Option.map_some]
  obtain ⟨c, hc, hcd⟩ := Option.map_eq_some_iff.1 hhead
  obtain ⟨b, hb, hbe⟩ := Option.map_eq_some_iff.1 hlast
  simp only [Cell.place, Node.place, Prod.mk.injEq] at hcd hbe
  simp only [branch, Cell.link, trunk, hforest.getElem?_head, hforest.getElem?_last, hc, hb, hd, he,
    Option.map_some, Option.getD_some, hcd, hbe]

mutual

/-- Linked by number, the cells of an item are the nodes of the tree that it grows into. -/
theorem nodesFrom_place {source : Text} : ∀ (item : Item) (p : Page) (id : Nat) (post : List Cell),
    (item.write p).text <+: source →
      Arena.nodesFrom source id ((place p id item).2 ++ post) =
        (item.grow source p).subtree ++
          Arena.nodesFrom source (id + (place p id item).2.length) post
  | .token field t, p, id, post, h => by
    rw [place, Item.grow, Forest.subtree_link]
    rfl
  | .list field kind items, p, id, post, h => by
    rw [Item.write] at h
    rw [place, Item.grow]
    split at h
    · rename_i hplain
      rw [if_pos hplain, if_pos hplain, Forest.subtree_link]
      rfl
    · rename_i hplain
      have hitems := nodesFrom_placeAll items p (id + 1) post h
      have htext : (placeAll p (id + 1) items).1.text <+: source := by rwa [placeAll_fst]
      -- The parts form a row of trees, so the numbers in the cell of the list lead to them.
      obtain ⟨roots, hforest, -⟩ := forest_placeAll items p (id + 1) htext
      obtain ⟨hlookup, hplaces⟩ := hforest.eq_of_nodesFrom hitems
      have hne : Item.growAll source p items ≠ [] := by
        rw [← List.length_pos_iff, Item.length_growAll, List.length_pos_iff]
        exact ne_nil_of_not_plain hplain
      have hshift : id + ((placeAll p (id + 1) items).2.2.length + 1) =
          id + 1 + (placeAll p (id + 1) items).2.2.length := by omega
      rw [if_neg hplain, if_neg hplain, List.cons_append, Arena.nodesFrom, List.length_cons,
        hshift, Node.subtree_eq, List.cons_append]
      refine congrArg₂ List.cons ?_ hitems
      rw [← link_branch hforest hplaces hne]
      exact congrArg (Cell.link source _) hlookup

theorem nodesFrom_placeAll {source : Text} :
    ∀ (items : List Item) (p : Page) (id : Nat) (post : List Cell),
    (Item.writeAll p items).text <+: source →
      Arena.nodesFrom source id ((placeAll p id items).2.2 ++ post) =
        Node.subtrees (Item.growAll source p items) ++
          Arena.nodesFrom source (id + (placeAll p id items).2.2.length) post
  | [], p, id, post, _ => by
    rw [placeAll, Item.growAll]
    rfl
  | item :: items, p, id, post, h => by
    rw [Item.writeAll] at h
    have hcells : (placeAll p id (item :: items)).2.2 = (place p id item).2 ++
        (placeAll (item.write p) (id + (place p id item).2.length) items).2.2 := by
      rw [placeAll, ← place_fst item p id]
    rw [hcells, Item.growAll, Node.subtrees, List.append_assoc,
      nodesFrom_place item p id _ ((Item.text_writeAll items _).trans h),
      nodesFrom_placeAll items (item.write p) _ post h, List.append_assoc, List.length_append,
      Nat.add_assoc]

end

/-- In a row that is written on a page, the first node ends no later than the last one. -/
theorem stop_le_stop_growAll {source : Text} {items : List Item} {p : Page}
    (htext : (Item.writeAll p items).text <+: source) {c d : Node}
    (hc : (Item.growAll source p items).head? = some c)
    (hd : (Item.growAll source p items).getLast? = some d) : c.stop ≤ d.stop := by
  have hplaced : (placeAll p 0 items).1.text <+: source := by rwa [placeAll_fst]
  obtain ⟨roots, hforest, hbetween⟩ := forest_placeAll items p 0 hplaced
  obtain ⟨-, hplaces⟩ := hforest.eq_of_nodesFrom (nodesFrom_placeAll items p 0 [] htext)
  have hhead : roots.head?.map Cell.place = some c.place := by
    rw [← List.head?_map, hplaces, List.head?_map, hc, Option.map_some]
  have hlast : roots.getLast?.map Cell.place = some d.place := by
    rw [← List.getLast?_map, hplaces, List.getLast?_map, hd, Option.map_some]
  obtain ⟨a, ha, hac⟩ := Option.map_eq_some_iff.1 hhead
  obtain ⟨b, hb, hbd⟩ := Option.map_eq_some_iff.1 hlast
  simp only [Cell.place, Node.place, Prod.mk.injEq] at hac hbd
  rw [← hac.2.1, ← hbd.2.1]
  obtain ⟨rest, rfl⟩ := List.head?_eq_some_iff.1 ha
  cases rest with
  | nil =>
    obtain rfl : a = b := by simpa using hb
    exact Nat.le_refl _
  | cons e rest =>
    have hstart : a.stop ≤ e.start := hbetween.2.2.1
    exact hstart.trans (hbetween.2.2.last (by simpa [List.getLast?_cons_cons] using hb)).1

/-- The layout of an item loads as the tree that the item grows into. -/
theorem load_layout_eq_grow (item : Item) :
    (layout item).load =
      .ok { source := (item.write {}).text, root := item.grow (item.write {}).text {} } := by
  have hsource : (layout item).source = (item.write {}).text := by
    rw [← place_fst item {} 0]
    rfl
  have hnodes : (layout item).nodes = (item.grow (item.write {}).text {}).subtree := by
    have hplace := nodesFrom_place item {} 0 [] (List.prefix_refl (item.write {}).text)
    rw [List.append_nil, ← hsource] at hplace
    rw [← hsource]
    exact hplace.trans (List.append_nil _)
  obtain ⟨tree, hload, htree, hsubtree⟩ := load_layout item
  have hroot : tree.root = item.grow (item.write {}).text {} := by
    rw [hnodes, Node.subtree_eq, Node.subtree_eq] at hsubtree
    exact (List.cons.inj hsubtree).1
  rw [hload, ← hroot, ← hsource, ← htree]

end Sexp

end DesignFacts

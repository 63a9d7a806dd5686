import DesignFacts.Proofs.LetterCase.Text
import DesignFacts.Proofs.Tree.Row
import DesignFacts.Tree.Arena

/-!
# Letter case of trees

A tree over a source in small letters: the same nodes at the same places, and every node covers the
small letters of its text.

**Nodes.** Kinds, lines, fields and tokens stay, so the parts of a node that are selected by these
are selected at the same places. Texts become small.

**Arenas.** Making the source of an arena small before it is loaded gives the small tree, and the
same error if it is no tree.

Main result: `Arena.load_lower`.
-/

namespace DesignFacts

open Text

namespace Node

/-! ## Nodes in small letters -/

mutual

/-- The node over the source in small letters. -/
def lower : Node → Node
  | ⟨tag, named, field, start, stop, row, ahead, children⟩ =>
    ⟨tag, named, field, start, stop, row, Text.lower ahead, lowerAll children⟩

def lowerAll : List Node → List Node
  | [] => []
  | n :: ns => lower n :: lowerAll ns

end

theorem lowerAll_eq_map (ns : List Node) : lowerAll ns = ns.map lower := by
  induction ns with
  | nil => rfl
  | cons n ns ih => rw [lowerAll, ih, List.map_cons]

variable (n : Node)

@[simp] theorem tag_lower : n.lower.tag = n.tag := by cases n; rfl

@[simp] theorem named_lower : n.lower.named = n.named := by cases n; rfl

@[simp] theorem field_lower : n.lower.field = n.field := by cases n; rfl

@[simp] theorem start_lower : n.lower.start = n.start := by cases n; rfl

@[simp] theorem stop_lower : n.lower.stop = n.stop := by cases n; rfl

@[simp] theorem row_lower : n.lower.row = n.row := by cases n; rfl

@[simp] theorem ahead_lower : n.lower.ahead = Text.lower n.ahead := by cases n; rfl

@[simp] theorem children_lower : n.lower.children = n.children.map lower := by
  cases n
  exact lowerAll_eq_map _

@[simp] theorem kind_lower : n.lower.kind = n.kind := by simp [kind]

@[simp] theorem text_lower : n.lower.text = Text.lower n.text := by simp [text]

@[simp] theorem textThrough_lower (last : Node) :
    n.lower.textThrough last.lower = Text.lower (n.textThrough last) := by
  simp [textThrough]

@[simp] theorem spanText_lower (ns : List Node) :
    spanText (ns.map lower) = (spanText ns).map Text.lower := by
  simp only [spanText, List.head?_map, List.getLast?_map]
  cases ns.head? <;> cases ns.getLast? <;> simp

@[simp] theorem trimmed_lower : n.lower.trimmed = Text.lower n.trimmed := by simp [trimmed]

@[simp] theorem isToken_lower (word : String) : n.lower.isToken word = n.isToken word := by
  simp [isToken]

@[simp] theorem line_lower : n.lower.line = n.line := by simp [line]

@[simp] theorem isFar_lower : n.lower.isFar = n.isFar := by simp [isFar]

@[simp] theorem isUnder_lower (field : String) : n.lower.isUnder field = n.isUnder field := by
  simp [isUnder]

@[simp] theorem isComment_lower : n.lower.isComment = n.isComment := by simp [isComment]

/-! ## Children and descendants -/

@[simp] theorem namedChildren_lower : n.lower.namedChildren = n.namedChildren.map lower := by
  simp [namedChildren, List.filter_map, Function.comp_def]

@[simp] theorem operandChildren_lower :
    n.lower.operandChildren = n.operandChildren.map lower := by
  simp [operandChildren, List.filter_map, Function.comp_def]

@[simp] theorem childUnder_lower (field : String) :
    n.lower.childUnder field = (n.childUnder field).map lower := by
  simp only [childUnder, children_lower, List.find?_map, Function.comp_def, isUnder_lower]

@[simp] theorem childOfKind_lower (kind : Kind) :
    n.lower.childOfKind kind = (n.childOfKind kind).map lower := by
  simp only [childOfKind, namedChildren_lower, List.find?_map, Function.comp_def, kind_lower]

theorem splitAt?_lower (p : Node → Bool) (ns : List Node) :
    splitAt? p (ns.map lower) =
      (splitAt? (p ∘ lower) ns).map (Prod.map (List.map lower) (List.map lower)) :=
  splitAt?_map lower p ns

@[simp] theorem splitAt?_isToken_lower (word : String) (ns : List Node) :
    splitAt? (·.isToken word) (ns.map lower) =
      (splitAt? (·.isToken word) ns).map (Prod.map (List.map lower) (List.map lower)) := by
  simp only [splitAt?_lower, Function.comp_def, isToken_lower]

mutual

theorem subtree_lower : ∀ n : Node, n.lower.subtree = n.subtree.map lower
  | ⟨tag, named, field, start, stop, row, ahead, children⟩ => by
    simp only [lower, subtree, List.map_cons, ← subtrees_lower children, lowerAll_eq_map]

theorem subtrees_lower : ∀ ns : List Node, subtrees (ns.map lower) = (subtrees ns).map lower
  | [] => rfl
  | n :: ns => by
    simp only [List.map_cons, subtrees, List.map_append, subtree_lower n, subtrees_lower ns]

end

attribute [simp] subtree_lower

@[simp] theorem descendants_lower : n.lower.descendants = n.descendants.map lower := by
  rw [descendants, children_lower, subtrees_lower, descendants]

mutual

theorem collect_lower (kind : Kind) : ∀ n : Node, collect kind n.lower = (collect kind n).map lower
  | ⟨tag, named, field, start, stop, row, ahead, children⟩ => by
    simp only [lower, collect, lowerAll_eq_map, collectAll_lower kind children]

theorem collectAll_lower (kind : Kind) :
    ∀ ns : List Node, collectAll kind (ns.map lower) = (collectAll kind ns).map lower
  | [] => rfl
  | n :: ns => by
    simp only [List.map_cons, collectAll, named_lower, kind_lower, collect_lower kind n,
      collectAll_lower kind ns, List.map_append]
    congr 1
    split
    · rfl
    · split <;> rfl

end

attribute [simp] collect_lower

end Node

/-! ## Arenas in small letters -/

/-- The tree over the source in small letters. -/
def Tree.lower (t : Tree) : Tree where
  source := Text.lower t.source
  root := t.root.lower

namespace Arena

/-- The same nodes over the source in small letters. -/
def lower (a : Arena) : Arena := { a with source := Text.lower a.source }

theorem fits_lower (source : Text) (c : Cell) : c.fits (Text.lower source) = c.fits source := by
  simp only [Cell.fits, dropBytes?_lower]
  cases dropBytes? c.start source <;> simp

theorem link_lower (source : Text) (c : Cell) (parts : List Node) :
    c.link (Text.lower source) (parts.map Node.lower) = (c.link source parts).lower := by
  rw [Cell.link, Cell.link, Node.lower, Node.lowerAll_eq_map, dropBytes?_lower]
  cases dropBytes? c.start source <;> rfl

theorem nodesFrom_lower (source : Text) (first : Nat) (cells : List Cell) :
    nodesFrom (Text.lower source) first cells = (nodesFrom source first cells).map Node.lower := by
  induction cells generalizing first with
  | nil => rfl
  | cons c cells ih =>
    rw [nodesFrom, nodesFrom, ih, List.map_cons, ← link_lower, List.map_filterMap]
    congr 3
    funext i
    split <;> simp

/-- Loading an arena with its source in small letters gives the tree in small letters. -/
theorem load_lower (a : Arena) : a.lower.load = a.load.map Tree.lower := by
  have hmisfit : a.lower.firstMisfit = a.firstMisfit := by
    simp [firstMisfit, lower, fits_lower]
  have hnodes : a.lower.nodes = a.nodes.map Node.lower := nodesFrom_lower a.source 0 a.cells
  rw [load, load, hmisfit, hnodes]
  cases a.firstMisfit with
  | some e => rfl
  | none => cases a.nodes <;> rfl

end Arena

end DesignFacts

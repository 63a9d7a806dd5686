import DesignFacts.Text.Numeral
import DesignFacts.Tree.Kind

/-!
# Syntax trees

A concrete syntax tree over one source text. A node is named (a construct of the grammar) or
anonymous (a keyword or punctuation token), may be stored under a field of its parent, and covers
the bytes from `start` to `stop` of the source. It keeps the source from its first byte on
(`ahead`), so its own text, and the text from it through any later node, are at hand without the
whole source.
-/

namespace DesignFacts

/-- A node of a syntax tree. -/
structure Node where
  /-- The grammar's tag, or the text of an anonymous token. -/
  tag : String
  /-- Whether the node is a construct of the grammar and no bare token. -/
  named : Bool
  /-- The field of the parent that holds the node. -/
  field : Option String
  /-- The byte offset at which the node starts. -/
  start : Nat
  /-- The byte offset at which the node ends. -/
  stop : Nat
  /-- The row of the first byte, from 0. -/
  row : Nat
  /-- The source from the first byte of the node on. -/
  ahead : Text
  /-- The parts of the node in source order. -/
  children : List Node

/-- A syntax tree: a source text and the node that covers it. -/
structure Tree where
  source : Text
  root : Node

namespace Node

open Text

/-- The kind of a node. Tokens are of kind `other`, whatever they spell. -/
def kind (n : Node) : Kind := if n.named then Kind.ofTag n.tag else .other

/-- The source text that a node covers. -/
def text (n : Node) : Text := takeBytes (n.stop - n.start) n.ahead

/-- The source text from the start of a node to the end of another one, empty if that end comes
before the start. -/
def textThrough (n last : Node) : Text := takeBytes (last.stop - n.start) n.ahead

/-- The squashed text from the first through the last of some nodes. -/
def spanText (ns : List Node) : Option Text :=
  match ns.head?, ns.getLast? with
  | some first, some last => some (squash (first.textThrough last))
  | _, _ => none

/-- The text of a node without blanks around it. -/
def trimmed (n : Node) : Text := trim n.text

/-- Whether a node is the given token, in any letter case. -/
def isToken (n : Node) (word : String) : Bool := !n.named && isWord n.text word

/-- The line on which a node starts, from 1. -/
def line (n : Node) : Nat := n.row + 1

/-- Whether the line of a node is beyond what a 64-bit word can count. -/
def isFar (n : Node) : Bool := Numeral.word64 ≤ n.line

/-- Whether a node is stored under the given field. -/
def isUnder (n : Node) (field : String) : Bool := n.field == some field

def isComment (n : Node) : Bool := n.kind == .comment

/-! ## Children -/

/-- The constructs among the children of a node. -/
def namedChildren (n : Node) : List Node := n.children.filter (·.named)

/-- The constructs among the children of a node that are no comments. -/
def operandChildren (n : Node) : List Node := n.namedChildren.filter fun c => !c.isComment

/-- The first child that a node stores under a field. -/
def childUnder (n : Node) (field : String) : Option Node := n.children.find? (·.isUnder field)

/-- The first construct of a kind among the children of a node. -/
def childOfKind (n : Node) (kind : Kind) : Option Node := n.namedChildren.find? (·.kind == kind)

/-- The children of a node before its first child with a property, and those after it, if there
is such a child. -/
def splitAt? (p : Node → Bool) : List Node → Option (List Node × List Node)
  | [] => none
  | c :: cs =>
    if p c then some ([], cs) else (splitAt? p cs).map fun (left, right) => (c :: left, right)

theorem mem_of_mem_splitAt? {p : Node → Bool} {cs left right : List Node}
    (h : splitAt? p cs = some (left, right)) : ∀ c ∈ left ++ right, c ∈ cs := by
  induction cs generalizing left right with
  | nil => simp [splitAt?] at h
  | cons x xs ih =>
    simp only [splitAt?] at h
    split at h
    · cases h
      intro c hc
      exact List.mem_cons_of_mem _ (by simpa using hc)
    · simp only [Option.map_eq_some_iff, Prod.exists, Prod.mk.injEq] at h
      obtain ⟨l, r, hs, rfl, rfl⟩ := h
      intro c hc
      simp only [List.cons_append, List.mem_cons] at hc
      rcases hc with rfl | hc
      · exact List.mem_cons_self
      · exact List.mem_cons_of_mem _ (ih hs c hc)

theorem splitAt?_right_sublist {p : Node → Bool} {cs : List Node} {sides : List Node × List Node}
    (h : splitAt? p cs = some sides) : sides.2.Sublist cs := by
  induction cs generalizing sides with
  | nil => simp [splitAt?] at h
  | cons x xs ih =>
    simp only [splitAt?] at h
    split at h
    · cases h
      exact List.sublist_cons_self x xs
    · simp only [Option.map_eq_some_iff] at h
      obtain ⟨inner, hs, rfl⟩ := h
      exact (ih hs).cons x

/-! ## Descendants -/

mutual

/-- A node and all nodes under it, each before its children. -/
def subtree : Node → List Node
  | ⟨tag, named, field, start, stop, row, ahead, children⟩ =>
    ⟨tag, named, field, start, stop, row, ahead, children⟩ :: subtrees children

/-- The nodes of several trees, one tree after another. -/
def subtrees : List Node → List Node
  | [] => []
  | n :: ns => subtree n ++ subtrees ns

end

theorem subtree_eq (n : Node) : n.subtree = n :: subtrees n.children := by
  cases n
  rw [subtree]

theorem subtrees_eq_flatMap (ns : List Node) : subtrees ns = ns.flatMap subtree := by
  induction ns with
  | nil => rfl
  | cons n ns ih => rw [subtrees, ih, List.flatMap_cons]

theorem subtrees_append (ns ms : List Node) : subtrees (ns ++ ms) = subtrees ns ++ subtrees ms := by
  simp only [subtrees_eq_flatMap, List.flatMap_append]

theorem mem_subtree_self (n : Node) : n ∈ n.subtree := by
  rw [subtree_eq]
  exact List.mem_cons_self

theorem mem_subtree_of_mem_children {n c m : Node} (hc : c ∈ n.children) (hm : m ∈ c.subtree) :
    m ∈ n.subtree := by
  rw [subtree_eq, subtrees_eq_flatMap]
  exact List.mem_cons_of_mem n (List.mem_flatMap.2 ⟨c, hc, hm⟩)

/-- The nodes under a node, each before its children. -/
def descendants (n : Node) : List Node := subtrees n.children

mutual

/-- Constructs of one kind under some nodes, found without looking inside those found. -/
def collect (kind : Kind) : Node → List Node
  | ⟨_, _, _, _, _, _, _, children⟩ => collectAll kind children

/-- The constructs of one kind among some nodes and below those that are of another kind. -/
def collectAll (kind : Kind) : List Node → List Node
  | [] => []
  | n :: ns =>
    (if !n.named then [] else if n.kind == kind then [n] else collect kind n)
      ++ collectAll kind ns

end

theorem collect_eq (kind : Kind) (n : Node) : collect kind n = collectAll kind n.children := by
  cases n
  rfl

/-! ## Size -/

theorem sizeOf_lt_of_mem_children {n c : Node} (h : c ∈ n.children) : sizeOf c < sizeOf n := by
  have := List.sizeOf_lt_of_mem h
  cases n
  simp_all
  omega

theorem mem_subtree_trans {n m k : Node} (hm : m ∈ n.subtree) (hk : k ∈ m.subtree) :
    k ∈ n.subtree := by
  rw [subtree_eq, subtrees_eq_flatMap, List.mem_cons, List.mem_flatMap] at hm
  rcases hm with rfl | ⟨c, hc, hm⟩
  · exact hk
  · have hlt := sizeOf_lt_of_mem_children hc
    exact mem_subtree_of_mem_children hc (mem_subtree_trans hm hk)
termination_by sizeOf n

theorem mem_children_of_mem_namedChildren {n c : Node} (h : c ∈ n.namedChildren) :
    c ∈ n.children :=
  (List.mem_filter.1 h).1

theorem mem_children_of_mem_operandChildren {n c : Node} (h : c ∈ n.operandChildren) :
    c ∈ n.children :=
  mem_children_of_mem_namedChildren (List.mem_filter.1 h).1

theorem mem_children_of_childUnder {n c : Node} {field : String}
    (h : n.childUnder field = some c) : c ∈ n.children :=
  List.mem_of_find?_eq_some h

mutual

theorem sizeOf_lt_of_mem_collect (kind : Kind) :
    ∀ (n : Node), ∀ c ∈ collect kind n, sizeOf c < sizeOf n
  | ⟨_, _, _, _, _, _, _, children⟩, c, h => by
    have := sizeOf_lt_of_mem_collectAll kind children c h
    simp only [Node.mk.sizeOf_spec]
    omega

theorem sizeOf_lt_of_mem_collectAll (kind : Kind) :
    ∀ (ns : List Node), ∀ c ∈ collectAll kind ns, sizeOf c < sizeOf ns
  | [], c, h => by simp [collectAll] at h
  | n :: ns, c, h => by
    simp only [collectAll, List.mem_append] at h
    simp only [List.cons.sizeOf_spec]
    rcases h with h | h
    · split at h
      · simp at h
      · split at h
        · simp only [List.mem_singleton] at h
          subst h
          omega
        · have := sizeOf_lt_of_mem_collect kind n c h
          omega
    · have := sizeOf_lt_of_mem_collectAll kind ns c h
      omega

end

end Node

end DesignFacts

import DesignFacts.Name.Lookup
import DesignFacts.Tree.Node

/-!
# Resolving names

A name is an identifier to which selections (`rec.field`), arguments (`mem(3)`, `f(a)`) and
attributes (`clk'event`) are applied. `NameView` shows the outermost application of a name and the
head it is applied to; resolving goes from head to head down to the root. The `base` of the result
is the root identifier, its `path` adds the selected suffixes, and the flags say what else was
applied. Where the grammar did not split a name, its text is split instead.

`f(a)` may be a call or an element of `f`; it is taken for a call unless the base is declared.
-/

namespace DesignFacts

open Text

structure ResolvedName where
  /-- The root identifier. -/
  base : Text
  /-- The dotted path without indices. -/
  path : Text
  /-- Whether arguments are applied anywhere. -/
  isIndexed : Bool := false
  /-- Whether an attribute is applied anywhere. -/
  isAttribute : Bool := false
  /-- Whether it looks like a call: arguments of a bare name that is not declared. -/
  isCall : Bool := false
  /-- The outermost attribute. -/
  designator : Option Text := none
  /-- The texts of the arguments. -/
  indices : List Text := []
  line : Nat

/-- The last segment of a resolved path. -/
def ResolvedName.lastSegment (r : ResolvedName) : Text := afterLast '.' r.path

namespace Node

/-! ## Parts of a name -/

/-- The place among the children of the head of a name: the child under `prefix`, else the one
under `name`, else the first construct. -/
def headIndex? (n : Node) : Option Nat :=
  (n.children.findIdx? (·.isUnder "prefix")).or
    ((n.children.findIdx? (·.isUnder "name")).or (n.children.findIdx? (·.named)))

/-- The head of a name: what an index or an attribute is applied to. -/
def head? (n : Node) : Option Node := n.headIndex?.bind fun i => n.children[i]?

/-- The head of a name, if it is a name itself. -/
def nameHead? (n : Node) : Option Node := n.head?.filter fun h => h.kind.isName

/-- The head of a selection: the child under `prefix`, else the first construct. -/
def selectedHead? (n : Node) : Option Node := (n.childUnder "prefix").or n.namedChildren.head?

/-- The suffix of a selection: the child under `suffix`, else the last construct. -/
def suffix? (n : Node) : Option Node := (n.childUnder "suffix").or n.namedChildren.getLast?

theorem mem_children_of_head? {n h : Node} (eq : n.head? = some h) : h ∈ n.children := by
  simp only [head?, Option.bind_eq_some_iff] at eq
  obtain ⟨i, _, hi⟩ := eq
  exact List.mem_of_getElem? hi

theorem mem_children_of_nameHead? {n h : Node} (eq : n.nameHead? = some h) : h ∈ n.children :=
  mem_children_of_head? (Option.filter_eq_some_iff.1 eq).1

theorem mem_children_of_selectedHead? {n h : Node} (eq : n.selectedHead? = some h) :
    h ∈ n.children := by
  simp only [selectedHead?, Option.or_eq_some_iff] at eq
  rcases eq with eq | ⟨_, eq⟩
  · exact mem_children_of_childUnder eq
  · exact mem_children_of_mem_namedChildren (List.mem_of_head? eq)

/-- Whether a node only groups the arguments of a name. -/
def isArgumentList (n : Node) : Bool :=
  n.kind == .other &&
    (n.tag.endsWith "_list" || n.tag == "arguments" || n.tag == "actual_parameter_part"
      || n.tag == "index_constraint")

/-- The constructs among the children of a name that are neither its head nor comments. -/
def besideHead (n : Node) : List Node :=
  ((n.children.zipIdx.filter fun (c, i) => c.named && n.headIndex? != some i)
    |>.map Prod.fst).filter fun c => !c.isComment

/-- The arguments that a name applies to its head. -/
def ownArguments (n : Node) : List Node :=
  n.besideHead.flatMap fun c => if c.isArgumentList then c.namedChildren else [c]

/-- The arguments of a name: those applied in its head first, then its own. -/
def arguments (n : Node) : List Node :=
  let inner := match _h : n.nameHead? with
    | some head => arguments head
    | none => []
  if n.kind.isIndexed then inner ++ n.ownArguments
  else if n.kind == .selectedName then inner
  else []
termination_by sizeOf n
decreasing_by exact sizeOf_lt_of_mem_children (mem_children_of_nameHead? _h)

theorem arguments_eq (n : Node) :
    n.arguments =
      if n.kind.isIndexed then (n.nameHead?.map arguments).getD [] ++ n.ownArguments
      else if n.kind == .selectedName then (n.nameHead?.map arguments).getD []
      else [] := by
  have inner : (match _h : n.nameHead? with
      | some head => arguments head
      | none => []) = (n.nameHead?.map arguments).getD [] := by
    split <;> rename_i h <;> simp [h]
  rw [arguments]
  simp only [inner]

end Node

/-! ## Names in texts -/

/-- The name that a dotted text spells. -/
def nameOfText (t : Text) (line : Nat) : ResolvedName :=
  { base := before '.' (compact t), path := compact t, line }

/-- The name that a text with arguments in parentheses spells. -/
def callOfText (t : Text) (line : Nat) : Option ResolvedName :=
  match cut ['('] t with
  | none => none
  | some (head, rest) =>
    if (trim head).isEmpty then none
    else
      let inner := dropEnd (· == ')') (trimEnd rest)
      some { nameOfText (trim head) line with
        isIndexed := true
        indices := ((splitTopLevel ',' inner).map trim).filter fun a => !a.isEmpty }

def nameBeforeTick (t : Text) (line : Nat) : Option ResolvedName :=
  let head := trim (before '\'' t)
  if head.isEmpty then none else some (nameOfText head line)

/-! ## Views -/

/-- What a name applies to its head. -/
inductive Application where
  | selection (suffix : Text)
  | arguments (texts : List Text)
  | attr (designator : Text)

/-- The name that an application makes of a resolved head. -/
def Application.apply (r : ResolvedName) : Application → ResolvedName
  | selection suffix => { r with path := r.path ++ '.' :: suffix }
  | arguments texts => { r with isIndexed := true, indices := r.indices ++ texts }
  | attr designator => { r with isAttribute := true, designator := some designator }

/-- A name seen from outside: a root, or the outermost application to a head. -/
inductive NameView where
  | root (r : ResolvedName)
  | applied (a : Application) (head : Node)
  | noName

namespace NameView

/-- The view of a name that is a root, if there is one. -/
def ofRoot : Option ResolvedName → NameView
  | some r => root r
  | none => noName

end NameView

namespace Node

/-- The attribute that an attribute name applies: what the grammar marks as the designator, else
the second construct, else the text after the last tick. -/
def designator (n : Node) : Text :=
  match (n.childUnder "designator").or ((n.childUnder "attribute").or n.namedChildren[1]?) with
  | some d => d.trimmed
  | none => trim (afterLast '\'' n.text)

/-- The view of a selection. A selection that the grammar did not split is a root. -/
def selectionView (n : Node) : NameView :=
  if n.namedChildren.length < 2 then .root (nameOfText n.text n.line)
  else match n.selectedHead?, n.suffix? with
    | some head, some suffix => .applied (.selection suffix.trimmed) head
    | _, _ => .noName

/-- The view of a name with arguments. -/
def indexedView (n : Node) : NameView :=
  match n.nameHead? with
  | some head => .applied (.arguments (n.arguments.map trimmed)) head
  | none => .ofRoot (callOfText n.text n.line)

def attributeView (n : Node) : NameView :=
  match n.nameHead? with
  | some head => .applied (.attr n.designator) head
  | none => .ofRoot
    ((nameBeforeTick n.text n.line).map fun r => (Application.attr n.designator).apply r)

def nameView (n : Node) : NameView :=
  match n.kind with
  | .identifier => .root { base := n.trimmed, path := n.trimmed, line := n.line }
  | .selectedName => n.selectionView
  | .indexedName | .sliceName | .functionCall => n.indexedView
  | .attributeName => n.attributeView
  | _ => .noName

theorem mem_children_of_nameView {n head : Node} {a : Application}
    (eq : n.nameView = .applied a head) : head ∈ n.children := by
  have root : ∀ o, NameView.ofRoot o ≠ .applied a head := by
    intro o
    cases o <;> simp [NameView.ofRoot]
  simp only [nameView] at eq
  split at eq
  · cases eq
  · simp only [selectionView] at eq
    split at eq
    · cases eq
    · split at eq
      · rename_i hh _
        cases eq
        exact mem_children_of_selectedHead? hh
      · cases eq
  all_goals first
    | cases eq
    | (simp only [indexedView, attributeView] at eq
       split at eq
       · rename_i hh
         cases eq
         exact mem_children_of_nameHead? hh
       · exact absurd eq (root _))

end Node

/-! ## Resolving -/

/-- Resolve a name from its root on, without deciding whether it is a call. -/
def resolveSpine (n : Node) : Option ResolvedName :=
  match _h : n.nameView with
  | .root r => some r
  | .applied a head => (resolveSpine head).map fun r => a.apply r
  | .noName => none
termination_by sizeOf n
decreasing_by exact Node.sizeOf_lt_of_mem_children (Node.mem_children_of_nameView _h)

theorem resolveSpine_eq (n : Node) :
    resolveSpine n =
      match n.nameView with
      | .root r => some r
      | .applied a head => (resolveSpine head).map fun r => a.apply r
      | .noName => none := by
  rw [resolveSpine]
  split <;> rename_i h <;> simp [h]

/-- The head that resolving a node goes on to. -/
def Node.spineHead? (n : Node) : Option Node :=
  match n.kind with
  | .selectedName => if n.namedChildren.length < 2 then none else n.selectedHead?
  | .indexedName | .sliceName | .functionCall | .attributeName => n.nameHead?
  | _ => none

theorem Node.mem_children_of_spineHead? {n head : Node} (eq : n.spineHead? = some head) :
    head ∈ n.children := by
  simp only [spineHead?] at eq
  split at eq
  · split at eq
    · cases eq
    · exact mem_children_of_selectedHead? eq
  all_goals first
    | exact mem_children_of_nameHead? eq
    | cases eq

/-- Whether resolving a node needs a far line: its own, or that of a head it comes to. -/
def Node.resolvesFar (n : Node) : Bool :=
  n.isFar || match _h : n.spineHead? with
    | some head => head.resolvesFar
    | none => false
termination_by sizeOf n
decreasing_by exact Node.sizeOf_lt_of_mem_children (Node.mem_children_of_spineHead? _h)

theorem Node.resolvesFar_eq (n : Node) :
    n.resolvesFar = (n.isFar || (n.spineHead?.map resolvesFar).getD false) := by
  rw [resolvesFar]
  congr 1
  split <;> rename_i h <;> simp [h]

/-- Resolve a name; `none` if the node is no name. -/
def resolve (L : Lookup) (n : Node) : Option ResolvedName :=
  (resolveSpine n).map fun r =>
    { r with
      isCall := r.isIndexed && !r.isAttribute && !r.path.contains '.'
        && !L.declared (lower r.base) }

end DesignFacts

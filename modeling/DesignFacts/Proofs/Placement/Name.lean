import DesignFacts.Proofs.Name.Read
import DesignFacts.Proofs.Text.Blank
import DesignFacts.Proofs.Text.Bytes
import DesignFacts.Proofs.Tree.Row

/-!
# Names away from their places

The same expression may stand at different places of different files. Its nodes then differ in their
offsets, their rows and the source behind them, but not in their texts.

**Nodes** (`Node.unplaced`). A node without its place stands at the start of a source that ends with
it, and so do all nodes under it. Kinds, fields and tokens stay, so the parts of a node stay. The
text of a construct stays, up to blanks at its start, which no name depends on.

**Resolving.** A name without its place resolves to the same name, on the first line
(`resolve_unplaced`).

Main result: scanning finds the same reads in the same order (`readPaths_eq_of_unplaced`).
-/

namespace DesignFacts

open Text

/-! ## Nodes -/

namespace Node

mutual

/-- The node at the start of a source that ends with it, without the blanks that a construct may
begin with, and likewise the nodes under it. -/
def unplaced : Node → Node
  | ⟨tag, named, field, start, stop, _, ahead, children⟩ =>
    let text := takeBytes (stop - start) ahead
    let own := if named then trimStart text else text
    ⟨tag, named, field, 0, bytes own, 0, own, unplacedAll children⟩

def unplacedAll : List Node → List Node
  | [] => []
  | n :: ns => unplaced n :: unplacedAll ns

end

theorem unplacedAll_eq_map (ns : List Node) : unplacedAll ns = ns.map unplaced := by
  induction ns with
  | nil => rfl
  | cons n ns ih => rw [unplacedAll, ih, List.map_cons]

variable (n : Node)

@[simp] theorem tag_unplaced : n.unplaced.tag = n.tag := by cases n; rfl

@[simp] theorem named_unplaced : n.unplaced.named = n.named := by cases n; rfl

@[simp] theorem field_unplaced : n.unplaced.field = n.field := by cases n; rfl

@[simp] theorem line_unplaced : n.unplaced.line = 1 := by cases n; rfl

@[simp] theorem children_unplaced : n.unplaced.children = n.children.map unplaced := by
  cases n
  exact unplacedAll_eq_map _

@[simp] theorem kind_unplaced : n.unplaced.kind = n.kind := by simp [kind]

theorem text_unplaced : n.unplaced.text = if n.named then trimStart n.text else n.text := by
  obtain ⟨tag, named, field, start, stop, row, ahead, children⟩ := n
  have htake (own : Text) : takeBytes (bytes own - 0) own = own := by
    simpa using takeBytes_append own []
  exact htake _

theorem eq_text_unplaced {α : Type} {f : Text → α} (hf : SkipsBlanks f) :
    f n.unplaced.text = f n.text := by
  rw [text_unplaced]
  split
  · exact hf.trimStart_eq n.text
  · rfl

@[simp] theorem trimmed_unplaced : n.unplaced.trimmed = n.trimmed :=
  n.eq_text_unplaced skipsBlanks_trim

@[simp] theorem isToken_unplaced (word : String) : n.unplaced.isToken word = n.isToken word := by
  rw [isToken, isToken, named_unplaced, text_unplaced]
  cases n.named <;> rfl

@[simp] theorem isUnder_unplaced (field : String) : n.unplaced.isUnder field = n.isUnder field := by
  simp [isUnder]

@[simp] theorem isComment_unplaced : n.unplaced.isComment = n.isComment := by simp [isComment]

@[simp] theorem namedChildren_unplaced :
    n.unplaced.namedChildren = n.namedChildren.map unplaced := by
  simp [namedChildren, List.filter_map, Function.comp_def]

@[simp] theorem operandChildren_unplaced :
    n.unplaced.operandChildren = n.operandChildren.map unplaced := by
  simp [operandChildren, List.filter_map, Function.comp_def]

@[simp] theorem childUnder_unplaced (field : String) :
    n.unplaced.childUnder field = (n.childUnder field).map unplaced := by
  simp only [childUnder, children_unplaced, List.find?_map, Function.comp_def, isUnder_unplaced]

/-! ## Parts of names -/

@[simp] theorem headIndex?_unplaced : n.unplaced.headIndex? = n.headIndex? := by
  simp [headIndex?, Function.comp_def]

@[simp] theorem head?_unplaced : n.unplaced.head? = n.head?.map unplaced := by
  simp only [head?, headIndex?_unplaced, children_unplaced, List.getElem?_map, Option.map_bind,
    Function.comp_def]

@[simp] theorem nameHead?_unplaced : n.unplaced.nameHead? = n.nameHead?.map unplaced := by
  simp [nameHead?, Option.filter_map, Function.comp_def]

@[simp] theorem selectedHead?_unplaced :
    n.unplaced.selectedHead? = n.selectedHead?.map unplaced := by
  simp [selectedHead?, Option.map_or]

@[simp] theorem suffix?_unplaced : n.unplaced.suffix? = n.suffix?.map unplaced := by
  simp [suffix?, Option.map_or]

@[simp] theorem besideHead_unplaced : n.unplaced.besideHead = n.besideHead.map unplaced := by
  simp [besideHead, List.zipIdx_map, List.filter_map, Function.comp_def]

@[simp] theorem ownArguments_unplaced : n.unplaced.ownArguments = n.ownArguments.map unplaced := by
  have hlist : ∀ c : Node, c.unplaced.isArgumentList = c.isArgumentList := by
    intro c
    simp [isArgumentList]
  simp only [ownArguments, besideHead_unplaced, List.flatMap_map, List.map_flatMap, hlist]
  congr 1
  funext c
  by_cases hc : c.isArgumentList <;> simp [hc]

@[simp] theorem arguments_unplaced (n : Node) :
    n.unplaced.arguments = n.arguments.map unplaced := by
  have hinner : (n.unplaced.nameHead?.map arguments).getD [] =
      ((n.nameHead?.map arguments).getD []).map unplaced := by
    rw [nameHead?_unplaced]
    cases hhead : n.nameHead? with
    | none => rfl
    | some head =>
      have := sizeOf_lt_of_mem_children (mem_children_of_nameHead? hhead)
      exact arguments_unplaced head
  rw [arguments_eq, arguments_eq, hinner, kind_unplaced, ownArguments_unplaced]
  split
  · rw [List.map_append]
  · split <;> rfl
termination_by sizeOf n

end Node

/-! ## Resolving -/

/-- The name, resolved on the first line. -/
def ResolvedName.unplaced (r : ResolvedName) : ResolvedName := { r with line := 1 }

/-- The view with a head that has no place. -/
def NameView.unplaced : NameView → NameView
  | root r => .root r.unplaced
  | applied a head => .applied a head.unplaced
  | noName => .noName

theorem skipsBlanks_nameOfText (line : Nat) : SkipsBlanks (nameOfText · line) := by
  intro c t hc
  show nameOfText (c :: t) line = nameOfText t line
  rw [nameOfText, nameOfText, skipsBlanks_compact c t hc]

theorem skipsBlanks_callOfText (line : Nat) : SkipsBlanks (callOfText · line) := by
  intro c t hc
  have hne : c ≠ '(' := isBlank_ne hc (by decide)
  have hcut : cut ['('] (c :: t) = (cut ['('] t).map (Prod.map (c :: ·) id) := by
    rw [cut, if_neg (by simpa using Ne.symm hne)]
    rfl
  show callOfText (c :: t) line = callOfText t line
  rw [callOfText, callOfText, hcut]
  cases cut ['('] t with
  | none => rfl
  | some sides => simp only [Option.map_some, Prod.map, skipsBlanks_trim c _ hc, id]

theorem skipsBlanks_nameBeforeTick (line : Nat) : SkipsBlanks (nameBeforeTick · line) :=
  (skipsBlanks_trim_before (by decide)).comp fun head =>
    if head.isEmpty then none else some (nameOfText head line)

theorem callOfText_unplaced (t : Text) (line : Nat) :
    callOfText t 1 = (callOfText t line).map ResolvedName.unplaced := by
  rw [callOfText, callOfText]
  split
  · rfl
  · split <;> rfl

theorem nameBeforeTick_unplaced (t : Text) (line : Nat) :
    nameBeforeTick t 1 = (nameBeforeTick t line).map ResolvedName.unplaced := by
  rw [nameBeforeTick, nameBeforeTick]
  split <;> rfl

namespace Node

variable (n : Node)

theorem designator_unplaced : n.unplaced.designator = n.designator := by
  have hfound : (n.unplaced.childUnder "designator").or
      ((n.unplaced.childUnder "attribute").or n.unplaced.namedChildren[1]?) =
      ((n.childUnder "designator").or
        ((n.childUnder "attribute").or n.namedChildren[1]?)).map unplaced := by
    simp [Option.map_or]
  rw [designator, designator, hfound]
  cases (n.childUnder "designator").or ((n.childUnder "attribute").or n.namedChildren[1]?) with
  | none => exact n.eq_text_unplaced (skipsBlanks_trim_afterLast (by decide))
  | some d => exact d.trimmed_unplaced

theorem nameView_unplaced : n.unplaced.nameView = n.nameView.unplaced := by
  have hroot : ∀ o : Option ResolvedName,
      NameView.ofRoot (o.map ResolvedName.unplaced) = (NameView.ofRoot o).unplaced := by
    intro o
    cases o <;> rfl
  have hselection : n.unplaced.selectionView = n.selectionView.unplaced := by
    -- Without parts the name is read from its text, and that does not see where the text starts.
    have htext := n.eq_text_unplaced (skipsBlanks_nameOfText 1)
    simp only [selectionView, namedChildren_unplaced, List.length_map, htext, line_unplaced,
      selectedHead?_unplaced, suffix?_unplaced]
    split
    · rfl
    · cases n.selectedHead? <;> cases n.suffix? <;> simp [NameView.unplaced]
  have hindexed : n.unplaced.indexedView = n.indexedView.unplaced := by
    have htext := n.eq_text_unplaced (skipsBlanks_callOfText 1)
    simp only [indexedView, nameHead?_unplaced, htext, line_unplaced]
    cases n.nameHead? with
    | none => rw [← hroot, ← callOfText_unplaced]; rfl
    | some head => simp [NameView.unplaced, Function.comp_def]
  have hattribute : n.unplaced.attributeView = n.attributeView.unplaced := by
    have htext := n.eq_text_unplaced (skipsBlanks_nameBeforeTick 1)
    simp only [attributeView, nameHead?_unplaced, htext, line_unplaced, designator_unplaced]
    cases n.nameHead? with
    | none =>
      rw [← hroot, nameBeforeTick_unplaced n.text n.line, Option.map_map, Option.map_map]
      rfl
    | some head => rfl
  simp only [nameView, kind_unplaced]
  cases n.kind with
  | identifier => simp [NameView.unplaced, ResolvedName.unplaced]
  | selectedName => exact hselection
  | indexedName | sliceName | functionCall => exact hindexed
  | attributeName => exact hattribute
  | _ => rfl

end Node

theorem resolveSpine_unplaced (n : Node) :
    resolveSpine n.unplaced = (resolveSpine n).map ResolvedName.unplaced := by
  rw [resolveSpine_eq, resolveSpine_eq, Node.nameView_unplaced]
  cases hview : n.nameView with
  | root r => rfl
  | noName => rfl
  | applied a head =>
    have := Node.sizeOf_lt_of_mem_children (Node.mem_children_of_nameView hview)
    simp only [NameView.unplaced, resolveSpine_unplaced head, Option.map_map]
    congr 1
    funext r
    cases a <;> rfl
termination_by sizeOf n

/-- A name without its place resolves to the same name on the first line. -/
theorem resolve_unplaced (L : Lookup) (n : Node) :
    resolve L n.unplaced = (resolve L n).map ResolvedName.unplaced := by
  rw [resolve, resolve, resolveSpine_unplaced, Option.map_map, Option.map_map]
  rfl

/-! ## Scanning -/

theorem reads_ownScan_unplaced (L : Lookup) (n : Node) :
    (ownScan L n.unplaced).reads = (ownScan L n).reads.map ResolvedName.unplaced := by
  rw [ownScan, ownScan, Node.kind_unplaced, resolve_unplaced]
  split
  · cases resolve L n with
    | none => rfl
    | some r =>
      have hclassify : classify L r.unplaced = classify L r := rfl
      simp only [Option.map_some, Option.getD_some, contribution, hclassify]
      cases classify L r <;> rfl
  · rfl

namespace Node

variable (n : Node)

theorem associationValue_unplaced :
    n.unplaced.associationValue = n.associationValue.map unplaced := by
  have hfound : (n.unplaced.childUnder "value").or (n.unplaced.childUnder "actual") =
      ((n.childUnder "value").or (n.childUnder "actual")).map unplaced := by
    simp [Option.map_or]
  rw [associationValue, associationValue, hfound, children_unplaced, splitAt?_map,
    namedChildren_unplaced]
  simp only [Function.comp_def, isToken_unplaced]
  cases (n.childUnder "value").or (n.childUnder "actual") with
  | some v => rfl
  | none =>
    cases splitAt? (·.isToken "=>") n.children <;> simp [List.filter_map, Function.comp_def]

theorem qualifiedOperand_unplaced :
    n.unplaced.qualifiedOperand = n.qualifiedOperand.map unplaced := by
  simp [qualifiedOperand, typeMarkIndex?, List.zipIdx_map, List.filter_map, Function.comp_def]

end Node

theorem scanParts_unplaced (L : Lookup) (n : Node) :
    scanParts L n.unplaced = (scanParts L n).map Node.unplaced := by
  have hname : ∀ r, nameParts L n.unplaced (ResolvedName.unplaced r) =
      (nameParts L n r).map Node.unplaced := by
    intro r
    rw [nameParts, nameParts, Node.arguments_unplaced]
    show (if r.isAttribute then [] else if r.isIndexed || classify L r == .read then _ else []) = _
    split
    · rfl
    · split <;> rfl
  simp only [scanParts, Node.kind_unplaced, resolve_unplaced, Node.qualifiedOperand_unplaced,
    Node.associationValue_unplaced, Node.namedChildren_unplaced]
  split
  · cases resolve L n with
    | none => rfl
    | some r => exact hname r
  · split <;> try rfl
    split <;> rfl

/-- The same names are read without their places. -/
theorem reads_scan_unplaced (L : Lookup) (n : Node) :
    (scan L n.unplaced).reads = (scan L n).reads.map ResolvedName.unplaced := by
  have hparts : (scanParts L n).map (fun p => (scan L p.unplaced).reads) =
      (scanParts L n).map fun p => (scan L p).reads.map ResolvedName.unplaced := by
    apply List.map_congr_left
    intro p hp
    have := sizeOf_lt_of_mem_scanParts hp
    exact reads_scan_unplaced L p
  rw [reads_scan, reads_scan, reads_ownScan_unplaced, scanParts_unplaced, List.map_append,
    List.flatMap_map, List.map_flatMap, List.flatMap_def, hparts, ← List.flatMap_def]
termination_by sizeOf n

/-- **Expressions that differ in their places only read the same paths**, in the same order. -/
theorem readPaths_eq_of_unplaced {ns ms : List Node}
    (h : ns.map Node.unplaced = ms.map Node.unplaced) (L : Lookup) :
    (scanAll L ns).readPaths = (scanAll L ms).readPaths := by
  have hpaths : ∀ ns : List Node, (scanAll L (ns.map Node.unplaced)).reads.map (·.path) =
      (scanAll L ns).reads.map (·.path) := by
    intro ns
    simp only [scanAll, Scan.reads_concat, List.map_map, List.flatMap_map, List.map_flatMap,
      Function.comp_def, reads_scan_unplaced]
    rfl
  rw [Scan.readPaths, Scan.readPaths, ← hpaths ns, h, hpaths ms]

end DesignFacts

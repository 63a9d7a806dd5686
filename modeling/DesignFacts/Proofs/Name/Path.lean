import DesignFacts.Proofs.Extraction.Record
import DesignFacts.Proofs.Name.Spine
import DesignFacts.Proofs.Text.Blank

/-!
# What a resolved name tells about its spine

A name is an identifier to which selections, arguments and attributes are applied in any order. This
file says what resolving makes of them, for names whose parts are marked by fields
(`Node.MarkedName`).

**Spines.** `Node.spine` lists a name and its heads, from the name to the root. Read from inside
out, it spells a path: the root, then the suffix of every selection (`Node.identifiers`).

**Steps.** What is found out about a head carries over to the name that is applied to it
(`ResolvedName.Follows`): a selection adds its suffix to the path, arguments and attributes set
their flags, and nothing changes the root.

Main result: `resolve_follows_spine`.
-/

namespace DesignFacts

open Text

theorem Text.join_concat (sep : String) {ts : List Text} (hts : ts ≠ []) (t : Text) :
    join sep (ts ++ [t]) = join sep ts ++ (sep.toList ++ t) := by
  induction ts with
  | nil => exact absurd rfl hts
  | cons u us ih =>
    cases us with
    | nil => simp [join, List.intercalate_cons_cons]
    | cons v vs =>
      have hrest := ih (List.cons_ne_nil v vs)
      simp only [join, List.cons_append, List.intercalate_cons_cons, List.append_assoc] at hrest ⊢
      rw [hrest]

namespace Node

/-! ## Spines as lists -/

/-- The head of a name that is marked by its field. -/
def markedHead? (n : Node) : Option Node := if n.isApplied then n.childUnder "prefix" else none

theorem mem_children_of_markedHead? {n h : Node} (eq : n.markedHead? = some h) :
    h ∈ n.children := by
  unfold markedHead? at eq
  split at eq
  · exact mem_children_of_childUnder eq
  · cases eq

/-- A name and its heads, from the name down to the root. -/
def spine (n : Node) : List Node :=
  n :: match _h : n.markedHead? with
    | some head => spine head
    | none => []
termination_by sizeOf n
decreasing_by exact sizeOf_lt_of_mem_children (mem_children_of_markedHead? _h)

theorem spine_eq (n : Node) : n.spine = n :: (n.markedHead?.map spine).getD [] := by
  rw [spine]
  congr 1
  split <;> rename_i h <;> simp [h]

theorem spine_of_identifier {n : Node} (hkind : n.kind = .identifier) : n.spine = [n] := by
  have hleaf : n.isApplied = false := by
    rw [isApplied, hkind]
    rfl
  rw [spine_eq, markedHead?, hleaf]
  rfl

theorem spine_of_head {n h : Node} (happlied : n.isApplied = true)
    (hh : n.childUnder "prefix" = some h) : n.spine = n :: h.spine := by
  rw [spine_eq, markedHead?, if_pos happlied, hh]
  rfl

/-- The list holds the nodes that are reached from head to head. -/
theorem mem_spine_iff {n m : Node} : m ∈ n.spine ↔ n.Spine m := by
  cases hhead : n.markedHead? with
  | some h =>
    have hlt := sizeOf_lt_of_mem_children (mem_children_of_markedHead? hhead)
    unfold markedHead? at hhead
    split at hhead
    · rename_i happlied
      rw [spine_of_head happlied hhead, List.mem_cons, spine_iff happlied hhead,
        mem_spine_iff (n := h)]
    · cases hhead
  | none =>
    rw [spine_eq, hhead, Option.map_none, Option.getD_none, List.mem_singleton]
    constructor
    · rintro rfl
      exact .self m
    · intro hm
      cases hm with
      | self => rfl
      | head happlied hh =>
        rw [markedHead?, if_pos happlied, hh] at hhead
        cases hhead
termination_by sizeOf n

/-- The identifier that a node adds to a path. -/
def identifier? (n : Node) : Option Node :=
  match n.kind with
  | .identifier => some n
  | .selectedName => n.childUnder "suffix"
  | _ => none

/-- The identifiers that spell the path of a name: the root, then the selected suffixes. -/
def identifiers (n : Node) : List Node := n.spine.reverse.filterMap identifier?

/-- The root of a name is one of its identifiers. -/
theorem mem_identifiers_of_getLast? {n i : Node} (hi : n.spine.getLast? = some i)
    (hkind : i.kind = .identifier) : i ∈ n.identifiers := by
  have hmem : i ∈ n.spine := List.mem_of_getLast? hi
  exact List.mem_filterMap.2 ⟨i, List.mem_reverse.2 hmem, by rw [identifier?, hkind]⟩

/-- The outermost attribute of a name. -/
def outerAttribute? (n : Node) : Option Node := n.spine.find? (·.kind == .attributeName)

/-! ## Names with marked parts -/

/-- A name whose heads and suffixes are marked by fields, down to an identifier. What else stands in
it is left open. -/
inductive MarkedName : Node → Prop
  | identifier {n : Node} (hkind : n.kind = .identifier) : MarkedName n
  | selection {n h s : Node} (hkind : n.kind = .selectedName)
      (hh : n.childUnder "prefix" = some h) (hs : n.childUnder "suffix" = some s)
      (hsuffix : s.kind = .identifier) (hhead : MarkedName h) : MarkedName n
  | arguments {n h : Node} (hkind : n.kind.isIndexed = true) (hh : n.childUnder "prefix" = some h)
      (hhead : MarkedName h) : MarkedName n
  | attr {n h : Node} (hkind : n.kind = .attributeName) (hh : n.childUnder "prefix" = some h)
      (hhead : MarkedName h) : MarkedName n

theorem isName_of_isIndexed {n : Node} (hn : n.kind.isIndexed = true) : n.kind.isName = true := by
  revert hn
  cases n.kind <;> decide

theorem MarkedName.isName {n : Node} (hn : n.MarkedName) : n.kind.isName = true := by
  cases hn with
  | identifier hkind => rw [hkind]; rfl
  | selection hkind => rw [hkind]; rfl
  | arguments hkind => exact isName_of_isIndexed hkind
  | attr hkind => rw [hkind]; rfl

theorem isApplied_of_selectedName {n : Node} (hn : n.kind = .selectedName) :
    n.isApplied = true := by
  rw [isApplied, hn]
  rfl

theorem isApplied_of_attributeName {n : Node} (hn : n.kind = .attributeName) :
    n.isApplied = true := by
  rw [isApplied, hn]
  rfl

theorem isApplied_of_isIndexed {n : Node} (hn : n.kind.isIndexed = true) : n.isApplied = true := by
  refine isApplied_of_isName (isName_of_isIndexed hn) ?_
  intro hkind
  rw [hkind] at hn
  cases hn

section Parts

variable {n h : Node} (hh : n.childUnder "prefix" = some h) (hname : h.kind.isName = true)

include hh hname

theorem nameView_of_suffix {s : Node} (hkind : n.kind = .selectedName)
    (hs : n.childUnder "suffix" = some s) (hsuffix : s.kind = .identifier) :
    n.nameView = .applied (.selection s.trimmed) h := by
  have hnamed : s.named = true := named_of_isName (by rw [hsuffix]; rfl)
  have hmem : s ∈ n.namedChildren := List.mem_filter.2 ⟨mem_children_of_childUnder hs, hnamed⟩
  have hlength :=
    not_length_namedChildren_lt_two hh (named_of_isName hname) hmem (isUnder_of_childUnder hs)
  have hhead : n.selectedHead? = some h := by rw [selectedHead?, hh]; rfl
  have hlast : n.suffix? = some s := by rw [suffix?, hs]; rfl
  rw [nameView, hkind]
  simp only [selectionView, if_neg hlength, hhead, hlast]

theorem nameView_of_arguments (hkind : n.kind.isIndexed = true) :
    n.nameView = .applied (.arguments (n.arguments.map trimmed)) h := by
  rw [nameView_of_isIndexed hkind, indexedView, nameHead?_of_childUnder hh, if_pos hname]

theorem nameView_of_attributeName (hkind : n.kind = .attributeName) :
    n.nameView = .applied (.attr n.designator) h := by
  rw [nameView, hkind]
  simp only [attributeView, nameHead?_of_childUnder hh, if_pos hname]

theorem arguments_of_isIndexed (hkind : n.kind.isIndexed = true) :
    n.arguments = h.arguments ++ n.ownArguments := by
  rw [arguments_eq, if_pos hkind, nameHead?_of_childUnder hh, if_pos hname]
  rfl

theorem arguments_of_selectedName (hkind : n.kind = .selectedName) :
    n.arguments = h.arguments := by
  rw [arguments_eq, nameHead?_of_childUnder hh, if_pos hname, hkind]
  rfl

end Parts

end Node

/-! ## Steps along the spine -/

/-- What is found out about a name is what stands on its spine. -/
structure ResolvedName.Follows (r : ResolvedName) (n : Node) : Prop where
  base_eq : ∃ i, n.spine.getLast? = some i ∧ i.kind = .identifier ∧ r.base = i.trimmed
  path_eq : r.path = join "." (n.identifiers.map Node.trimmed)
  dot_mem_path_iff : '.' ∈ r.path ↔ '.' ∈ r.base ∨ ∃ m ∈ n.spine, m.kind = .selectedName
  isIndexed_iff : r.isIndexed = true ↔ ∃ m ∈ n.spine, m.kind.isIndexed = true
  isAttribute_iff : r.isAttribute = true ↔ ∃ m ∈ n.spine, m.kind = .attributeName
  designator_eq : r.designator = n.outerAttribute?.map Node.designator

namespace Node

/-- An identifier is its own root and path. -/
theorem follows_identifier {n : Node} (hkind : n.kind = .identifier) :
    ({ base := n.trimmed, path := n.trimmed, line := n.line } : ResolvedName).Follows n := by
  have hspine := spine_of_identifier hkind
  constructor
  · exact ⟨n, by rw [hspine]; rfl, hkind, rfl⟩
  · simp [identifiers, identifier?, hspine, hkind, join]
  · simp [hspine, hkind]
  · simp [hspine, hkind, Kind.isIndexed]
  · simp [hspine, hkind]
  · simp [outerAttribute?, hspine, hkind]

variable {n h : Node} {r : ResolvedName} (happlied : n.isApplied = true)
  (hh : n.childUnder "prefix" = some h)

include happlied hh

theorem getLast?_spine_of_head {i : Node} (hi : h.spine.getLast? = some i) :
    n.spine.getLast? = some i := by
  rw [spine_of_head happlied hh, List.getLast?_cons, hi]
  rfl

theorem exists_mem_spine_iff {p : Node → Prop} :
    (∃ m ∈ n.spine, p m) ↔ p n ∨ ∃ m ∈ h.spine, p m := by
  simp only [mem_spine_iff, spine_iff happlied hh, or_and_right, exists_or, exists_eq_left]

theorem identifiers_of_head : n.identifiers = h.identifiers ++ n.identifier?.toList := by
  rw [identifiers, identifiers, spine_of_head happlied hh, List.reverse_cons,
    List.filterMap_append]
  cases hi : n.identifier? <;> simp [hi]

theorem outerAttribute?_of_head :
    n.outerAttribute? = if n.kind == .attributeName then some n else h.outerAttribute? := by
  rw [outerAttribute?, spine_of_head happlied hh, List.find?_cons]
  cases n.kind == .attributeName <;> rfl

/-- A selection adds its suffix to the path. -/
theorem follows_selection {s : Node} (hkind : n.kind = .selectedName)
    (hs : n.childUnder "suffix" = some s) (hr : r.Follows h) :
    ((Application.selection s.trimmed).apply r).Follows n := by
  obtain ⟨i, hi, hroot, hbase⟩ := hr.base_eq
  have hidentifiers : h.identifiers ≠ [] :=
    List.ne_nil_of_mem (mem_identifiers_of_getLast? hi hroot)
  constructor
  · exact ⟨i, getLast?_spine_of_head happlied hh hi, hroot, hbase⟩
  · have hown : n.identifier?.toList = [s] := by simp [identifier?, hkind, hs]
    rw [identifiers_of_head happlied hh, hown, List.map_append, List.map_singleton,
      join_concat "." (by simpa using hidentifiers), ← hr.path_eq]
    rfl
  · rw [exists_mem_spine_iff happlied hh]
    simp [Application.apply, hkind]
  · rw [exists_mem_spine_iff happlied hh, ← hr.isIndexed_iff]
    simp [Application.apply, hkind, Kind.isIndexed]
  · rw [exists_mem_spine_iff happlied hh, ← hr.isAttribute_iff]
    simp [Application.apply, hkind]
  · rw [outerAttribute?_of_head happlied hh]
    simp [Application.apply, hkind, hr.designator_eq]

/-- Arguments leave the path alone. -/
theorem follows_arguments (hkind : n.kind.isIndexed = true) (texts : List Text)
    (hr : r.Follows h) : ((Application.arguments texts).apply r).Follows n := by
  obtain ⟨i, hi, hroot, hbase⟩ := hr.base_eq
  have hselected : n.kind ≠ .selectedName := fun h => by rw [h] at hkind; cases hkind
  have hattribute : n.kind ≠ .attributeName := fun h => by rw [h] at hkind; cases hkind
  constructor
  · exact ⟨i, getLast?_spine_of_head happlied hh hi, hroot, hbase⟩
  · have hown : n.identifier?.toList = [] := by
      revert hkind
      unfold identifier?
      cases n.kind <;> first | exact fun _ => rfl | (intro hkind; cases hkind)
    rw [identifiers_of_head happlied hh, hown, List.append_nil]
    exact hr.path_eq
  · rw [exists_mem_spine_iff happlied hh, or_iff_right hselected]
    exact hr.dot_mem_path_iff
  · rw [exists_mem_spine_iff happlied hh]
    simp [Application.apply, hkind]
  · rw [exists_mem_spine_iff happlied hh, or_iff_right hattribute]
    exact hr.isAttribute_iff
  · rw [outerAttribute?_of_head happlied hh]
    simp [Application.apply, hattribute, hr.designator_eq]

/-- An attribute leaves the path alone and becomes the outermost one. -/
theorem follows_attribute (hkind : n.kind = .attributeName) (hr : r.Follows h) :
    ((Application.attr n.designator).apply r).Follows n := by
  obtain ⟨i, hi, hroot, hbase⟩ := hr.base_eq
  have hselected : n.kind ≠ .selectedName := by rw [hkind]; decide
  constructor
  · exact ⟨i, getLast?_spine_of_head happlied hh hi, hroot, hbase⟩
  · have hown : n.identifier?.toList = [] := by simp [identifier?, hkind]
    rw [identifiers_of_head happlied hh, hown, List.append_nil]
    exact hr.path_eq
  · rw [exists_mem_spine_iff happlied hh, or_iff_right hselected]
    exact hr.dot_mem_path_iff
  · rw [exists_mem_spine_iff happlied hh, or_iff_right (by rw [hkind]; decide)]
    exact hr.isIndexed_iff
  · rw [exists_mem_spine_iff happlied hh]
    simp [Application.apply, hkind]
  · rw [outerAttribute?_of_head happlied hh]
    simp [Application.apply, hkind]

omit happlied hh

/-- A name with marked parts resolves to what stands on its spine. -/
theorem MarkedName.exists_resolveSpine {n : Node} (hn : n.MarkedName) :
    ∃ r, resolveSpine n = some r ∧ r.Follows n := by
  induction hn with
  | @identifier n hkind => exact ⟨_, resolveSpine_of_identifier hkind, follows_identifier hkind⟩
  | @selection n h s hkind hh hs hsuffix hhead ih =>
    obtain ⟨r, hr, hfollows⟩ := ih
    have happlied := isApplied_of_selectedName hkind
    have hview := nameView_of_suffix hh hhead.isName hkind hs hsuffix
    exact ⟨_, resolveSpine_of_applied hview hr, follows_selection happlied hh hkind hs hfollows⟩
  | @arguments n h hkind hh hhead ih =>
    obtain ⟨r, hr, hfollows⟩ := ih
    have happlied := isApplied_of_isIndexed hkind
    have hview := nameView_of_arguments hh hhead.isName hkind
    exact ⟨_, resolveSpine_of_applied hview hr, follows_arguments happlied hh hkind _ hfollows⟩
  | @attr n h hkind hh hhead ih =>
    obtain ⟨r, hr, hfollows⟩ := ih
    have happlied := isApplied_of_attributeName hkind
    have hview := nameView_of_attributeName hh hhead.isName hkind
    exact ⟨_, resolveSpine_of_applied hview hr, follows_attribute happlied hh hkind hfollows⟩

/-- Whether the text of a node has neither dots nor blanks in it. -/
def isPlain (n : Node) : Bool := n.text.all fun c => c != '.' && !isBlank c

theorem trimmed_of_isPlain {n : Node} (hn : n.isPlain = true) : n.trimmed = n.text := by
  apply trim_eq_self
  intro c hc
  have hplain := List.all_eq_true.1 hn c hc
  simpa using (Bool.and_eq_true_iff.1 hplain).2

theorem not_dot_mem_of_isPlain {n : Node} (hn : n.isPlain = true) : '.' ∉ n.text := by
  intro hdot
  have hplain := List.all_eq_true.1 hn '.' hdot
  simp at hplain

/-- If the designators of a name are marked by a field, they are found there. -/
theorem map_designator {n : Node}
    (hmarked : ∀ m ∈ n.spine, m.kind = .attributeName → (m.childUnder "designator").isSome = true) :
    n.outerAttribute?.map designator =
      n.outerAttribute?.bind fun m => (m.childUnder "designator").map trimmed := by
  cases hm : n.outerAttribute? with
  | none => rfl
  | some m =>
    have hmem : m ∈ n.spine := List.mem_of_find?_eq_some hm
    have hkind : (m.kind == .attributeName) = true := by
      have := List.find?_some hm
      exact this
    obtain ⟨d, hd⟩ := Option.isSome_iff_exists.1 (hmarked m hmem (beq_iff_eq.1 hkind))
    rw [Option.map_some, Option.bind_some, designator, hd]
    rfl

end Node

/-! ## Resolving -/

theorem resolve_of_resolveSpine {L : Lookup} {n : Node} {r : ResolvedName}
    (hr : resolveSpine n = some r) :
    resolve L n = some { r with
      isCall := r.isIndexed && !r.isAttribute && !r.path.contains '.'
        && !L.declared (lower r.base) } := by
  rw [resolve, hr]
  rfl

/-- **A name resolves to what stands on its spine.** The base is the identifier at the root. The
path adds the selected suffixes from inside out, and no argument or attribute. The flags say whether
there are arguments or attributes, the designator is that of the outermost attribute, and a name is
taken for a call if it is a root with arguments that is not declared. -/
theorem resolve_follows_spine (L : Lookup) {n : Node} (hn : n.MarkedName)
    (hplain : ∀ i ∈ n.identifiers, i.isPlain = true)
    (hmarked : ∀ m ∈ n.spine, m.kind = .attributeName → (m.childUnder "designator").isSome = true) :
    ∃ r i, resolve L n = some r ∧
      n.spine.getLast? = some i ∧ i.kind = .identifier ∧ r.base = i.text ∧
      r.path = join "." (n.identifiers.map Node.text) ∧
      (r.isIndexed = true ↔ ∃ m ∈ n.spine, m.kind.isIndexed = true) ∧
      (r.isAttribute = true ↔ ∃ m ∈ n.spine, m.kind = .attributeName) ∧
      (r.designator =
        n.outerAttribute?.bind fun m => (m.childUnder "designator").map Node.trimmed) ∧
      (r.isCall = true ↔ r.isIndexed = true ∧ r.isAttribute = false ∧
        (¬ ∃ m ∈ n.spine, m.kind = .selectedName) ∧ L.declared (lower r.base) = false) := by
  obtain ⟨r, hr, hfollows⟩ := hn.exists_resolveSpine
  obtain ⟨i, hi, hkind, hbase⟩ := hfollows.base_eq
  have hroot := hplain i (Node.mem_identifiers_of_getLast? hi hkind)
  rw [Node.trimmed_of_isPlain hroot] at hbase
  -- No root holds a dot itself, so a dot in the path comes from a selection.
  have hdot : r.path.contains '.' = true ↔ ∃ m ∈ n.spine, m.kind = .selectedName := by
    rw [List.contains_iff_mem, hfollows.dot_mem_path_iff, hbase,
      or_iff_right (Node.not_dot_mem_of_isPlain hroot)]
  have hpath : r.path = join "." (n.identifiers.map Node.text) := by
    rw [hfollows.path_eq]
    congr 1
    apply List.map_congr_left
    intro j hj
    exact Node.trimmed_of_isPlain (hplain j hj)
  refine ⟨_, i, resolve_of_resolveSpine hr, hi, hkind, hbase, hpath, hfollows.isIndexed_iff,
    hfollows.isAttribute_iff, hfollows.designator_eq.trans (Node.map_designator hmarked), ?_⟩
  rw [← hdot]
  simp [and_assoc]

/-- The name `bus(i).field'range(j)`. -/
def rangeCall : Node :=
  .branch "function_call" [
    .under "prefix" (.branch "attribute_name" [
      .under "prefix" (.branch "selected_name" [
        .under "prefix" (.branch "indexed_name" [.under "prefix" (.leaf "identifier" "bus"),
          .leaf "identifier" "i"]),
        .under "suffix" (.leaf "identifier" "field")]),
      .under "designator" (.leaf "identifier" "range")]),
    .leaf "identifier" "j"]

theorem resolve_follows_spine_rangeCall :
    rangeCall.MarkedName ∧ (∀ i ∈ rangeCall.identifiers, i.isPlain = true) ∧
      (∀ m ∈ rangeCall.spine, m.kind = .attributeName →
        (m.childUnder "designator").isSome = true) ∧
      ∃ r, resolve declaredLookup rangeCall = some r ∧ r.base = "bus".toList ∧
        r.path = "bus.field".toList ∧ r.isIndexed = true ∧ r.isAttribute = true ∧
        r.designator = some "range".toList := by
  have hname : rangeCall.MarkedName :=
    .arguments rfl rfl (.attr rfl rfl (.selection rfl rfl rfl rfl
      (.arguments rfl rfl (.identifier rfl))))
  have hplain : ∀ i ∈ rangeCall.identifiers, i.isPlain = true := by decide +kernel
  have hmarked : ∀ m ∈ rangeCall.spine, m.kind = .attributeName →
      (m.childUnder "designator").isSome = true := by decide +kernel
  have hvalues : rangeCall.spine.getLast?.map Node.text = some "bus".toList ∧
      join "." (rangeCall.identifiers.map Node.text) = "bus.field".toList ∧
      (∃ m ∈ rangeCall.spine, m.kind.isIndexed = true) ∧
      (∃ m ∈ rangeCall.spine, m.kind = .attributeName) ∧
      (rangeCall.outerAttribute?.bind fun m => (m.childUnder "designator").map Node.trimmed) =
        some "range".toList := by decide +kernel
  obtain ⟨r, i, hr, hi, -, hbase, hpath, hindexed, hattribute, hdesignator, -⟩ :=
    resolve_follows_spine declaredLookup hname hplain hmarked
  obtain ⟨hroot, hdotted, hcall, hrange, houter⟩ := hvalues
  rw [hi, Option.map_some, Option.some_inj] at hroot
  exact ⟨hname, hplain, hmarked, r, hr, hbase.trans hroot, hpath.trans hdotted,
    hindexed.2 hcall, hattribute.2 hrange, hdesignator.trans houter⟩

end DesignFacts

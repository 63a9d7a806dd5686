import DesignFacts.Proofs.Name.Read
import Mathlib.Data.List.Basic

/-!
# The spine of a name

A name is applied to a head, which may be applied to a head again, down to a root. These nodes are
the spine of the name (`Node.Spine`). Resolving goes down the spine, but finds its heads by several
rules, and reads a name off its text if none applies. In a tree whose names have the parts that
their kinds ask for (`Node.isWellBuilt`), the head is always the part under `prefix`.

Main results, for such trees:

* `exists_resolveSpine_of_spine`: a name with an identifier at its root resolves;
* `resolve_agrees`: its base is the text of the root, it has an attribute if one is on the spine,
  and it is indexed if it has arguments.
-/

namespace DesignFacts

open Text

namespace Node

/-! ## Spines -/

/-- Whether a name is applied to a head. -/
def isApplied (n : Node) : Bool := n.kind.isName && n.kind != .identifier

/-- The nodes from a name down to its root, from head to head. -/
inductive Spine : Node → Node → Prop
  | self (n : Node) : Spine n n
  | head {n h m : Node} (hn : n.isApplied = true) (hh : n.childUnder "prefix" = some h)
      (hm : Spine h m) : Spine n m

/-- An attribute is applied somewhere in a name. -/
def Attributed (n : Node) : Prop := ∃ m, n.Spine m ∧ m.kind = .attributeName

/-- Whether a name has one head, a name or a literal. -/
def hasOneHead (n : Node) : Bool :=
  match n.children.filter (·.isUnder "prefix") with
  | [h] => h.kind.isName || h.kind.isLiteral
  | _ => false

/-- Whether a node, if it is applied to a head, has the parts that its kind asks for. -/
def hasNameParts (n : Node) : Bool :=
  !n.isApplied || n.hasOneHead && (n.kind != .selectedName ||
    n.namedChildren.any (·.isUnder "suffix") &&
      n.namedChildren.all fun c => c.isUnder "prefix" || c.isUnder "suffix" || c.isComment)

/-- Whether all names in a tree have their parts. -/
def isWellBuilt (n : Node) : Bool := n.subtree.all hasNameParts

theorem hasNameParts_of_isWellBuilt {n : Node} (hn : n.isWellBuilt = true) :
    n.hasNameParts = true :=
  List.all_eq_true.1 hn n n.mem_subtree_self

theorem all_subtree_of_mem_subtree {p : Node → Bool} {n m : Node} (hn : n.subtree.all p = true)
    (hm : m ∈ n.subtree) : m.subtree.all p = true :=
  List.all_eq_true.2 fun k hk => List.all_eq_true.1 hn k (mem_subtree_trans hm hk)

theorem isWellBuilt_of_mem_subtree {n m : Node} (hn : n.isWellBuilt = true)
    (hm : m ∈ n.subtree) : m.isWellBuilt = true :=
  all_subtree_of_mem_subtree hn hm

theorem isWellBuilt_of_mem_children {n c : Node} (hn : n.isWellBuilt = true)
    (hc : c ∈ n.children) : c.isWellBuilt = true :=
  isWellBuilt_of_mem_subtree hn (mem_subtree_of_mem_children hc c.mem_subtree_self)

theorem kind_of_isApplied {n : Node} (h : n.isApplied = true) :
    n.kind = .selectedName ∨ n.kind.isIndexed = true ∨ n.kind = .attributeName := by
  revert h
  unfold isApplied
  cases n.kind <;> decide

theorem exists_head {n : Node} (hn : n.isWellBuilt = true) (happlied : n.isApplied = true) :
    ∃ h, n.childUnder "prefix" = some h ∧ (h.kind.isName || h.kind.isLiteral) = true ∧
      ∀ c ∈ n.children, c.isUnder "prefix" = true → c = h := by
  have hhead : n.hasOneHead = true := by
    have hparts := hasNameParts_of_isWellBuilt hn
    rw [hasNameParts, happlied] at hparts
    exact (Bool.and_eq_true_iff.1 hparts).1
  unfold hasOneHead at hhead
  split at hhead
  · rename_i h hfilter
    refine ⟨h, ?_, hhead, fun c hc hunder => ?_⟩
    · rw [childUnder, ← List.head?_filter, hfilter]
      rfl
    · exact List.mem_singleton.1 (hfilter ▸ List.mem_filter.2 ⟨hc, hunder⟩)
  · cases hhead

/-- A selection has a suffix beside its head, and nothing else but comments. -/
theorem parts_of_selectedName {n : Node} (hn : n.isWellBuilt = true)
    (hkind : n.kind = .selectedName) :
    (∃ c ∈ n.namedChildren, c.isUnder "suffix" = true) ∧ ∀ c ∈ n.namedChildren,
      c.isUnder "prefix" = true ∨ c.isUnder "suffix" = true ∨ c.isComment = true := by
  have hparts := hasNameParts_of_isWellBuilt hn
  simp only [hasNameParts, isApplied, hkind, Kind.isName] at hparts
  simpa [or_assoc] using (Bool.and_eq_true_iff.1 hparts).2

/-! ## Spines and attributes -/

theorem eq_of_spine {n m : Node} (hn : n.isApplied = false) (hm : n.Spine m) : m = n := by
  cases hm with
  | self => rfl
  | head happlied => rw [hn] at happlied; cases happlied

theorem not_attributed {n : Node} (hn : n.isApplied = false) : ¬ n.Attributed := by
  rintro ⟨m, hm, hkind⟩
  obtain rfl := eq_of_spine hn hm
  rw [isApplied, hkind] at hn
  cases hn

theorem isApplied_of_isName {n : Node} (hname : n.kind.isName = true)
    (hkind : n.kind ≠ .identifier) : n.isApplied = true := by
  simp [isApplied, hname, hkind]

theorem isUnder_of_childUnder {n c : Node} {field : String} (hc : n.childUnder field = some c) :
    c.isUnder field = true := by
  have := List.find?_some hc
  exact this

variable {n h : Node} (happlied : n.isApplied = true) (hh : n.childUnder "prefix" = some h)

include hh

theorem headIndex?_of_childUnder : ∃ i, n.headIndex? = some i ∧ n.children[i]? = some h := by
  rw [childUnder, List.find?_eq_bind_findIdx?_getElem?] at hh
  obtain ⟨i, hi, hget⟩ := Option.bind_eq_some_iff.1 hh
  exact ⟨i, by rw [headIndex?, hi]; rfl, hget⟩

theorem nameHead?_of_childUnder : n.nameHead? = if h.kind.isName then some h else none := by
  obtain ⟨i, hi, hget⟩ := headIndex?_of_childUnder hh
  rw [nameHead?, head?, hi, Option.bind_some, hget]
  rfl

include happlied

theorem spine_iff {m : Node} : n.Spine m ↔ m = n ∨ h.Spine m := by
  constructor
  · intro hm
    cases hm with
    | self => exact .inl rfl
    | head _ hh' hm =>
      cases hh.symm.trans hh'
      exact .inr hm
  · rintro (rfl | hm)
    · exact .self m
    · exact .head happlied hh hm

theorem attributed_iff : n.Attributed ↔ n.kind = .attributeName ∨ h.Attributed := by
  simp only [Attributed, spine_iff happlied hh, or_and_right, exists_or, exists_eq_left]

end Node

/-! ## Resolving along the spine -/

@[simp] theorem Application.base_apply (a : Application) (r : ResolvedName) :
    (a.apply r).base = r.base := by
  cases a <;> rfl

theorem flags_of_callOfText {t : Text} {line : Nat} {r : ResolvedName}
    (h : callOfText t line = some r) : r.isIndexed = true ∧ r.isAttribute = false := by
  unfold callOfText at h
  split at h
  · cases h
  · split at h <;> cases h
    exact ⟨rfl, rfl⟩

theorem resolveSpine_of_ofRoot {n : Node} {o : Option ResolvedName}
    (h : n.nameView = .ofRoot o) : resolveSpine n = o := by
  rw [resolveSpine_eq, h]
  cases o <;> rfl

theorem resolveSpine_of_applied {n h : Node} {a : Application} {r : ResolvedName}
    (hview : n.nameView = .applied a h) (hr : resolveSpine h = some r) :
    resolveSpine n = some (a.apply r) := by
  rw [resolveSpine_eq, hview]
  simp only [hr, Option.map_some]

theorem resolveSpine_of_identifier {n : Node} (hkind : n.kind = .identifier) :
    resolveSpine n = some { base := n.trimmed, path := n.trimmed, line := n.line } := by
  rw [resolveSpine_eq, Node.nameView, hkind]

theorem Node.nameView_of_isIndexed {n : Node} (hn : n.kind.isIndexed = true) :
    n.nameView = n.indexedView := by
  revert hn
  unfold nameView
  cases n.kind <;> first | exact fun _ => rfl | (intro hn; cases hn)

namespace Node

variable {n h : Node}

/-- The head and the suffix of a selection are two constructs, since they stand under different
fields. -/
theorem not_length_namedChildren_lt_two {c : Node} (hh : n.childUnder "prefix" = some h)
    (hnamed : h.named = true) (hc : c ∈ n.namedChildren) (hsuffix : c.isUnder "suffix" = true) :
    ¬ n.namedChildren.length < 2 := by
  intro hlt
  have hunder := isUnder_of_childUnder hh
  have hmem : h ∈ n.namedChildren := List.mem_filter.2 ⟨mem_children_of_childUnder hh, hnamed⟩
  have hsingle : ∀ {ns : List Node}, h ∈ ns → c ∈ ns → ns.length < 2 → h = c := by
    intro ns hh hc hlt
    match ns, hh, hc, hlt with
    | [_], hh, hc, _ => exact (List.mem_singleton.1 hh).trans (List.mem_singleton.1 hc).symm
  rw [hsingle hmem hc hlt, isUnder, beq_iff_eq] at hunder
  rw [isUnder, hunder] at hsuffix
  cases hsuffix

theorem nameView_of_selectedName (hn : n.isWellBuilt = true) (hkind : n.kind = .selectedName)
    (hh : n.childUnder "prefix" = some h) (hnamed : h.named = true) :
    ∃ suffix, n.nameView = .applied (.selection suffix) h := by
  obtain ⟨⟨c, hc, hsuffix⟩, -⟩ := parts_of_selectedName hn hkind
  have hlength := not_length_namedChildren_lt_two hh hnamed hc hsuffix
  have hlast : ∃ suffix, n.suffix? = some suffix := by
    rw [suffix?]
    cases n.childUnder "suffix" with
    | some suffix => exact ⟨suffix, rfl⟩
    | none => exact ⟨_, List.getLast?_eq_some_getLast (List.ne_nil_of_mem hc)⟩
  obtain ⟨suffix, hlast⟩ := hlast
  have hhead : n.selectedHead? = some h := by rw [selectedHead?, hh]; rfl
  refine ⟨suffix.trimmed, ?_⟩
  rw [nameView, hkind]
  simp only [selectionView, if_neg hlength, hhead, hlast]

/-- A name whose head is a name is an application to it. -/
theorem nameView_of_name_head (hn : n.isWellBuilt = true) (happlied : n.isApplied = true)
    (hh : n.childUnder "prefix" = some h) (hname : h.kind.isName = true) :
    ∃ a, n.nameView = .applied a h ∧ ∀ r,
      ((a.apply r).isAttribute = true ↔ n.kind = .attributeName ∨ r.isAttribute = true) ∧
      ((a.apply r).isIndexed = true ↔ n.kind.isIndexed = true ∨ r.isIndexed = true) := by
  have hhead := nameHead?_of_childUnder hh
  rw [if_pos hname] at hhead
  rcases kind_of_isApplied happlied with hkind | hkind | hkind
  · obtain ⟨suffix, hview⟩ := nameView_of_selectedName hn hkind hh (named_of_isName hname)
    refine ⟨.selection suffix, hview, fun r => ?_⟩
    simp [Application.apply, hkind, Kind.isIndexed]
  · refine ⟨.arguments (n.arguments.map trimmed), ?_, fun r => ?_⟩
    · rw [nameView_of_isIndexed hkind, indexedView, hhead]
    · have hattribute : n.kind ≠ .attributeName := fun h => by rw [h] at hkind; cases hkind
      simp [Application.apply, hkind, hattribute]
  · refine ⟨.attr n.designator, by rw [nameView, hkind]; simp only [attributeView, hhead], ?_⟩
    intro r
    simp [Application.apply, hkind, Kind.isIndexed]

theorem resolveSpine_of_not_isName (hn : n.kind.isName = false) : resolveSpine n = none := by
  have hview : n.nameView = .noName := by
    revert hn
    unfold nameView
    cases n.kind <;> first | exact fun _ => rfl | (intro hn; cases hn)
  rw [resolveSpine_eq, hview]

theorem isName_of_isLiteral (hn : n.kind.isLiteral = true) : n.kind.isName = false := by
  revert hn
  cases n.kind <;> decide

/-- A name whose head is a literal is resolved from its text, if at all. -/
theorem resolveSpine_of_literal_head (hn : n.isWellBuilt = true) (happlied : n.isApplied = true)
    (hh : n.childUnder "prefix" = some h) (hliteral : h.kind.isLiteral = true) {r : ResolvedName}
    (hr : resolveSpine n = some r) :
    (r.isAttribute = true ↔ n.kind = .attributeName) ∧
      (n.kind.isIndexed = true → r.isIndexed = true) := by
  have hname := isName_of_isLiteral hliteral
  have hhead := nameHead?_of_childUnder hh
  rw [hname, if_neg Bool.false_ne_true] at hhead
  rcases kind_of_isApplied happlied with hkind | hkind | hkind
  -- A selection needs a head that can be resolved, and a literal cannot.
  · have hnamed := named_of_kind_ne_other (n := h) fun hother => by
      rw [hother] at hliteral
      cases hliteral
    obtain ⟨suffix, hview⟩ := nameView_of_selectedName hn hkind hh hnamed
    rw [resolveSpine_eq, hview] at hr
    simp only [resolveSpine_of_not_isName hname] at hr
    cases hr
  · have hview : n.nameView = .ofRoot (callOfText n.text n.line) := by
      rw [nameView_of_isIndexed hkind, indexedView, hhead]
    rw [resolveSpine_of_ofRoot hview] at hr
    obtain ⟨hindexed, hattribute⟩ := flags_of_callOfText hr
    refine ⟨?_, fun _ => hindexed⟩
    rw [hattribute]
    exact ⟨fun h => absurd h Bool.false_ne_true, fun h => by rw [h] at hkind; cases hkind⟩
  · have hview : n.nameView = .ofRoot ((nameBeforeTick n.text n.line).map
        fun r => (Application.attr n.designator).apply r) := by
      rw [nameView, hkind]
      simp only [attributeView, hhead]
    rw [resolveSpine_of_ofRoot hview] at hr
    obtain ⟨r, -, rfl⟩ := Option.map_eq_some_iff.1 hr
    exact ⟨⟨fun _ => hkind, fun _ => rfl⟩, fun h => by rw [hkind] at h; cases h⟩

end Node

/-- What is found out about a name agrees with its spine. -/
structure ResolvedName.Agrees (r : ResolvedName) (n : Node) : Prop where
  base_eq : ∀ i, n.Spine i → i.kind = .identifier → r.base = i.trimmed
  isAttribute_iff : r.isAttribute = true ↔ n.Attributed
  isIndexed : n.arguments ≠ [] → r.isIndexed = true

namespace Node

theorem agrees_of_identifier {n : Node} (hkind : n.kind = .identifier) {r : ResolvedName}
    (hr : resolveSpine n = some r) : r.Agrees n := by
  have hleaf : n.isApplied = false := by
    rw [isApplied, hkind]
    rfl
  rw [resolveSpine_of_identifier hkind] at hr
  cases hr
  refine ⟨fun i hi _ => ?_, ?_, fun hargs => ?_⟩
  · rw [eq_of_spine hleaf hi]
  · exact ⟨fun h => absurd h Bool.false_ne_true, fun h => absurd h (not_attributed hleaf)⟩
  · rw [arguments_eq, hkind] at hargs
    exact absurd rfl hargs

variable {n h : Node} (hn : n.isWellBuilt = true) (happlied : n.isApplied = true)
  (hh : n.childUnder "prefix" = some h)

include hh

/-- The arguments of an application that has none of its own are those of its head. -/
theorem isIndexed_or_mem_arguments {a : Node} (ha : a ∈ n.arguments) :
    n.kind.isIndexed = true ∨ h.kind.isName = true ∧ a ∈ h.arguments := by
  rw [arguments_eq, nameHead?_of_childUnder hh] at ha
  by_cases hindexed : n.kind.isIndexed = true
  · exact .inl hindexed
  · rw [if_neg hindexed] at ha
    split at ha
    · by_cases hname : h.kind.isName = true
      · rw [if_pos hname] at ha
        exact .inr ⟨hname, ha⟩
      · rw [if_neg hname] at ha
        cases ha
    · cases ha

include happlied

theorem spine_head_of_identifier {i : Node} (hi : n.Spine i) (hkind : i.kind = .identifier) :
    h.Spine i := by
  rcases (spine_iff happlied hh).1 hi with rfl | hi
  · rw [isApplied, hkind] at happlied
    cases happlied
  · exact hi

include hn

theorem agrees_of_literal_head (hliteral : h.kind.isLiteral = true) {r : ResolvedName}
    (hr : resolveSpine n = some r) : r.Agrees n := by
  obtain ⟨hattribute, hindexed⟩ := resolveSpine_of_literal_head hn happlied hh hliteral hr
  have hname := isName_of_isLiteral hliteral
  have hleaf : h.isApplied = false := by
    rw [isApplied, hname]
    rfl
  refine ⟨fun i hi hkind => ?_, ?_, fun hargs => ?_⟩
  · rw [← eq_of_spine hleaf (spine_head_of_identifier happlied hh hi hkind), hkind] at hliteral
    cases hliteral
  · rw [hattribute, attributed_iff happlied hh, or_iff_left (not_attributed hleaf)]
  · obtain ⟨a, ha⟩ := List.exists_mem_of_ne_nil _ hargs
    rcases isIndexed_or_mem_arguments hh ha with hkind | ⟨hkind, -⟩
    · exact hindexed hkind
    · rw [hname] at hkind
      cases hkind

/-- If what is found out about a head agrees with it, so it does for what is applied to the
head. -/
theorem agrees_of_name_head (hname : h.kind.isName = true)
    (hagrees : ∀ r, resolveSpine h = some r → r.Agrees h) {r : ResolvedName}
    (hr : resolveSpine n = some r) : r.Agrees n := by
  obtain ⟨a, hview, hflags⟩ := nameView_of_name_head hn happlied hh hname
  rw [resolveSpine_eq, hview] at hr
  obtain ⟨inner, hinner, rfl⟩ := Option.map_eq_some_iff.1 hr
  have hhead := hagrees inner hinner
  refine ⟨fun i hi hkind => ?_, ?_, fun hargs => ?_⟩
  · rw [Application.base_apply]
    exact hhead.base_eq i (spine_head_of_identifier happlied hh hi hkind) hkind
  · rw [(hflags inner).1, hhead.isAttribute_iff, attributed_iff happlied hh]
  · obtain ⟨a, ha⟩ := List.exists_mem_of_ne_nil _ hargs
    rw [(hflags inner).2]
    exact (isIndexed_or_mem_arguments hh ha).imp_right fun h =>
      hhead.isIndexed (List.ne_nil_of_mem h.2)

omit hn happlied hh

/-- Resolving finds out what stands on the spine. -/
theorem resolveSpine_agrees (n : Node) (hn : n.isWellBuilt = true) {r : ResolvedName}
    (hr : resolveSpine n = some r) : r.Agrees n := by
  have hname : n.kind.isName = true := by
    by_contra hname
    rw [resolveSpine_of_not_isName (Bool.eq_false_iff.2 hname)] at hr
    cases hr
  by_cases hkind : n.kind = .identifier
  · exact agrees_of_identifier hkind hr
  have happlied := isApplied_of_isName hname hkind
  obtain ⟨h, hh, hhead, -⟩ := exists_head hn happlied
  rcases Bool.or_eq_true_iff.1 hhead with hname | hliteral
  · have hmem := mem_children_of_childUnder hh
    have hlt := sizeOf_lt_of_mem_children hmem
    exact agrees_of_name_head hn happlied hh hname
      (fun r => resolveSpine_agrees h (isWellBuilt_of_mem_children hn hmem)) hr
  · exact agrees_of_literal_head hn happlied hh hliteral hr
termination_by sizeOf n

/-- A name with an identifier at its root resolves. -/
theorem exists_resolveSpine_of_spine {n i : Node} (hn : n.isWellBuilt = true) (hi : n.Spine i)
    (hkind : i.kind = .identifier) : ∃ r, resolveSpine n = some r := by
  induction hi with
  | self n => exact ⟨_, resolveSpine_of_identifier hkind⟩
  | @head n h i happlied hh hi ih =>
    obtain ⟨r, hr⟩ := ih (isWellBuilt_of_mem_children hn (mem_children_of_childUnder hh)) hkind
    have hname : h.kind.isName = true := by
      by_contra hname
      rw [resolveSpine_of_not_isName (Bool.eq_false_iff.2 hname)] at hr
      cases hr
    obtain ⟨a, hview, -⟩ := nameView_of_name_head hn happlied hh hname
    exact ⟨a.apply r, resolveSpine_of_applied hview hr⟩

end Node

theorem resolve_agrees {L : Lookup} {n : Node} (hn : n.isWellBuilt = true) {r : ResolvedName}
    (hr : resolve L n = some r) : r.Agrees n := by
  obtain ⟨inner, hinner, rfl⟩ := Option.map_eq_some_iff.1 hr
  obtain ⟨hbase, hattribute, hindexed⟩ := n.resolveSpine_agrees hn hinner
  exact ⟨hbase, hattribute, hindexed⟩

end DesignFacts

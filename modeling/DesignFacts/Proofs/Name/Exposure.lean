import DesignFacts.Proofs.Extraction.Record
import DesignFacts.Proofs.Name.Spine

/-!
# Which identifiers of an expression are read

An expression refers to the identifiers in it, apart from those that only name a part of something
else: suffixes of selections, designators of attributes, type marks, choices and formals. What is
left is exposed (`Node.Exposes`). This file asks whether a declared identifier that is exposed is
read.

A scan does not go down a tree child by child. It resolves a whole name at once, along its spine,
and goes on with the arguments that it met on the way. So an identifier that is exposed in a name is
looked for at its root and in its arguments (`spine_or_mem_arguments`).

Main result: an exposed identifier is read, unless it is in an argument of a name with an attribute,
of which only the root is read (`exposed_read_or_buried`).
-/

namespace DesignFacts

open Text

namespace Node

/-! ## Exposed identifiers -/

/-- The constructs of a node that are there for what they refer to. -/
def exposedParts (n : Node) : List Node :=
  match n.kind with
  | .identifier => []
  | .selectedName => n.namedChildren.filter fun c => !c.isUnder "suffix"
  | .attributeName => n.namedChildren.filter fun c => !c.isUnder "designator"
  | .qualifiedExpression => n.qualifiedOperand
  | .elementAssociation | .associationElement => n.associationValue
  | .comment | .others | .openActual => []
  | k => if k.isLiteral then [] else n.namedChildren

/-- An expression refers to an identifier in it. -/
inductive Exposes : Node → Node → Prop
  | self {n : Node} (hn : n.kind = .identifier) : Exposes n n
  | part {n c i : Node} (hc : c ∈ n.exposedParts) (hi : Exposes c i) : Exposes n i

/-! ## Arguments -/

theorem not_exposes_of_isComment {n i : Node} (hn : n.isComment = true) : ¬ n.Exposes i := by
  intro hi
  have hkind : n.kind = .comment := beq_iff_eq.1 hn
  cases hi with
  | self h => rw [hkind] at h; cases h
  | part hc => rw [exposedParts, hkind] at hc; cases hc

theorem not_exposes_of_isLiteral {n i : Node} (hn : n.kind.isLiteral = true) : ¬ n.Exposes i := by
  have hparts : n.exposedParts = [] := by
    revert hn
    unfold exposedParts
    cases n.kind <;> first | exact fun _ => rfl | (intro hn; cases hn)
  intro hi
  cases hi with
  | self h => rw [h] at hn; cases hn
  | part hc => rw [hparts] at hc; cases hc

theorem mem_besideHead {n h c : Node} (hh : n.childUnder "prefix" = some h)
    (hc : c ∈ n.namedChildren) (hunder : c.isUnder "prefix" = false)
    (hcomment : c.isComment = false) : c ∈ n.besideHead := by
  obtain ⟨i, hi, hget⟩ := headIndex?_of_childUnder hh
  obtain ⟨hchild, hnamed⟩ := List.mem_filter.1 hc
  obtain ⟨j, hj⟩ := List.mem_iff_getElem?.1 hchild
  have hne : i ≠ j := by
    rintro rfl
    cases hget.symm.trans hj
    rw [isUnder_of_childUnder hh] at hunder
    cases hunder
  refine List.mem_filter.2 ⟨List.mem_map.2 ⟨(c, j), List.mem_filter.2 ⟨?_, ?_⟩, rfl⟩, ?_⟩
  · exact List.mk_mem_zipIdx_iff_getElem?.2 hj
  · simp [hi, hnamed, hne]
  · rw [hcomment]
    rfl

/-- What is exposed beside the head of a call is exposed in an argument. -/
theorem exists_mem_ownArguments {n c i : Node} (hc : c ∈ n.besideHead) (hi : c.Exposes i) :
    ∃ a ∈ n.ownArguments, a.Exposes i := by
  by_cases hlist : c.isArgumentList = true
  · have hkind : c.kind = .other := beq_iff_eq.1 (Bool.and_eq_true_iff.1 hlist).1
    cases hi with
    | self h => rw [hkind] at h; cases h
    | @part _ a _ ha hi =>
      rw [exposedParts, hkind] at ha
      refine ⟨a, List.mem_flatMap.2 ⟨c, hc, ?_⟩, hi⟩
      rw [if_pos hlist]
      exact ha
  · refine ⟨c, List.mem_flatMap.2 ⟨c, hc, ?_⟩, hi⟩
    rw [if_neg hlist]
    exact List.mem_singleton_self c

theorem exposedParts_of_isIndexed {n : Node} (hn : n.kind.isIndexed = true) :
    n.exposedParts = n.namedChildren := by
  revert hn
  unfold exposedParts
  cases n.kind <;> first | exact fun _ => rfl | (intro hn; cases hn)

/-- The arguments of a head are arguments of what is applied to it, attributes apart. -/
theorem mem_arguments_of_head {n h a : Node} (happlied : n.isApplied = true)
    (hkind : n.kind ≠ .attributeName) (hh : n.childUnder "prefix" = some h)
    (hname : h.kind.isName = true) (ha : a ∈ h.arguments) : a ∈ n.arguments := by
  rw [arguments_eq, nameHead?_of_childUnder hh, if_pos hname]
  rcases kind_of_isApplied happlied with hselected | hindexed | hattribute
  · rw [hselected]
    exact ha
  · rw [if_pos hindexed]
    exact List.mem_append_left _ ha
  · exact absurd hattribute hkind

/-- An identifier that is exposed in a name without attributes is the root of the name or exposed
in one of its arguments. -/
theorem spine_or_mem_arguments {n i : Node} (hn : n.isWellBuilt = true)
    (hname : n.kind.isName = true) (hattributed : ¬ n.Attributed) (hi : n.Exposes i) :
    n.Spine i ∨ ∃ a ∈ n.arguments, a.Exposes i := by
  induction hi with
  | self => exact .inl (.self _)
  | @part n c i hc hi ih =>
    by_cases hidentifier : n.kind = .identifier
    · rw [exposedParts, hidentifier] at hc
      cases hc
    have happlied := isApplied_of_isName hname hidentifier
    obtain ⟨h, hh, hhead, hunique⟩ := exists_head hn happlied
    have hwell := isWellBuilt_of_mem_children hn (mem_children_of_childUnder hh)
    rw [attributed_iff happlied hh, not_or] at hattributed
    -- What the head exposes is on the spine or in an argument of the head.
    have hinside (hmem : c ∈ n.namedChildren) (hunder : c.isUnder "prefix" = true) :
        n.Spine i ∨ ∃ a ∈ n.arguments, a.Exposes i := by
      obtain rfl := hunique c (mem_children_of_mem_namedChildren hmem) hunder
      rcases Bool.or_eq_true_iff.1 hhead with hname | hliteral
      · rcases ih hwell hname hattributed.2 with hspine | ⟨a, ha, hi⟩
        · exact .inl (.head happlied hh hspine)
        · exact .inr ⟨a, mem_arguments_of_head happlied hattributed.1 hh hname ha, hi⟩
      · exact absurd hi (not_exposes_of_isLiteral hliteral)
    rcases kind_of_isApplied happlied with hkind | hkind | hkind
    · rw [exposedParts, hkind] at hc
      obtain ⟨hc, hsuffix⟩ := List.mem_filter.1 hc
      rcases (parts_of_selectedName hn hkind).2 c hc with hunder | hunder | hcomment
      · exact hinside hc hunder
      · rw [hunder] at hsuffix
        cases hsuffix
      · exact absurd hi (not_exposes_of_isComment hcomment)
    · rw [exposedParts_of_isIndexed hkind] at hc
      by_cases hunder : c.isUnder "prefix" = true
      · exact hinside hc hunder
      · have hcomment : c.isComment = false :=
          Bool.eq_false_iff.2 fun hcomment => not_exposes_of_isComment hcomment hi
        obtain ⟨a, ha, hi⟩ := exists_mem_ownArguments
          (mem_besideHead hh hc (Bool.eq_false_iff.2 hunder) hcomment) hi
        refine .inr ⟨a, ?_, hi⟩
        rw [arguments_eq, if_pos hkind]
        exact List.mem_append_right _ ha
    · exact absurd hkind hattributed.1

theorem kind_of_exposes {n i : Node} (hi : n.Exposes i) : i.kind = .identifier := by
  induction hi with
  | self hn => exact hn
  | part _ _ ih => exact ih

/-! ## Parts lie in the tree -/

theorem mem_subtree_of_mem_ownArguments {n a m : Node} (ha : a ∈ n.ownArguments)
    (hm : m ∈ a.subtree) : m ∈ n.subtree := by
  obtain ⟨c, hc, ha⟩ := List.mem_flatMap.1 ha
  have hc := mem_children_of_mem_zipIdx_filter (List.mem_filter.1 hc).1
  refine mem_subtree_of_mem_children hc ?_
  split at ha
  · exact mem_subtree_of_mem_children (mem_children_of_mem_namedChildren ha) hm
  · rwa [List.mem_singleton.1 ha] at hm

theorem mem_subtree_of_mem_arguments {n a m : Node} (ha : a ∈ n.arguments) (hm : m ∈ a.subtree) :
    m ∈ n.subtree := by
  have hhead : a ∈ (n.nameHead?.map arguments).getD [] → m ∈ n.subtree := by
    intro ha
    cases hh : n.nameHead? with
    | none =>
      rw [hh] at ha
      cases ha
    | some h =>
      rw [hh] at ha
      have hmem := mem_children_of_nameHead? hh
      have hlt := sizeOf_lt_of_mem_children hmem
      exact mem_subtree_of_mem_children hmem (mem_subtree_of_mem_arguments (n := h) ha hm)
  rw [arguments_eq] at ha
  split at ha
  · rcases List.mem_append.1 ha with ha | ha
    · exact hhead ha
    · exact mem_subtree_of_mem_ownArguments ha hm
  · split at ha
    · exact hhead ha
    · cases ha
termination_by sizeOf n

theorem mem_children_of_mem_exposedParts {n c : Node} (hc : c ∈ n.exposedParts) :
    c ∈ n.children := by
  unfold exposedParts at hc
  split at hc
  case h_1 | h_7 | h_8 | h_9 => cases hc
  case h_2 | h_3 => exact mem_children_of_mem_namedChildren (List.mem_filter.1 hc).1
  case h_4 => exact mem_children_of_mem_zipIdx_filter hc
  case h_5 | h_6 => exact mem_children_of_mem_associationValue hc
  case h_10 =>
    split at hc
    · cases hc
    · exact mem_children_of_mem_namedChildren hc

theorem mem_subtree_of_mem_exposedParts {n c m : Node} (hc : c ∈ n.exposedParts)
    (hm : m ∈ c.subtree) : m ∈ n.subtree :=
  mem_subtree_of_mem_children (mem_children_of_mem_exposedParts hc) hm

end Node

/-! ## Scanning -/

theorem classify_of_declared {L : Lookup} {r : ResolvedName}
    (hdeclared : L.declared (lower r.base) = true) (hexcluded : L.excluded (lower r.base) = false) :
    classify L r = .read := by
  simp [classify, hdeclared, hexcluded]

/-- In a node that is no name, the parts of a scan are those that expose something. -/
theorem scanParts_of_not_isName {L : Lookup} {n : Node} (hn : n.kind.isName = false) :
    scanParts L n = n.exposedParts := by
  rw [scanParts, hn, if_neg Bool.false_ne_true, Node.exposedParts]
  revert hn
  cases n.kind <;> first | exact fun _ => rfl | (intro hn; cases hn)

/-- A name that does not resolve is scanned part by part. -/
theorem mem_scanParts_of_resolve_eq_none {L : Lookup} {n c : Node} (hname : n.kind.isName = true)
    (hr : resolve L n = none) (hc : c ∈ n.exposedParts) : c ∈ scanParts L n := by
  rw [scanParts, if_pos hname, hr]
  by_cases hidentifier : n.kind = .identifier
  · rw [Node.exposedParts, hidentifier] at hc
    cases hc
  have happlied := Node.isApplied_of_isName hname hidentifier
  rcases Node.kind_of_isApplied happlied with hkind | hkind | hkind
  · rw [Node.exposedParts, hkind] at hc
    exact (List.mem_filter.1 hc).1
  · rwa [Node.exposedParts_of_isIndexed hkind] at hc
  · rw [Node.exposedParts, hkind] at hc
    exact (List.mem_filter.1 hc).1

/-- A name without attributes is scanned in its arguments. -/
theorem mem_scanParts_of_mem_arguments {L : Lookup} {n a : Node} {r : ResolvedName}
    (hname : n.kind.isName = true) (hr : resolve L n = some r) (hagrees : r.Agrees n)
    (hattributed : ¬ n.Attributed) (ha : a ∈ n.arguments) : a ∈ scanParts L n := by
  have hattribute : ¬ r.isAttribute = true := fun h => hattributed (hagrees.isAttribute_iff.1 h)
  have hindexed := hagrees.isIndexed (List.ne_nil_of_mem ha)
  rw [scanParts, if_pos hname, hr]
  simp only [nameParts, if_neg hattribute, hindexed, Bool.true_or, if_true]
  exact ha

/-- A name with a declared root that is not excluded is read. -/
theorem mem_reads_of_spine {L : Lookup} {n i : Node} {r : ResolvedName} (hi : n.Spine i)
    (hkind : i.kind = .identifier) (hdeclared : L.declared (lower i.trimmed) = true)
    (hexcluded : L.excluded (lower i.trimmed) = false) (hname : n.kind.isName = true)
    (hr : resolve L n = some r) (hagrees : r.Agrees n) :
    r ∈ (scan L n).reads ∧ r.base = i.trimmed := by
  have hbase := hagrees.base_eq i hi hkind
  rw [← hbase] at hdeclared hexcluded
  refine ⟨?_, hbase⟩
  rw [reads_scan]
  apply List.mem_append_left
  simp only [ownScan, if_pos hname, hr, Option.map_some, Option.getD_some, contribution,
    classify_of_declared hdeclared hexcluded]
  exact List.mem_singleton_self r

/-- An identifier stands in an argument of a name with an attribute. -/
def Node.Buries (n i : Node) : Prop := n.Attributed ∧ n.Exposes i ∧ ¬ n.Spine i

/-- A scan reads what is exposed, or buries it on the way. The induction is on the parts that the
scan goes on with. -/
theorem Node.Exposes.read_or_buried {L : Lookup} {i : Node}
    (hdeclared : L.declared (lower i.trimmed) = true)
    (hexcluded : L.excluded (lower i.trimmed) = false) (n : Node) (hn : n.isWellBuilt = true)
    (hi : n.Exposes i) :
    (∃ r ∈ (scan L n).reads, r.base = i.trimmed) ∨ ∃ m ∈ n.subtree, m.Buries i := by
  -- What is found in a part of the scan is found in the scan.
  have hpart : ∀ p ∈ scanParts L n, (∀ m ∈ p.subtree, m ∈ n.subtree) → p.Exposes i →
      (∃ r ∈ (scan L n).reads, r.base = i.trimmed) ∨ ∃ m ∈ n.subtree, m.Buries i := by
    intro p hp hsub hi
    have hlt := sizeOf_lt_of_mem_scanParts hp
    have hwell : p.isWellBuilt = true :=
      List.all_eq_true.2 fun m hm => List.all_eq_true.1 hn m (hsub m hm)
    rcases read_or_buried hdeclared hexcluded p hwell hi with ⟨r, hr, hbase⟩ | ⟨m, hm, hburies⟩
    · refine .inl ⟨r, ?_, hbase⟩
      rw [reads_scan]
      exact List.mem_append_right _ (List.mem_flatMap.2 ⟨p, hp, hr⟩)
    · exact .inr ⟨m, hsub m hm, hburies⟩
  have hkind := Node.kind_of_exposes hi
  by_cases hname : n.kind.isName = true
  · cases hr : resolve L n with
    | none =>
      cases hi with
      | self =>
        obtain ⟨r, hr'⟩ := Node.exists_resolveSpine_of_spine hn (.self _) hkind
        rw [resolve, hr'] at hr
        cases hr
      | part hc hi =>
        exact hpart _ (mem_scanParts_of_resolve_eq_none hname hr hc)
          (fun _ hm => Node.mem_subtree_of_mem_exposedParts hc hm) hi
    | some r =>
      have hagrees := resolve_agrees hn hr
      by_cases hspine : n.Spine i
      · exact .inl ⟨r, mem_reads_of_spine hspine hkind hdeclared hexcluded hname hr hagrees⟩
      by_cases hattributed : n.Attributed
      · exact .inr ⟨n, n.mem_subtree_self, hattributed, hi, hspine⟩
      · obtain ⟨a, ha, hi⟩ :=
          (Node.spine_or_mem_arguments hn hname hattributed hi).resolve_left hspine
        exact hpart a (mem_scanParts_of_mem_arguments hname hr hagrees hattributed ha)
          (fun _ hm => Node.mem_subtree_of_mem_arguments ha hm) hi
  · have hparts := scanParts_of_not_isName (L := L) (Bool.eq_false_iff.2 hname)
    cases hi with
    | self =>
      rw [hkind] at hname
      exact absurd rfl hname
    | part hc hi =>
      exact hpart _ (hparts ▸ hc) (fun _ hm => Node.mem_subtree_of_mem_exposedParts hc hm) hi
termination_by sizeOf n

/-- Nothing but the root of a name with an attribute is read. -/
theorem base_of_attributed {L : Lookup} {n i : Node} (hn : n.isWellBuilt = true)
    (hattributed : n.Attributed) (hi : n.Spine i) (hkind : i.kind = .identifier) :
    ∀ r ∈ (scan L n).reads, r.base = i.trimmed := by
  intro r hread
  have happlied : n.isApplied = true := by
    by_contra happlied
    exact Node.not_attributed (Bool.eq_false_iff.2 happlied) hattributed
  obtain ⟨inner, hinner⟩ := Node.exists_resolveSpine_of_spine hn hi hkind
  obtain ⟨found, hr⟩ : ∃ found, resolve L n = some found := ⟨_, by rw [resolve, hinner]; rfl⟩
  have hagrees := resolve_agrees hn hr
  have hparts : scanParts L n = [] := by
    rw [scanParts, if_pos (Bool.and_eq_true_iff.1 happlied).1, hr]
    exact if_pos (hagrees.isAttribute_iff.2 hattributed)
  rw [reads_scan, hparts, List.flatMap_nil, List.append_nil] at hread
  cases hr.symm.trans (resolve_of_mem_ownScan hread).1
  exact hagrees.base_eq i hi hkind

/-- Every exposed identifier that is declared and not excluded is read, unless it stands in an
argument of a name with an attribute. Of such a name nothing but the root is read. -/
theorem exposed_read_or_buried (L : Lookup) (n : Node) (hn : n.isWellBuilt = true) :
    (∀ i, n.Exposes i → L.declared (lower i.trimmed) = true →
      L.excluded (lower i.trimmed) = false →
        (∃ r ∈ (scan L n).reads, r.base = i.trimmed) ∨ ∃ m ∈ n.subtree, m.Buries i) ∧
      ∀ m ∈ n.subtree, m.Attributed → ∀ i, m.Spine i → i.kind = .identifier →
        ∀ r ∈ (scan L m).reads, r.base = i.trimmed := by
  constructor
  · intro i hi hdeclared hexcluded
    exact hi.read_or_buried hdeclared hexcluded n hn
  · intro m hm hattributed i hi hkind
    exact base_of_attributed (Node.isWellBuilt_of_mem_subtree hn hm) hattributed hi hkind

/-- The name `ptr'event`. -/
def eventName : Node :=
  .branch "attribute_name" [.under "prefix" (.leaf "identifier" "ptr"),
    .under "designator" (.leaf "identifier" "event")]

/-- The name `mem(ptr'event)`. -/
def eventSlot : Node :=
  .under "prefix" (.branch "indexed_name" [.under "prefix" (.leaf "identifier" "mem"), eventName])

/-- The call `mem(ptr'event)(rec.f)`. -/
def eventCall : Node :=
  .branch "function_call" [eventSlot,
    .branch "selected_name" [.under "prefix" (.leaf "identifier" "rec"),
      .under "suffix" (.leaf "identifier" "f")]]

theorem exposed_read_or_buried_eventCall :
    let ptr : Node := .under "prefix" (.leaf "identifier" "ptr")
    eventCall.isWellBuilt = true ∧ eventCall.Exposes ptr ∧
      ((∃ r ∈ (scan declaredLookup eventCall).reads, r.base = "ptr".toList) ∨
        ∃ m ∈ eventCall.subtree, m.Buries ptr) ∧
      eventName ∈ eventCall.subtree ∧ eventName.Attributed ∧ eventName.Spine ptr ∧
      ∀ r ∈ (scan declaredLookup eventName).reads, r.base = "ptr".toList := by
  intro ptr
  have hwell : eventCall.isWellBuilt = true := by decide +kernel
  have hname : eventName.Exposes ptr := .part List.mem_cons_self (.self rfl)
  have hslot : eventSlot.Exposes ptr :=
    .part (List.mem_cons_of_mem _ (List.mem_singleton_self eventName)) hname
  have hcall : eventCall.Exposes ptr := .part List.mem_cons_self hslot
  have hmem : eventName ∈ eventCall.subtree :=
    Node.mem_subtree_of_mem_children (c := eventSlot) List.mem_cons_self
      (Node.mem_subtree_of_mem_children (List.mem_cons_of_mem _ (List.mem_singleton_self eventName))
        eventName.mem_subtree_self)
  have hattributed : eventName.Attributed := ⟨eventName, .self eventName, rfl⟩
  have hspine : eventName.Spine ptr := .head rfl rfl (.self ptr)
  obtain ⟨hread, hroot⟩ := exposed_read_or_buried declaredLookup eventCall hwell
  exact ⟨hwell, hcall, hread ptr hcall rfl rfl, hmem, hattributed, hspine,
    hroot eventName hmem hattributed ptr hspine rfl⟩

/-- The call `state_t'pos(cur)`. -/
def positionCall : Node :=
  .branch "function_call" [
    .under "prefix" (.branch "attribute_name" [.under "prefix" (.leaf "identifier" "state_t"),
      .under "designator" (.leaf "identifier" "pos")]),
    .leaf "identifier" "cur"]

/-- The argument of an attribute is exposed and not read. -/
theorem positionCall_argument_unread :
    positionCall.isWellBuilt = true ∧
      ¬ ∀ i, positionCall.Exposes i → declaredLookup.declared (lower i.trimmed) = true →
        declaredLookup.excluded (lower i.trimmed) = false →
          ∃ r ∈ (scan declaredLookup positionCall).reads, r.base = i.trimmed := by
  refine ⟨by decide +kernel, fun h => ?_⟩
  have hexposes : positionCall.Exposes (.leaf "identifier" "cur") :=
    .part (List.mem_cons_of_mem _ (List.mem_singleton_self _)) (.self rfl)
  obtain ⟨r, hr, hbase⟩ := h _ hexposes rfl rfl
  have hreads : (scan declaredLookup positionCall).reads.map (·.base) = ["state_t".toList] := by
    decide +kernel
  have hmem := List.mem_map_of_mem (f := (·.base)) hr
  rw [hreads, hbase] at hmem
  revert hmem
  decide +kernel

end DesignFacts

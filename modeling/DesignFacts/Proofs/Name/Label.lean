import DesignFacts.Proofs.Name.Relabelling
import DesignFacts.Proofs.Name.Visit

/-!
# Labels and type marks are not read

Scanning two expressions that are the same apart from labels (`Node.Relabels`).

**Parts.** A scan goes on with the value of an association, with the operand of a qualified
expression, and with the arguments of a name. In every case the labels are left behind, and the
parts of the two expressions are again the same apart from labels (`forall₂_scanParts`).

**Contributions.** A node contributes the same name to both scans (`sameNames_ownScan`).

Main result: the two expressions have the same reads and calls (`scan_ignores_labels`).
-/

namespace DesignFacts

open Text

namespace Node

/-! ## Parts of a scan -/

theorem qualifiedOperand_of_typeMark {n mark : Node} {before after : List Node}
    (hn : n.children = before ++ mark :: after)
    (hfirst : ∀ c ∈ before, c.isUnder "type_mark" = false)
    (hmark : mark.isUnder "type_mark" = true) :
    n.qualifiedOperand = (before ++ after).filter (·.named) := by
  have hindex : n.typeMarkIndex? = some before.length := by
    rw [typeMarkIndex?, hn, findIdx?_append_cons hfirst hmark]
    rfl
  rw [qualifiedOperand, hindex, hn, map_filter_zipIdx_middle fun _ => rfl]

/-- The operand of a qualified expression stays, with other labels in it. -/
theorem forall₂_qualifiedOperand {n m : Node} (h : n.Relabels m)
    (hkind : n.kind = .qualifiedExpression) :
    List.Forall₂ Relabels n.qualifiedOperand m.qualifiedOperand := by
  have hassociation : ¬ n.isAssociation = true := by
    rw [isAssociation, hkind]
    decide
  cases h with
  | parts _ hparts =>
    have hindex : n.typeMarkIndex? = m.typeMarkIndex? := by
      rw [typeMarkIndex?, typeMarkIndex?,
        findIdx?_eq_of_forall₂ (fun _ _ h => (h.stays.isUnder_eq "type_mark").symm) hparts,
        findIdx?_eq_of_forall₂ (fun _ _ h => h.stays.named_eq.symm) hparts]
    rw [qualifiedOperand, qualifiedOperand, hindex]
    apply forall₂_filter_zipIdx _ hparts
    intro c d i hcd
    exact congrArg (· && m.typeMarkIndex? != some i) hcd.stays.named_eq.symm
  | beforeArrow _ hkind => exact absurd hkind hassociation
  | besideValue _ hkind => exact absurd hkind hassociation
  | @typeMark _ _ mark mark' before after before' after' _ _ hn hm hfirst hmark hmark' hbefore
      hafter =>
    have hfirst' := forall_eq_false_of_forall₂
      (fun _ _ h => (h.stays.isUnder_eq "type_mark").symm) hbefore hfirst
    rw [qualifiedOperand_of_typeMark hn hfirst hmark,
      qualifiedOperand_of_typeMark hm hfirst' hmark']
    exact forall₂_filter (fun _ _ h => h.stays.named_eq.symm) (List.rel_append hbefore hafter)

/-- The child that is marked as the value of an association. -/
def markedValue? (n : Node) : Option Node := (n.childUnder "value").or (n.childUnder "actual")

theorem markedValue?_eq_none_iff {n : Node} :
    n.markedValue? = none ↔ ∀ c ∈ n.children, c.isMarkedValue = false := by
  simp only [markedValue?, Option.or_eq_none_iff, childUnder, List.find?_eq_none, isMarkedValue,
    Bool.or_eq_false_iff, Bool.not_eq_true, ← forall_and]

theorem associationValue_of_markedValue {n v : Node} (hv : n.markedValue? = some v) :
    n.associationValue = [v] := by
  rw [markedValue?] at hv
  rw [associationValue, hv]

theorem associationValue_of_arrow {n arrow : Node} {before after : List Node}
    (hvalue : n.markedValue? = none) (hn : n.children = before ++ arrow :: after)
    (hbefore : ∀ c ∈ before, c.isToken "=>" = false) (harrow : arrow.isToken "=>" = true) :
    n.associationValue = after.filter (·.named) := by
  rw [markedValue?] at hvalue
  rw [associationValue, hvalue, hn, splitAt?_append_cons hbefore harrow]

/-- Beside labels, the marked values are related. -/
theorem ValueRow.rel_find? {R : Node → Node → Prop} {field : String} {cs ds : List Node}
    (hR : ∀ c d, R c d → d.isUnder field = c.isUnder field)
    (hlabel : ∀ c : Node, c.isMarkedValue = false → c.isUnder field = false)
    (h : ValueRow R cs ds) :
    Option.Rel R (cs.find? (·.isUnder field)) (ds.find? (·.isUnder field)) := by
  induction h with
  | nil => exact .none
  | @related c d cs ds hcd _ ih =>
    rw [List.find?_cons, List.find?_cons, hR c d hcd]
    split
    · exact .some hcd
    · exact ih
  | @label c d cs ds hc hfield _ ih =>
    have hd : d.isUnder field = false := by
      rw [isUnder, hfield]
      exact hlabel c hc
    rw [List.find?_cons, List.find?_cons, hlabel c hc, hd]
    exact ih

/-- A marked value is all that is scanned. -/
theorem forall₂_associationValue_of_some {n m : Node}
    (hrel : Option.Rel Relabels n.markedValue? m.markedValue?)
    (hsome : n.markedValue?.isSome = true) :
    List.Forall₂ Relabels n.associationValue m.associationValue := by
  obtain ⟨v, hv⟩ := Option.isSome_iff_exists.1 hsome
  rw [hv] at hrel
  cases hw : m.markedValue? with
  | none => rw [hw] at hrel; cases hrel
  | some w =>
    rw [hw] at hrel
    rw [associationValue_of_markedValue hv, associationValue_of_markedValue hw]
    cases hrel with
    | some hvw => exact .cons hvw .nil

/-- Without a marked value, what stands behind the arrow is scanned. -/
theorem forall₂_associationValue_of_none {n m : Node}
    (hparts : List.Forall₂ Relabels n.children m.children) (hn : n.markedValue? = none)
    (hm : m.markedValue? = none) : List.Forall₂ Relabels n.associationValue m.associationValue := by
  have hsplit := rel_splitAt? (p := (·.isToken "=>")) (fun _ _ h => h.stays.arrow_eq.symm) hparts
  rw [markedValue?] at hn hm
  rw [associationValue, associationValue, hn, hm]
  cases hs : splitAt? (·.isToken "=>") n.children <;>
    cases ht : splitAt? (·.isToken "=>") m.children <;> rw [hs, ht] at hsplit <;> cases hsplit
  · exact forall₂_namedChildren hparts
  · rename_i hsides
    exact forall₂_filter (fun _ _ h => h.stays.named_eq.symm) hsides.2

/-- The value of an association stays, with other labels in it. -/
theorem forall₂_associationValue {n m : Node} (h : n.Relabels m) (hkind : n.isAssociation = true) :
    List.Forall₂ Relabels n.associationValue m.associationValue := by
  have hmarked : ∀ c d : Node, c.Relabels d → c.isMarkedValue = d.isMarkedValue := by
    intro c d hcd
    rw [isMarkedValue, isMarkedValue, hcd.stays.isUnder_eq, hcd.stays.isUnder_eq]
  cases h with
  | parts _ hparts =>
    -- The parts correspond one by one, and so do the marks on them.
    have hrel : Option.Rel Relabels n.markedValue? m.markedValue? :=
      rel_or (rel_childUnder hparts "value") (rel_childUnder hparts "actual")
    by_cases hsome : n.markedValue?.isSome = true
    · exact forall₂_associationValue_of_some hrel hsome
    · have hnone := Option.not_isSome_iff_eq_none.1 hsome
      refine forall₂_associationValue_of_none hparts hnone (markedValue?_eq_none_iff.2 ?_)
      exact forall_eq_false_of_forall₂ hmarked hparts (markedValue?_eq_none_iff.1 hnone)
  | @beforeArrow _ _ arrow arrow' before after before' after' _ _ hnone hn hm hbefore hbefore'
      harrow harrows hafter =>
    -- Only what stands before the arrow differs, and the value stands behind it.
    have hlabels : ∀ c ∈ before', c.isToken "=>" = false := fun c hc => (hbefore' c hc).1
    have hbehind : ∀ c ∈ arrow' :: after', c.isMarkedValue = false := by
      apply forall_eq_false_of_forall₂ hmarked (.cons harrows hafter)
      intro c hc
      exact hnone c (hn ▸ List.mem_append_right before hc)
    have hnone' : ∀ c ∈ m.children, c.isMarkedValue = false := by
      intro c hc
      rw [hm] at hc
      rcases List.mem_append.1 hc with hc | hc
      · exact (hbefore' c hc).2
      · exact hbehind c hc
    rw [associationValue_of_arrow (markedValue?_eq_none_iff.2 hnone) hn hbefore harrow,
      associationValue_of_arrow (markedValue?_eq_none_iff.2 hnone') hm hlabels
        (harrows.stays.arrow_eq.trans harrow)]
    exact forall₂_filter (fun _ _ h => h.stays.named_eq.symm) hafter
  | besideValue _ _ hsome hparts =>
    -- What is beside a marked value may come and go, but no mark does.
    have hrel (field : String) (hlabel : ∀ c : Node, c.isMarkedValue = false →
        c.isUnder field = false) : Option.Rel Relabels (n.childUnder field) (m.childUnder field) :=
      hparts.rel_find? (fun _ _ h => h.stays.isUnder_eq field) hlabel
    apply forall₂_associationValue_of_some
    · exact rel_or (hrel "value" fun c hc => (Bool.or_eq_false_iff.1 hc).1)
        (hrel "actual" fun c hc => (Bool.or_eq_false_iff.1 hc).2)
    · obtain ⟨c, hc, hvalue⟩ := hsome
      rw [Option.isSome_iff_ne_none]
      intro hnone
      rw [markedValue?_eq_none_iff.1 hnone c hc] at hvalue
      cases hvalue
  | typeMark _ hqualified =>
    rw [isAssociation, hqualified] at hkind
    cases hkind

end Node

theorem forall₂_nameParts (L : Lookup) {n m : Node} {r s : ResolvedName} (hsame : r.SameName s)
    (harguments : List.Forall₂ Node.Relabels n.arguments m.arguments) :
    List.Forall₂ Node.Relabels (nameParts L n r) (nameParts L m s) := by
  rw [nameParts, nameParts, hsame.isAttribute_eq, hsame.isIndexed_eq, hsame.classify_eq L]
  split
  · exact .nil
  · split
    · exact harguments
    · exact .nil

/-- A scan goes on with the same parts, with other labels in them. -/
theorem forall₂_scanParts (L : Lookup) {n m : Node} (hn : n.isMarked = true) (h : n.Relabels m) :
    List.Forall₂ Node.Relabels (scanParts L n) (scanParts L m) := by
  by_cases hname : n.kind.isName = true
  · obtain ⟨r, s, hr, hs, hsame⟩ := Node.resolve_relabels L hn hname h
    obtain ⟨-, harguments, -⟩ := (n.markedName_of_isMarked hn hname).relabels hn h
    rw [scanParts, scanParts, h.stays.kind_eq, if_pos hname, if_pos hname, hr, hs]
    exact forall₂_nameParts L hsame harguments
  rw [scanParts, scanParts, h.stays.kind_eq, if_neg hname, if_neg hname]
  by_cases hqualified : n.kind = .qualifiedExpression
  · rw [hqualified]
    exact Node.forall₂_qualifiedOperand h hqualified
  by_cases hassociation : n.isAssociation = true
  · have hvalue := Node.forall₂_associationValue h hassociation
    revert hassociation
    unfold Node.isAssociation
    cases n.kind <;> intro hassociation <;> first | exact hvalue | cases hassociation
  · have hnamed := Node.forall₂_namedChildren
      (h.forall₂_children (Bool.eq_false_iff.2 hassociation) hqualified)
    revert hqualified hassociation
    unfold Node.isAssociation
    cases n.kind <;> intro hqualified hassociation <;>
      first
      | exact .nil
      | exact hnamed
      | exact absurd rfl hqualified
      | exact absurd rfl hassociation

/-! ## Scanning -/

/-- Two scans with the same reads and calls, up to arguments, attributes and lines. -/
structure Scan.SameNames (s t : Scan) : Prop where
  reads : List.Forall₂ ResolvedName.SameName s.reads t.reads
  calls : s.calls.map (·.name) = t.calls.map (·.name)

namespace Scan.SameNames

theorem append {s t s' t' : Scan} (h : s.SameNames t) (h' : s'.SameNames t') :
    (s ++ s').SameNames (t ++ t') where
  reads := List.rel_append h.reads h'.reads
  calls := by
    show (s.calls ++ s'.calls).map _ = (t.calls ++ t'.calls).map _
    rw [List.map_append, List.map_append, h.calls, h'.calls]

theorem concat {ss ts : List Scan} (h : List.Forall₂ SameNames ss ts) :
    (Scan.concat ss).SameNames (Scan.concat ts) := by
  induction h with
  | nil => exact ⟨.nil, rfl⟩
  | cons hst _ ih => exact hst.append ih

end Scan.SameNames

theorem sameNames_ownScan (L : Lookup) {n m : Node} (hn : n.isMarked = true) (h : n.Relabels m) :
    (ownScan L n).SameNames (ownScan L m) := by
  rw [ownScan, ownScan, h.stays.kind_eq]
  by_cases hname : n.kind.isName = true
  · obtain ⟨r, s, hr, hs, hsame⟩ := Node.resolve_relabels L hn hname h
    rw [if_pos hname, if_pos hname, hr, hs, Option.map_some, Option.map_some, Option.getD_some,
      Option.getD_some, contribution, contribution, hsame.classify_eq L]
    cases classify L s with
    | read => exact ⟨.cons hsame .nil, rfl⟩
    | call => exact ⟨.nil, congrArg ([·]) hsame.path_eq⟩
    | neither => exact ⟨.nil, rfl⟩
  · rw [if_neg hname, if_neg hname]
    exact ⟨.nil, rfl⟩

theorem sameNames_scan (L : Lookup) (n : Node) (hn : n.isMarked = true) {m : Node}
    (h : n.Relabels m) : (scan L n).SameNames (scan L m) := by
  have hparts : List.Forall₂ (fun p q => p ∈ scanParts L n ∧ p.Relabels q)
      (scanParts L n) (scanParts L m) :=
    (List.forall₂_and_left _ _).2 ⟨fun _ hp => hp, forall₂_scanParts L hn h⟩
  rw [scan_eq, scan_eq]
  refine (sameNames_ownScan L hn h).append (.concat ?_)
  rw [List.forall₂_map_left_iff, List.forall₂_map_right_iff]
  refine hparts.imp ?_
  intro p q hpq
  have hlt := sizeOf_lt_of_mem_scanParts hpq.1
  exact sameNames_scan L p
    (Node.isMarked_of_mem_subtree hn (mem_subtree_of_mem_scanParts hpq.1)) hpq.2
termination_by sizeOf n

/-- **Labels and type marks are not read.** Whatever they are replaced by, at any depth, an
expression reads the same paths and the same roots, and calls the same names in the same order. -/
theorem scan_ignores_labels (L : Lookup) {n m : Node} (hn : n.isMarked = true)
    (h : n.Relabels m) :
    (scan L m).readPaths = (scan L n).readPaths ∧ (scan L m).readBases = (scan L n).readBases ∧
      (scan L m).calls.map (·.name) = (scan L n).calls.map (·.name) := by
  have hsame := sameNames_scan L n hn h
  refine ⟨?_, ?_, hsame.calls.symm⟩
  · rw [Scan.readPaths, Scan.readPaths, map_eq_of_forall₂ (fun _ _ h => h.path_eq) hsame.reads]
  · rw [Scan.readBases, Scan.readBases, map_eq_of_forall₂ (fun _ _ h => h.base_eq) hsame.reads]

/-- The call `f(labels => mark'(choice => c))`. -/
def labelledCall (labels : List Node) (mark choice : Node) : Node :=
  .branch "function_call" [.under "prefix" (.leaf "identifier" "f"),
    .branch "association_element" (labels ++ [.word "=>",
      .branch "qualified_expression" [.under "type_mark" mark,
        .branch "aggregate" [.branch "element_association" [.under "choice" choice,
          .under "value" (.leaf "identifier" "c")]]]])]

theorem Node.stays_branch (tag : String) {ns ms : List Node} (hns : ns ≠ []) :
    (branch tag ns).Stays (branch tag ms) :=
  ⟨rfl, rfl, rfl, rfl, fun h => absurd h hns⟩

theorem scan_ignores_labels_labelledCall :
    let plain := labelledCall [.leaf "identifier" "a"] (.leaf "identifier" "word_t")
      (.leaf "identifier" "b")
    let other := labelledCall [memoryCall, .word "|", memoryCall] memoryCall memoryCall
    plain.isMarked = true ∧ plain.Relabels other ∧
      (scan memoryLookup other).readPaths = (scan memoryLookup plain).readPaths ∧
      (scan memoryLookup other).readBases = (scan memoryLookup plain).readBases ∧
      (scan memoryLookup other).calls.map (·.name) =
        (scan memoryLookup plain).calls.map (·.name) := by
  intro plain other
  have hmarked : plain.isMarked = true := by decide +kernel
  have hchoice : Node.Relabels
      (.branch "element_association" [.under "choice" (.leaf "identifier" "b"),
        .under "value" (.leaf "identifier" "c")])
      (.branch "element_association" [.under "choice" memoryCall,
        .under "value" (.leaf "identifier" "c")]) :=
    .besideValue (Node.stays_branch _ (List.cons_ne_nil _ _)) rfl
      ⟨_, List.mem_cons_of_mem _ (List.mem_singleton_self _), rfl⟩
      (.label rfl rfl (.related (.refl _) .nil))
  have hqualified : Node.Relabels
      (.branch "qualified_expression" [.under "type_mark" (.leaf "identifier" "word_t"),
        .branch "aggregate" [.branch "element_association" [
          .under "choice" (.leaf "identifier" "b"), .under "value" (.leaf "identifier" "c")]]])
      (.branch "qualified_expression" [.under "type_mark" memoryCall,
        .branch "aggregate" [.branch "element_association" [.under "choice" memoryCall,
          .under "value" (.leaf "identifier" "c")]]]) :=
    .typeMark (Node.stays_branch _ (List.cons_ne_nil _ _)) rfl
      (List.nil_append _).symm (List.nil_append _).symm (List.forall_mem_nil _) rfl rfl .nil
      (.cons (.parts (Node.stays_branch _ (List.cons_ne_nil _ _)) (.cons hchoice .nil)) .nil)
  have hrelabels : plain.Relabels other := by
    refine .parts (Node.stays_branch _ (List.cons_ne_nil _ _)) (.cons (.refl _) (.cons ?_ .nil))
    exact .beforeArrow (Node.stays_branch _ (List.cons_ne_nil _ _)) rfl (by decide +kernel) rfl rfl
      (by decide +kernel) (by decide +kernel) rfl (.refl _) (.cons hqualified .nil)
  exact ⟨hmarked, hrelabels, scan_ignores_labels memoryLookup hmarked hrelabels⟩

end DesignFacts

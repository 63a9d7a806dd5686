import DesignFacts.Proofs.Name.Path

/-!
# How often a resolved name lists an argument

Arguments may be applied to a name more than once, as in `arr(i)(j)` or `arr(i).f(j)`. There are two
ways to gather them, and both go down the spine.

**Arguments.** The arguments of a name are those that the nodes on its spine apply themselves, from
inside out, each once (`MarkedName.arguments_eq_flatMap`).

**Indices.** A resolved name lists the texts of arguments. For every node on the spine with
arguments it adds all arguments of that node, with those of its head among them
(`MarkedName.indices_resolveSpine`). So an argument is listed once for every such node from its own
one outward: `arr(i)(j)` has the indices `i`, `i`, `j`.

Main result: the two agree if and only if only the outermost of these nodes has arguments
(`resolve_indices_eq_iff`).
-/

namespace DesignFacts

open Text

namespace Node

/-- The nodes on the spine of a name that have arguments of their own, from outside in. -/
def indexedSpine (n : Node) : List Node := n.spine.filter (·.kind.isIndexed)

section Step

variable {n h : Node} (happlied : n.isApplied = true) (hh : n.childUnder "prefix" = some h)

include happlied hh

theorem indexedSpine_of_isIndexed (hkind : n.kind.isIndexed = true) :
    n.indexedSpine = n :: h.indexedSpine := by
  rw [indexedSpine, spine_of_head happlied hh, List.filter_cons, if_pos hkind]
  rfl

theorem indexedSpine_of_not_isIndexed (hkind : n.kind.isIndexed = false) :
    n.indexedSpine = h.indexedSpine := by
  rw [indexedSpine, spine_of_head happlied hh, List.filter_cons, hkind]
  rfl

end Step

theorem indexedSpine_of_identifier {n : Node} (hkind : n.kind = .identifier) :
    n.indexedSpine = [] := by
  rw [indexedSpine, spine_of_identifier hkind, List.filter_singleton, hkind]
  rfl

/-! ## Arguments -/

namespace MarkedName

/-- The arguments of a name without attributes are those on its spine, from inside out, and those of
the outermost node with arguments. -/
theorem arguments_eq_flatMap {n : Node} (hn : n.MarkedName)
    (hattribute : ∀ m ∈ n.spine, m.kind ≠ .attributeName) :
    n.arguments = n.indexedSpine.reverse.flatMap ownArguments ∧
      n.arguments = (n.indexedSpine.head?.map Node.arguments).getD [] := by
  induction hn with
  | @identifier n hkind =>
    rw [arguments_eq, hkind, indexedSpine_of_identifier hkind]
    exact ⟨rfl, rfl⟩
  | @selection n h s hkind hh hs hsuffix hhead ih =>
    have happlied := isApplied_of_selectedName hkind
    rw [spine_of_head happlied hh] at hattribute
    rw [arguments_of_selectedName hh hhead.isName hkind,
      indexedSpine_of_not_isIndexed happlied hh (by rw [hkind]; rfl)]
    exact ih fun m hm => hattribute m (List.mem_cons_of_mem n hm)
  | @arguments n h hkind hh hhead ih =>
    have happlied := isApplied_of_isIndexed hkind
    rw [spine_of_head happlied hh] at hattribute
    have hinner := (ih fun m hm => hattribute m (List.mem_cons_of_mem n hm)).1
    rw [indexedSpine_of_isIndexed happlied hh hkind]
    refine ⟨?_, rfl⟩
    rw [arguments_of_isIndexed hh hhead.isName hkind, hinner, List.reverse_cons,
      List.flatMap_append, List.flatMap_singleton]
  | @attr n h hkind hh hhead ih =>
    rw [spine_eq] at hattribute
    exact absurd hkind (hattribute n List.mem_cons_self)

/-! ## Indices -/

/-- Every node with arguments on the spine adds all arguments of its own and of its head. -/
theorem indices_resolveSpine {n : Node} (hn : n.MarkedName) {r : ResolvedName}
    (hr : resolveSpine n = some r) :
    r.indices = n.indexedSpine.reverse.flatMap fun m => m.arguments.map trimmed := by
  induction hn generalizing r with
  | @identifier n hkind =>
    rw [resolveSpine_of_identifier hkind] at hr
    cases hr
    rw [indexedSpine_of_identifier hkind]
    rfl
  | @selection n h s hkind hh hs hsuffix hhead ih =>
    have happlied := isApplied_of_selectedName hkind
    rw [resolveSpine_eq, nameView_of_suffix hh hhead.isName hkind hs hsuffix] at hr
    obtain ⟨inner, hinner, rfl⟩ := Option.map_eq_some_iff.1 hr
    rw [indexedSpine_of_not_isIndexed happlied hh (by rw [hkind]; rfl), ← ih hinner]
    rfl
  -- Only here do both sides grow: the spine is read from the outside in, the name from the inside
  -- out.
  | @arguments n h hkind hh hhead ih =>
    have happlied := isApplied_of_isIndexed hkind
    rw [resolveSpine_eq, nameView_of_arguments hh hhead.isName hkind] at hr
    obtain ⟨inner, hinner, rfl⟩ := Option.map_eq_some_iff.1 hr
    rw [indexedSpine_of_isIndexed happlied hh hkind, List.reverse_cons, List.flatMap_append,
      List.flatMap_singleton, ← ih hinner]
    rfl
  | @attr n h hkind hh hhead ih =>
    have happlied := isApplied_of_attributeName hkind
    rw [resolveSpine_eq, nameView_of_attributeName hh hhead.isName hkind] at hr
    obtain ⟨inner, hinner, rfl⟩ := Option.map_eq_some_iff.1 hr
    rw [indexedSpine_of_not_isIndexed happlied hh (by rw [hkind]; rfl), ← ih hinner]
    rfl

end MarkedName

end Node

/-- A name without attributes has every argument on its spine once, from inside out. Resolved, it
lists an argument once for each node with arguments from its own one outward. So the two agree just
if no such node but the outermost one has arguments. -/
theorem resolve_indices_eq_iff (L : Lookup) {n : Node} (hn : n.MarkedName)
    (hattribute : ∀ m ∈ n.spine, m.kind ≠ .attributeName) :
    ∃ r, resolve L n = some r ∧
      n.arguments = n.indexedSpine.reverse.flatMap Node.ownArguments ∧
      r.indices = n.indexedSpine.reverse.flatMap (fun m => m.arguments.map Node.trimmed) ∧
      (r.indices = n.arguments.map Node.trimmed ↔
        ∀ m ∈ n.indexedSpine.tail, m.arguments = []) := by
  obtain ⟨r, hr, -⟩ := hn.exists_resolveSpine
  obtain ⟨harguments, houter⟩ := hn.arguments_eq_flatMap hattribute
  have hindices := hn.indices_resolveSpine hr
  refine ⟨_, resolve_of_resolveSpine hr, harguments, hindices, ?_⟩
  show r.indices = _ ↔ _
  rw [hindices, houter]
  cases n.indexedSpine with
  | nil => simp
  | cons m ms =>
    rw [List.reverse_cons, List.flatMap_append, List.flatMap_singleton, List.head?_cons,
      Option.map_some, Option.getD_some, List.append_left_eq_self]
    simp

/-- The element `arr(i)`, as the head of a name. -/
def elementName : Node :=
  .under "prefix" (.branch "indexed_name" [.under "prefix" (.leaf "identifier" "arr"),
    .leaf "identifier" "i"])

/-- The selection `arr(i).f`. -/
def elementField : Node :=
  .branch "selected_name" [elementName, .under "suffix" (.leaf "identifier" "f")]

theorem resolve_indices_eq_iff_elementField :
    elementField.MarkedName ∧ (∀ m ∈ elementField.spine, m.kind ≠ .attributeName) ∧
      ∃ r, resolve declaredLookup elementField = some r ∧
        r.indices = elementField.arguments.map Node.trimmed := by
  have hmarked : elementField.MarkedName :=
    .selection rfl rfl rfl rfl (.arguments rfl rfl (.identifier rfl))
  have hattribute : ∀ m ∈ elementField.spine, m.kind ≠ .attributeName := by decide +kernel
  obtain ⟨r, hr, -, -, hiff⟩ := resolve_indices_eq_iff declaredLookup hmarked hattribute
  have htail : elementField.indexedSpine.tail.all (·.arguments.isEmpty) = true := by decide +kernel
  refine ⟨hmarked, hattribute, r, hr, hiff.2 ?_⟩
  intro m hm
  exact List.isEmpty_iff.1 (List.all_eq_true.1 htail m hm)

/-- The element `arr(i)(j)`. -/
def elementOfElement : Node := .branch "indexed_name" [elementName, .leaf "identifier" "j"]

/-- The inner index of `arr(i)(j)` is listed twice. -/
theorem elementOfElement_indices :
    elementOfElement.MarkedName ∧ (∀ m ∈ elementOfElement.spine, m.kind ≠ .attributeName) ∧
      (resolve declaredLookup elementOfElement).map (·.indices) =
        some ["i".toList, "i".toList, "j".toList] ∧
      elementOfElement.arguments.map Node.trimmed = ["i".toList, "j".toList] ∧
      ¬ ∃ r, resolve declaredLookup elementOfElement = some r ∧
        r.indices = elementOfElement.arguments.map Node.trimmed := by
  have hmarked : elementOfElement.MarkedName :=
    .arguments rfl rfl (.arguments rfl rfl (.identifier rfl))
  have hindices : (resolve declaredLookup elementOfElement).map (·.indices) =
      some ["i".toList, "i".toList, "j".toList] := by decide +kernel
  have harguments : elementOfElement.arguments.map Node.trimmed = ["i".toList, "j".toList] := by
    decide +kernel
  refine ⟨hmarked, by decide +kernel, hindices, harguments, ?_⟩
  rintro ⟨r, hr, hsame⟩
  rw [hr, Option.map_some, hsame, harguments] at hindices
  revert hindices
  decide

end DesignFacts

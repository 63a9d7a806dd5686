import DesignFacts.Proofs.Extraction.Attribution

/-!
# Dependencies without a source

Clauses wait for the unit that begins after them, and at the end of the file for the file itself. A
generate statement gathers its body apart, and what still waits at the end of the body is not waited
for any more. This file says when a dependency is left without a source by that.

**Levels.** The walk over a file has one row of nodes outside all generate statements and one row
for each body (`level`, `Stop.bodyLevel`). A row *strands a clause* if no unit begins after the
clause in the same row (`strandsClause`).

**Rows of events.** `Mirrors` says that a row of events has the units of a row of nodes, and loses
sources exactly where the row or one of the bodies in it strands a clause. It is kept when rows are
joined, and a body becomes one more row to look at (`Mirrors.body`). So the events of a walk mirror
its levels (`mirrors_walk`).

Main result: if the file and all units have names, then all dependencies have a source exactly if no
body strands a clause (`extract_sourced_iff`); a clause alone in a body has none
(`not_sourced_clauseInBody`).
-/

namespace DesignFacts

/-! ## Levels -/

/-- The nodes that a walk comes to from a node without entering the body of a generate statement. -/
def level (config : Config) (L : Lookup) (scope : Scope) (n : Node) : List Node :=
  n :: match _h : visit config L scope n with
    | .construct _ inner next => next.attach.flatMap fun c => level config L inner c.1
    | .generate => []
termination_by sizeOf n
decreasing_by exact Node.sizeOf_lt_of_mem_children (mem_children_of_visit _h c.2)

theorem level_eq (config : Config) (L : Lookup) (scope : Scope) (n : Node) :
    level config L scope n =
      n :: match visit config L scope n with
        | .construct _ inner next => next.flatMap (level config L inner)
        | .generate => [] := by
  rw [level]
  congr 1
  split <;> rename_i h <;> simp [h]

/-- The nodes that a walk comes to in the body of the generate statement at a stop, those in the
bodies of inner statements apart. -/
def Stop.bodyLevel (config : Config) (s : Stop) : List Node :=
  (GenerateHeader.ofNode s.node).body.flatMap (level config (generateLookup s.lookup s.node)
    (s.scope.inGenerate (GenerateHeader.ofNode s.node).label))

/-- Whether a row of nodes has a clause that no unit follows. -/
def strandsClause : List Node → Bool
  | [] => false
  | n :: ns => (!n.clauseEvents.isEmpty && (ns.findSome? Node.unit?).isNone) || strandsClause ns

theorem strandsClause_append (ns ms : List Node) :
    strandsClause (ns ++ ms) =
      ((strandsClause ns && (ms.findSome? Node.unit?).isNone) || strandsClause ms) := by
  induction ns with
  | nil => rfl
  | cons n ns ih =>
    have hlater : ((ns ++ ms).findSome? Node.unit?).isNone =
        ((ns.findSome? Node.unit?).isNone && (ms.findSome? Node.unit?).isNone) := by
      rw [List.findSome?_append]
      cases ns.findSome? Node.unit? <;> rfl
    rw [List.cons_append, strandsClause, strandsClause, ih, hlater]
    cases n.clauseEvents.isEmpty <;> cases (ns.findSome? Node.unit?).isNone <;>
      cases (ms.findSome? Node.unit?).isNone <;> simp

/-- Whether a dependency has no source. -/
def Dependency.lacksSource (d : Dependency) : Bool := d.source.isEmpty

/-- Among the dependencies of a node only those of clauses may lack a source, and they do if there
is no unit after them. -/
theorem Node.any_lacksSource_dependencies (n : Node) (after : Text) {around : Text}
    (haround : around ≠ []) :
    (n.dependencies after around).any Dependency.lacksSource =
      (after.isEmpty && !n.clauseEvents.isEmpty) := by
  have hclauses {α : Type} (xs : List α) (f : α → Dependency) (hf : ∀ x, (f x).source = after) :
      (xs.map f).any Dependency.lacksSource = (after.isEmpty && !xs.isEmpty) := by
    cases xs with
    | nil => simp
    | cons x xs => simp [Dependency.lacksSource, hf]
  have hnamed : around.isEmpty = false := List.isEmpty_eq_false_iff.2 haround
  unfold dependencies clauseEvents
  cases n.kind with
  | libraryClause => simpa using hclauses (libraryClauses n) _ fun _ => rfl
  | useClause => simpa using hclauses (useClauses n) _ fun _ => rfl
  | contextReference => simpa using hclauses (contextClauses n) _ fun _ => rfl
  | componentDeclaration => simp [Dependency.lacksSource, hnamed]
  | componentInstantiation => simp [Dependency.lacksSource, hnamed]
  | _ => simp

/-- Whether a dependency comes from a clause. -/
def Dependency.isOfClause (d : Dependency) : Bool :=
  match d.kind with
  | .library | .use | .context => true
  | .component | .instantiation => false

theorem Node.isOfClause_of_lacksSource {n : Node} {after around : Text} {d : Dependency}
    (haround : around ≠ []) (hd : d ∈ n.dependencies after around) (hlacks : d.lacksSource = true) :
    d.isOfClause = true := by
  have hsource : d.source ≠ around := by
    rintro rfl
    exact haround (List.isEmpty_iff.1 hlacks)
  unfold dependencies at hd
  split at hd
  · obtain ⟨c, -, rfl⟩ := List.mem_map.1 hd
    rfl
  · obtain ⟨c, -, rfl⟩ := List.mem_map.1 hd
    rfl
  · obtain ⟨c, -, rfl⟩ := List.mem_map.1 hd
    rfl
  · rw [List.mem_singleton.1 hd] at hsource
    exact absurd rfl hsource
  · rw [List.mem_singleton.1 hd] at hsource
    exact absurd rfl hsource
  · simp at hd

/-! ## Rows of events -/

namespace ReferenceEvent

/-- A row of events has the units of a row of nodes, all with names, and leaves a dependency without
a source exactly if the row ends without a source and strands a clause, or one of the bodies does.
Only clauses are left so. -/
structure Mirrors (es : List ReferenceEvent) (ns : List Node) (bodies : List (List Node)) :
    Prop where
  nextUnit : nextUnit? es = ns.findSome? Node.unit?
  named : ∀ n ∈ ns, n.unit? ≠ some []
  lacking : ∀ {file : Text} (last unit : Text), file ≠ [] →
    (dependenciesOf file last unit es).any Dependency.lacksSource =
      ((last.isEmpty && strandsClause ns) || bodies.any strandsClause)
  ofClause : ∀ {file : Text} (last unit : Text), file ≠ [] →
    ∀ d ∈ dependenciesOf file last unit es, d.lacksSource = true → d.isOfClause = true

namespace Mirrors

variable {es es' : List ReferenceEvent} {ns ns' : List Node} {bodies bodies' : List (List Node)}

theorem nil : Mirrors [] [] [] where
  nextUnit := rfl
  named := by simp
  lacking := fun last unit _ => by simp [dependenciesOf, strandsClause]
  ofClause := fun last unit _ => by simp [dependenciesOf]

/-- The source after a row is missing if there was none and no unit begins in the row. -/
theorem isEmpty_nextUnit? (h : Mirrors es ns bodies) (last : Text) :
    ((nextUnit? es).getD last).isEmpty = (last.isEmpty && (ns.findSome? Node.unit?).isNone) := by
  rw [h.nextUnit]
  cases hunit : ns.findSome? Node.unit? with
  | none => simp
  | some unit =>
    obtain ⟨n, hn, hname⟩ := List.exists_of_findSome?_eq_some hunit
    have hne : unit ≠ [] := by
      rintro rfl
      exact h.named n hn hname
    simp [hne]

theorem append (h : Mirrors es ns bodies) (h' : Mirrors es' ns' bodies') :
    Mirrors (es ++ es') (ns ++ ns') (bodies ++ bodies') where
  nextUnit := by rw [nextUnit?_append, h.nextUnit, h'.nextUnit, List.findSome?_append]
  named := by
    intro n hn
    rcases List.mem_append.1 hn with hn | hn
    · exact h.named n hn
    · exact h'.named n hn
  lacking := by
    intro file last unit hfile
    rw [dependenciesOf_append, List.any_append, h.lacking _ _ hfile, h'.lacking _ _ hfile,
      h'.isEmpty_nextUnit?, strandsClause_append, List.any_append]
    cases last.isEmpty <;> cases strandsClause ns <;> cases strandsClause ns' <;>
      cases bodies.any strandsClause <;> simp
  ofClause := by
    intro file last unit hfile d hd
    rw [dependenciesOf_append, List.mem_append] at hd
    rcases hd with hd | hd
    · exact h.ofClause _ _ hfile d hd
    · exact h'.ofClause _ _ hfile d hd

theorem flatMap {α : Type} {xs : List α} {f : α → List ReferenceEvent} {g : α → List Node}
    {b : α → List (List Node)} (h : ∀ x ∈ xs, Mirrors (f x) (g x) (b x)) :
    Mirrors (xs.flatMap f) (xs.flatMap g) (xs.flatMap b) := by
  induction xs with
  | nil => exact .nil
  | cons x xs ih =>
    rw [List.flatMap_cons, List.flatMap_cons, List.flatMap_cons]
    exact (h x List.mem_cons_self).append (ih fun y hy => h y (List.mem_cons_of_mem x hy))

/-- A body is invisible around it, and its clauses have no source at its end. -/
theorem body (h : Mirrors es ns bodies) : Mirrors [.body es] [] (ns :: bodies) where
  nextUnit := rfl
  named := by simp
  lacking := by
    intro file last unit hfile
    rw [dependenciesOf, dependenciesOf, List.append_nil, dependencies, h.lacking [] unit hfile]
    simp [strandsClause]
  ofClause := by
    intro file last unit hfile d hd
    rw [dependenciesOf, dependenciesOf, List.append_nil, dependencies] at hd
    exact h.ofClause [] unit hfile d hd

end Mirrors

/-- The unit around a node has a name if the file has one. -/
theorem around_ne_nil {file : Text} (unit : Text) (hfile : file ≠ []) :
    (if unit.isEmpty then file else unit) ≠ [] := by
  by_cases hunit : unit = []
  · simpa [hunit] using hfile
  · simp [hunit]

/-- The events of a node mirror the node. -/
theorem mirrors_events {n : Node} (hname : n.unit? ≠ some []) : Mirrors n.events [n] [] where
  nextUnit := (follows_events n).nextUnit
  named := by simpa using hname
  lacking := by
    intro file last unit hfile
    rw [(follows_events n).dependencies, attributed, attributed, List.append_nil,
      n.any_lacksSource_dependencies _ (around_ne_nil unit hfile)]
    simp [strandsClause]
  ofClause := by
    intro file last unit hfile d hd
    rw [(follows_events n).dependencies, attributed, attributed, List.append_nil] at hd
    exact n.isOfClause_of_lacksSource (around_ne_nil unit hfile) hd

end ReferenceEvent

/-! ## Walks -/

/-- The rows of nodes in the bodies of the generate statements among some stops. -/
def bodyLevels (config : Config) (ss : List Stop) : List (List Node) :=
  (ss.filter fun s => s.node.isGenerate).map (Stop.bodyLevel config)

theorem bodyLevels_cons (config : Config) (s : Stop) (ss : List Stop) :
    bodyLevels config (s :: ss) =
      (if s.node.isGenerate then [s.bodyLevel config] else []) ++ bodyLevels config ss := by
  by_cases hs : s.node.isGenerate = true <;> simp [bodyLevels, hs]

theorem bodyLevels_flatMap {α : Type} (config : Config) (xs : List α) (f : α → List Stop) :
    bodyLevels config (xs.flatMap f) = xs.flatMap fun x => bodyLevels config (f x) := by
  rw [bodyLevels, List.filter_flatMap, List.map_flatMap]
  rfl

open ReferenceEvent in
/-- The events of a walk mirror its levels. -/
theorem mirrors_walk {config : Config} {L : Lookup} {scope : Scope} {around : List Node}
    {n : Node} :
    (∀ m ∈ n.subtree, m.unit? ≠ some []) →
      Mirrors (walk config L scope n).references (level config L scope n)
        (bodyLevels config (stops config L scope around n)) := by
  induction L, scope, n using walk.induct config generalizing around with
  | case1 L scope n own inner next hvisit ih =>
    intro hnames
    have hnext : Mirrors (next.flatMap fun c => (walk config L inner c).references)
        (next.flatMap (level config L inner))
        (next.flatMap fun c => bodyLevels config (stops config L inner around c)) := by
      refine Mirrors.flatMap fun c hc => ih ⟨c, hc⟩ fun m hm => hnames m ?_
      exact n.mem_subtree_of_mem_children ((next_sublist_of_visit hvisit).subset hc) hm
    rw [walk_eq, level_eq, stops_eq, hvisit, bodyLevels_cons, not_isGenerate_of_visit hvisit]
    show Mirrors (own.references ++ _) (n :: _) ([] ++ bodyLevels config (next.flatMap _))
    rw [bodyLevels_flatMap, (isFrom_of_visit hvisit).references, Harvest.references_concat,
      List.flatMap_map]
    exact (mirrors_events (hnames n n.mem_subtree_self)).append hnext
  | case2 L scope n hvisit header =>
    rename_i ih
    intro hnames
    -- The body of a generate statement is a level of its own, below the one that the statement is
    -- in.
    have hbody : Mirrors
        (header.body.flatMap fun c => (walk config (generateLookup L n)
          (scope.inGenerate header.label) c).references)
        (Stop.bodyLevel config ⟨L, scope, around, n⟩)
        (header.body.flatMap fun c => bodyLevels config (stops config (generateLookup L n)
          (scope.inGenerate header.label) (n :: around) c)) := by
      refine Mirrors.flatMap fun c hc => ih ⟨c, hc⟩ fun m hm => hnames m ?_
      exact GenerateHeader.mem_subtree_of_mem_body hc hm
    have hnode := mirrors_events (hnames n n.mem_subtree_self)
    rw [events_of_visit hvisit] at hnode
    rw [walk_eq, level_eq, stops_eq, hvisit, bodyLevels_cons, isGenerate_of_visit hvisit]
    show Mirrors [.body _] [n] ([_] ++ bodyLevels config ((GenerateHeader.ofNode n).body.flatMap _))
    rw [bodyLevels_flatMap, Harvest.references_concat, List.flatMap_map]
    exact hnode.append hbody.body

/-- **When all dependencies have a source.** In a file with a name whose units all have names, the
dependencies have sources exactly if in the body of every generate statement, at any depth, every
clause is followed by a unit in the same body. Components and instances always have a source. -/
theorem extract_sourced_iff {config : Config} {file : Text} {root : Node} {f : FileFacts}
    (h : extract config file root = .ok f) (hfile : file ≠ [])
    (hnames : ∀ n ∈ root.subtree, n.unit? ≠ some []) :
    ((∀ d ∈ f.dependencies, d.source ≠ []) ↔
      ∀ s ∈ itinerary config root, s.node.isGenerate = true →
        strandsClause (s.bodyLevel config) = false) ∧
    ∀ d ∈ f.dependencies, d.source = [] → d.isOfClause = true := by
  obtain ⟨generates, -, rfl⟩ := exists_of_extract h
  have hmirrors : ReferenceEvent.Mirrors (harvest config root).references
      (level config (nameTable config root) .file root)
      (bodyLevels config (itinerary config root)) := mirrors_walk hnames
  constructor
  · have hlacking := hmirrors.lacking file [] hfile
    have hended : file.isEmpty = false := List.isEmpty_eq_false_iff.2 hfile
    rw [hended, Bool.false_and, Bool.false_or] at hlacking
    calc (∀ d ∈ fileDependencies file (harvest config root).references, d.source ≠ [])
        ↔ (fileDependencies file (harvest config root).references).any Dependency.lacksSource =
            false := by simp [Dependency.lacksSource]
      _ ↔ (bodyLevels config (itinerary config root)).any strandsClause = false := by
          rw [← hlacking, fileDependencies_eq]
      _ ↔ _ := by simp [bodyLevels]
  · intro d hd hsource
    rw [fileDependencies_eq] at hd
    exact hmirrors.ofClause file [] hfile d hd (List.isEmpty_iff.2 hsource)

/-- A generate statement with a clause and a package after it in its body, and an instance. -/
def packageInBodyTree : Node :=
  .branch "architecture_body" [.under "entity" (.leaf "identifier" "e"),
    .branch "if_generate" [.word "generate",
      .branch "use_clause" [.leaf "identifier" "p"],
      .branch "package_declaration" [.leaf "identifier" "q"],
      .branch "component_instantiation" [.under "component" (.leaf "identifier" "u")],
      .word "end"]]

theorem extract_sourced_iff_packageInBody :
    ∃ f, extract {} "t".toList packageInBodyTree = .ok f ∧
      (∀ n ∈ packageInBodyTree.subtree, n.unit? ≠ some []) ∧
      f.dependencies.map (fun d => (d.source, d.target)) =
        [("q".toList, "p".toList), ("q".toList, "u".toList)] ∧
      ((∀ d ∈ f.dependencies, d.source ≠ []) ↔
        ∀ s ∈ itinerary {} packageInBodyTree, s.node.isGenerate = true →
          strandsClause (s.bodyLevel {}) = false) ∧
      ∀ d ∈ f.dependencies, d.source = [] → d.isOfClause = true := by
  obtain ⟨f, h, hsources⟩ := exists_ok_of_any (x := extract {} "t".toList packageInBodyTree)
    (p := fun f => f.dependencies.map (fun d => (d.source, d.target)) ==
      [("q".toList, "p".toList), ("q".toList, "u".toList)])
    (by decide +kernel)
  have hnames : ∀ n ∈ packageInBodyTree.subtree, n.unit? ≠ some [] := by decide +kernel
  exact ⟨f, h, hnames, beq_iff_eq.1 hsources, extract_sourced_iff h (by decide) hnames⟩

/-- An architecture with a generate statement that has only a clause in its body. -/
def clauseInBodyTree : Node :=
  .branch "architecture_body" [.under "entity" (.leaf "identifier" "e"),
    .branch "if_generate" [.word "generate", .branch "use_clause" [.leaf "identifier" "p"],
      .word "end"]]

/-- A clause that no unit follows in the body of a generate statement has no source, although the
file has a name. -/
theorem not_sourced_clauseInBody :
    ∃ f, extract {} "t".toList clauseInBodyTree = .ok f ∧
      (∀ n ∈ clauseInBodyTree.subtree, n.unit? ≠ some []) ∧
      ¬ ∀ d ∈ f.dependencies, d.source ≠ [] := by
  obtain ⟨f, h, hsources⟩ := exists_ok_of_any (x := extract {} "t".toList clauseInBodyTree)
    (p := fun f => f.dependencies.any Dependency.lacksSource) (by decide +kernel)
  refine ⟨f, h, by decide +kernel, fun hall => ?_⟩
  obtain ⟨d, hd, hlacks⟩ := List.any_eq_true.1 hsources
  exact hall d hd (List.isEmpty_iff.1 hlacks)

end DesignFacts

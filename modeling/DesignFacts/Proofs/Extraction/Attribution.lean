import DesignFacts.Proofs.Extraction.Ledger
import DesignFacts.Proofs.Extraction.Record

/-!
# Which unit a dependency belongs to

Dependencies are kept in a ledger along the walk, with a ledger of its own for each body of a
generate statement, and clauses get their sources late. Here they are read off the nodes of the
walk, one after another, without ledgers (`attribution`): a clause belongs to the first unit that
begins after it, and a component or an instance to the last unit that began before it.

**Rows.** `Follows` says that a row of events does what a row of nodes does. It is kept when rows
are joined, and the events of a body without clauses and units may be put into a group of their own
(`Follows.body`): such a body is invisible to what stands around it, and what stands in it does not
ask for the unit after it. So the events of a walk follow its stops (`follows_walk`).

**Places.** In a row, the unit before a place and the unit after it are found by searching from the
place in both directions (`attributed_eq_places`).

Main result: `extract_attributed`.
-/

namespace DesignFacts

/-! ## Dependencies of nodes -/

namespace Node

/-- Whether a node is a library, use or context clause. -/
def isClause (n : Node) : Bool :=
  match n.kind with
  | .libraryClause | .useClause | .contextReference => true
  | _ => false

/-- Whether a node is a clause or begins a design unit. -/
def isClauseOrUnit (n : Node) : Bool := n.isClause || n.unit?.isSome

/-- The dependencies that a node causes. Clauses depend for the unit after the node, components and
instances for the unit around it. -/
def dependencies (after around : Text) (n : Node) : List Dependency :=
  match n.kind with
  | .libraryClause => (libraryClauses n).map fun c => ⟨after, c.name, .library, c.line⟩
  | .useClause => (useClauses n).map fun c => ⟨after, c.path, .use, c.line⟩
  | .contextReference => (contextClauses n).map fun c => ⟨after, c.name, .context, c.line⟩
  | .componentDeclaration =>
    [⟨around, (Component.ofNode n).name, .component, (Component.ofNode n).line⟩]
  | .componentInstantiation => [⟨around, n.instanceTarget.1, .instantiation, n.line⟩]
  | _ => []

/-- The unit after a node that stands in a unit. -/
def unitAfter (unit : Text) (n : Node) : Text := n.unit?.getD unit

end Node

/-- The dependencies of a row of nodes that starts in a unit. Clauses that no unit follows depend
for `last`. -/
def attributed (file last : Text) (unit : Text) : List Node → List Dependency
  | [] => []
  | n :: ns =>
    n.dependencies ((ns.findSome? Node.unit?).getD last) (if unit.isEmpty then file else unit)
      ++ attributed file last (n.unitAfter unit) ns

theorem attributed_append (file last unit : Text) (ns ms : List Node) :
    attributed file last unit (ns ++ ms) =
      attributed file ((ms.findSome? Node.unit?).getD last) unit ns
        ++ attributed file last (ns.foldl Node.unitAfter unit) ms := by
  induction ns generalizing unit with
  | nil => rfl
  | cons n ns ih =>
    have hnext : (((ns ++ ms).findSome? Node.unit?).getD last) =
        (ns.findSome? Node.unit?).getD ((ms.findSome? Node.unit?).getD last) := by
      rw [List.findSome?_append]
      cases ns.findSome? Node.unit? <;> rfl
    rw [List.cons_append, attributed, attributed, hnext, ih, List.append_assoc]
    rfl

/-! ## Rows of events -/

namespace ReferenceEvent

theorem nextUnit?_append (es es' : List ReferenceEvent) :
    nextUnit? (es ++ es') = (nextUnit? es).or (nextUnit? es') := by
  induction es with
  | nil => rfl
  | cons e es ih => cases e <;> first | rfl | exact ih

theorem dependenciesOf_append (file last unit : Text) (es es' : List ReferenceEvent) :
    dependenciesOf file last unit (es ++ es') =
      dependenciesOf file ((nextUnit? es').getD last) unit es
        ++ dependenciesOf file last (es.foldl unitAfter unit) es' := by
  induction es generalizing unit with
  | nil => rfl
  | cons e es ih =>
    have hnext : (nextUnit? (es ++ es')).getD last =
        (nextUnit? es).getD ((nextUnit? es').getD last) := by
      rw [nextUnit?_append]
      cases nextUnit? es <;> rfl
    rw [List.cons_append, dependenciesOf, dependenciesOf, hnext, ih, List.append_assoc]
    rfl

/-- A row of events does what a row of nodes does. -/
structure Follows (es : List ReferenceEvent) (ns : List Node) : Prop where
  nextUnit : nextUnit? es = ns.findSome? Node.unit?
  unitAfter : ∀ unit, es.foldl unitAfter unit = ns.foldl Node.unitAfter unit
  dependencies : ∀ file last unit, dependenciesOf file last unit es = attributed file last unit ns

theorem Follows.nil : Follows [] [] := ⟨rfl, fun _ => rfl, fun _ _ _ => rfl⟩

theorem Follows.append {es es' : List ReferenceEvent} {ns ns' : List Node} (h : Follows es ns)
    (h' : Follows es' ns') : Follows (es ++ es') (ns ++ ns') where
  nextUnit := by rw [nextUnit?_append, h.nextUnit, h'.nextUnit, List.findSome?_append]
  unitAfter := fun unit => by rw [List.foldl_append, List.foldl_append, h.unitAfter, h'.unitAfter]
  dependencies := fun file last unit => by
    rw [dependenciesOf_append, attributed_append, h'.nextUnit, h.unitAfter, h.dependencies,
      h'.dependencies]

theorem Follows.flatMap {α : Type} {xs : List α} {f : α → List ReferenceEvent} {g : α → List Node}
    (h : ∀ x ∈ xs, Follows (f x) (g x)) : Follows (xs.flatMap f) (xs.flatMap g) := by
  induction xs with
  | nil => exact .nil
  | cons x xs ih =>
    rw [List.flatMap_cons, List.flatMap_cons]
    exact (h x List.mem_cons_self).append (ih fun y hy => h y (List.mem_cons_of_mem x hy))

/-! ### Events of a node -/

section Clauses

variable {α : Type} (xs : List α) (target : α → Text) (kind : DependencyKind) (line : α → Nat)

theorem nextUnit?_map_clause :
    nextUnit? (xs.map fun x => .clause (target x) kind (line x)) = none := by
  induction xs with
  | nil => rfl
  | cons x xs ih => exact ih

theorem foldl_unitAfter_map_clause (unit : Text) :
    (xs.map fun x => .clause (target x) kind (line x)).foldl unitAfter unit = unit := by
  induction xs with
  | nil => rfl
  | cons x xs ih => exact ih

theorem dependenciesOf_map_clause (file last unit : Text) :
    dependenciesOf file last unit (xs.map fun x => .clause (target x) kind (line x)) =
      xs.map fun x => ⟨last, target x, kind, line x⟩ := by
  induction xs with
  | nil => rfl
  | cons x xs ih =>
    rw [List.map_cons, List.map_cons, dependenciesOf, nextUnit?_map_clause]
    exact congrArg (List.cons _) ih

end Clauses

theorem follows_events (n : Node) : Follows n.events [n] where
  nextUnit := by
    unfold Node.events Node.clauseEvents Node.unitEvents Node.unit?
    cases hk : n.kind <;> simp [nextUnit?, nextUnit?_map_clause, hk]
  unitAfter := by
    intro unit
    unfold Node.events Node.clauseEvents Node.unitEvents Node.unit?
    cases hk : n.kind <;>
      simp [unitAfter, foldl_unitAfter_map_clause, Node.unitAfter, Node.unit?, hk]
  dependencies := by
    intro file last unit
    unfold Node.events Node.clauseEvents Node.unitEvents Node.unit?
    cases hk : n.kind <;>
      simp [dependenciesOf, ReferenceEvent.dependencies, dependenciesOf_map_clause, attributed,
        Node.dependencies, hk]

end ReferenceEvent

/-! ## Bodies -/

theorem Node.unit?_of_quiet {n : Node} (h : n.isClauseOrUnit = false) : n.unit? = none := by
  rw [isClauseOrUnit, Bool.or_eq_false_iff] at h
  simpa using h.2

/-- Without clauses it does not matter which unit comes next. -/
theorem Node.dependencies_of_quiet {n : Node} (h : n.isClauseOrUnit = false)
    (after after' around : Text) : n.dependencies after around = n.dependencies after' around := by
  rw [isClauseOrUnit, Bool.or_eq_false_iff, isClause] at h
  unfold dependencies
  split <;> simp_all

section Quiet

variable {ns : List Node} (hquiet : ∀ n ∈ ns, n.isClauseOrUnit = false)

include hquiet

theorem findSome?_unit?_of_quiet : ns.findSome? Node.unit? = none :=
  List.findSome?_eq_none_iff.2 fun n hn => Node.unit?_of_quiet (hquiet n hn)

theorem foldl_unitAfter_of_quiet (unit : Text) : ns.foldl Node.unitAfter unit = unit := by
  induction ns with
  | nil => rfl
  | cons n ns ih =>
    have hn : n.unitAfter unit = unit := by
      rw [Node.unitAfter, Node.unit?_of_quiet (hquiet n List.mem_cons_self), Option.getD_none]
    rw [List.foldl_cons, hn]
    exact ih fun m hm => hquiet m (List.mem_cons_of_mem n hm)

theorem attributed_of_quiet (file last last' unit : Text) :
    attributed file last unit ns = attributed file last' unit ns := by
  induction ns generalizing unit with
  | nil => rfl
  | cons n ns ih =>
    rw [attributed, attributed, ih fun m hm => hquiet m (List.mem_cons_of_mem n hm)]
    exact congrArg (· ++ _)
      (Node.dependencies_of_quiet (hquiet n List.mem_cons_self) _ _ _)

/-- The events of a body without clauses and units may stand in a group of their own. -/
theorem ReferenceEvent.Follows.body {es : List ReferenceEvent} (h : Follows es ns) :
    Follows [.body es] ns where
  nextUnit := (findSome?_unit?_of_quiet hquiet).symm
  unitAfter := fun unit => (foldl_unitAfter_of_quiet hquiet unit).symm
  dependencies := fun file last unit => by
    rw [dependenciesOf, dependenciesOf, List.append_nil]
    exact (h.dependencies file [] unit).trans (attributed_of_quiet hquiet file [] last unit)

end Quiet

/-! ## Walks -/

open ReferenceEvent in
/-- The events of a walk do what the nodes of its stops do. -/
theorem follows_walk {config : Config} {L : Lookup} {scope : Scope} {around : List Node}
    {n : Node} :
    n.BodiesAvoid Node.isClauseOrUnit →
      Follows (walk config L scope n).references
        ((stops config L scope around n).map Stop.node) := by
  induction L, scope, n using walk.induct config generalizing around with
  | case1 L scope n own inner next hvisit ih =>
    intro hbodies
    have hnext : Follows (next.flatMap fun c => (walk config L inner c).references)
        (next.flatMap fun c => (stops config L inner around c).map Stop.node) :=
      Follows.flatMap fun c hc => ih ⟨c, hc⟩ (hbodies.of_subset fun m hm =>
        n.mem_subtree_of_mem_children ((next_sublist_of_visit hvisit).subset hc) hm)
    rw [walk_eq, stops_eq, hvisit]
    show Follows (own.references ++ _) (n :: (next.flatMap _).map Stop.node)
    rw [(isFrom_of_visit hvisit).references, Harvest.references_concat, List.flatMap_map,
      List.map_flatMap]
    exact (follows_events n).append hnext
  | case2 L scope n hvisit header =>
    rename_i ih
    intro hbodies
    have hbody : Follows
        (header.body.flatMap fun c => (walk config (generateLookup L n)
          (scope.inGenerate header.label) c).references)
        (header.body.flatMap fun c => (stops config (generateLookup L n)
          (scope.inGenerate header.label) (n :: around) c).map Stop.node) :=
      Follows.flatMap fun c hc => ih ⟨c, hc⟩ (hbodies.of_subset fun m hm =>
        GenerateHeader.mem_subtree_of_mem_body hc hm)
    -- No unit begins inside the body, so the walker of the body ends in the unit it started in.
    have hquiet : ∀ m ∈ header.body.flatMap fun c => (stops config (generateLookup L n)
        (scope.inGenerate header.label) (n :: around) c).map Stop.node,
        m.isClauseOrUnit = false := by
      intro m hm
      obtain ⟨c, hc, hm⟩ := List.mem_flatMap.1 hm
      exact hbodies n n.mem_subtree_self (isGenerate_of_visit hvisit) c hc m
        ((map_node_stops_sublist _ _ _ _ c).subset hm)
    rw [walk_eq, stops_eq, hvisit]
    show Follows [.body _] (n :: ((GenerateHeader.ofNode n).body.flatMap _).map Stop.node)
    rw [Harvest.references_concat, List.flatMap_map, List.map_flatMap]
    have hnode := follows_events n
    rw [events_of_visit hvisit] at hnode
    exact hnode.append (Follows.body hquiet hbody)

/-! ## Places -/

/-- The first unit that begins in a row of nodes, or the file. -/
def sourceAfter (file : Text) (later : List Node) : Text :=
  (later.findSome? Node.unit?).getD file

/-- The last unit that begins in a row of nodes, or the file if there is none or it has no name. -/
def sourceBefore (file : Text) (earlier : List Node) : Text :=
  ((earlier.reverse.findSome? Node.unit?).filter fun unit => !unit.isEmpty).getD file

/-- The dependencies at a place of a row of nodes. -/
def dependenciesAt (file : Text) (ns : List Node) (place : Node × Nat) : List Dependency :=
  place.1.dependencies (sourceAfter file (ns.drop (place.2 + 1)))
    (sourceBefore file (ns.take place.2))

/-- The dependencies of the nodes of a file, in the order of these nodes. -/
def attribution (file : Text) (ns : List Node) : List Dependency :=
  ns.zipIdx.flatMap (dependenciesAt file ns)

theorem foldl_unitAfter (unit : Text) (ns : List Node) :
    ns.foldl Node.unitAfter unit = (ns.reverse.findSome? Node.unit?).getD unit := by
  induction ns generalizing unit with
  | nil => rfl
  | cons n ns ih =>
    rw [List.foldl_cons, ih, List.reverse_cons, List.findSome?_append, List.findSome?_singleton,
      Node.unitAfter]
    cases ns.reverse.findSome? Node.unit? <;> rfl

theorem sourceBefore_eq (file : Text) (earlier : List Node) :
    sourceBefore file earlier =
      if (earlier.foldl Node.unitAfter []).isEmpty then file
      else earlier.foldl Node.unitAfter [] := by
  rw [foldl_unitAfter, sourceBefore]
  cases earlier.reverse.findSome? Node.unit? with
  | none => rfl
  | some unit => cases unit <;> rfl

theorem attributed_eq_places (file : Text) (earlier ns : List Node) :
    attributed file file (earlier.foldl Node.unitAfter []) ns =
      (ns.zipIdx earlier.length).flatMap (dependenciesAt file (earlier ++ ns)) := by
  induction ns generalizing earlier with
  | nil => rfl
  | cons n ns ih =>
    have hsplit : earlier ++ n :: ns = (earlier ++ [n]) ++ ns := by simp
    have hlength : (earlier ++ [n]).length = earlier.length + 1 := by simp
    have hunit : n.unitAfter (earlier.foldl Node.unitAfter []) =
        (earlier ++ [n]).foldl Node.unitAfter [] := by
      rw [List.foldl_append]
      rfl
    have hplace : dependenciesAt file (earlier ++ n :: ns) (n, earlier.length) =
        n.dependencies (sourceAfter file ns) (sourceBefore file earlier) := by
      have hlater : (earlier ++ n :: ns).drop (earlier.length + 1) = ns := by
        rw [hsplit, ← hlength, List.drop_left]
      rw [dependenciesAt, hlater, List.take_left]
    rw [attributed, hunit, ih, List.zipIdx_cons, List.flatMap_cons, hplace, sourceBefore_eq,
      hlength, ← hsplit]
    rfl

/-- The ledger that is kept along the tree of a file, settled at its end. -/
def fileLedger (config : Config) (file : Text) (root : Node) : Ledger :=
  (walkLedger config file (nameTable config root) .file root {}).settle file

/-- **Dependencies belong to the right unit.** The dependencies of a file are those in the ledger
along its tree. If no clause and no design unit stands in the body of a generate statement, then
they are those of the nodes of its walk, in document order: clauses depend for the next unit,
components and instances for the last one. -/
theorem extract_attributed {config : Config} {file : Text} {root : Node} {f : FileFacts}
    (h : extract config file root = .ok f) (hbodies : root.BodiesAvoid Node.isClauseOrUnit) :
    f.dependencies = (fileLedger config file root).dependencies ∧
      f.dependencies = attribution file ((itinerary config root).map Stop.node) ∧
      ((itinerary config root).map Stop.node).Sublist root.subtree := by
  obtain ⟨generates, -, rfl⟩ := exists_of_extract h
  refine ⟨?_, ?_, map_node_stops_sublist config _ _ [] root⟩
  · rw [fileLedger, ← run_references_walk]
    rfl
  · calc fileDependencies file (harvest config root).references
        = ReferenceEvent.dependenciesOf file file [] (harvest config root).references :=
          fileDependencies_eq file _
      _ = attributed file file [] ((itinerary config root).map Stop.node) :=
          (follows_walk hbodies).dependencies file file []
      _ = attribution file ((itinerary config root).map Stop.node) := attributed_eq_places file [] _

/-- An architecture with an instance in a generate statement, between two clauses. -/
def clausesTree : Node :=
  .branch "design_file" [
    .branch "library_clause" [.leaf "identifier" "ieee"],
    .branch "architecture_body" [.under "entity" (.leaf "identifier" "e"),
      .branch "if_generate" [.word "generate",
        .branch "component_instantiation" [.under "component" (.leaf "identifier" "u")],
        .word "end"]],
    .branch "use_clause" [.leaf "identifier" "p"]]

theorem extract_attributed_clauses :
    ∃ f, extract {} "t".toList clausesTree = .ok f ∧
      clausesTree.BodiesAvoid Node.isClauseOrUnit ∧
      f.dependencies.map (fun d => (d.source, d.target)) =
        [("e".toList, "ieee".toList), ("e".toList, "u".toList), ("t".toList, "p".toList)] ∧
      f.dependencies = (fileLedger {} "t".toList clausesTree).dependencies ∧
      f.dependencies = attribution "t".toList ((itinerary {} clausesTree).map Stop.node) ∧
      ((itinerary {} clausesTree).map Stop.node).Sublist clausesTree.subtree := by
  obtain ⟨f, h, hsources⟩ := exists_ok_of_any (x := extract {} "t".toList clausesTree)
    (p := fun f => f.dependencies.map (fun d => (d.source, d.target)) ==
      [("e".toList, "ieee".toList), ("e".toList, "u".toList), ("t".toList, "p".toList)])
    (by decide +kernel)
  have hbodies : clausesTree.BodiesAvoid Node.isClauseOrUnit := by decide +kernel
  exact ⟨f, h, hbodies, beq_iff_eq.1 hsources, extract_attributed h hbodies⟩

end DesignFacts

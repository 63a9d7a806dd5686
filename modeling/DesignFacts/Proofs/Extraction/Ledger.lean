import DesignFacts.Extraction.Basic

/-!
# The ledger of dependencies

A clause is noted without a source and gets one later, through the place that was kept for it. This
file shows that the places never go astray, and says which source each dependency ends up with by
looking ahead instead: a clause has the first unit that is entered after it in the same row.

**Pending places** (`Ledger.Waits`). Every pending place holds a dependency without a source. Each
step keeps this, whatever the ledgers of bodies add in between, so it holds after every run
(`Waits.run`). Hence settling only touches what was there when the clauses were noted.

**Looking ahead.** Settling the ledger of a run is settling the one before it with the next unit,
and going on with the dependencies that looking ahead finds (`dependencies_settle_run`).

**Along the tree.** The events of a walk are only a record of it: the ledger can be kept while
walking, with a new one for each body (`run_references_walk`).

Main result: `fileDependencies_eq`.
-/

namespace DesignFacts

/-! ## Looking ahead -/

namespace ReferenceEvent

/-- The first unit that is entered, generate bodies apart. -/
def nextUnit? : List ReferenceEvent → Option Text
  | [] => none
  | .enter unit :: _ => some unit
  | _ :: es => nextUnit? es

def unitAfter (unit : Text) : ReferenceEvent → Text
  | .enter name => name
  | _ => unit

mutual

/-- The dependencies of an event in a unit; `clauseSource` is the source of a clause. -/
def dependencies (file unit clauseSource : Text) : ReferenceEvent → List Dependency
  | .enter _ => []
  | .clause target kind line => [{ source := clauseSource, target, kind, line }]
  | .reference target kind line =>
    [{ source := if unit.isEmpty then file else unit, target, kind, line }]
  | .body events => dependenciesOf file [] unit events

/-- The dependencies of a row of events that starts in a unit. Clauses that no unit follows have
the source `last`. -/
def dependenciesOf (file last unit : Text) : List ReferenceEvent → List Dependency
  | [] => []
  | e :: es =>
    dependencies file unit ((nextUnit? es).getD last) e
      ++ dependenciesOf file last (unitAfter unit e) es

end

end ReferenceEvent

namespace Ledger

open ReferenceEvent

variable {l : Ledger}

/-! ## Settling -/

theorem mapIdx_self {α : Type} (xs : List α) : xs.mapIdx (fun _ x => x) = xs :=
  List.ext_getElem? fun i => by rw [List.getElem?_mapIdx, Option.map_id']

/-- Settling fills in the pending places and no others. -/
theorem foldl_setSource (source : Text) (places : List Nat) (ds : List Dependency) :
    places.foldl (setSource source) ds =
      ds.mapIdx fun i d => if i ∈ places then { d with source } else d := by
  induction places generalizing ds with
  | nil => simp [mapIdx_self]
  | cons place places ih =>
    rw [List.foldl_cons, ih]
    refine List.ext_getElem? fun i => ?_
    rw [List.getElem?_mapIdx, List.getElem?_mapIdx, setSource, List.getElem?_modify]
    cases ds[i]? with
    | none => rfl
    | some d =>
      by_cases hplace : i = place
      · simp [hplace]
      · have hother : ¬ place = i := fun h => hplace h.symm
        simp [hplace, hother]

/-- Every pending place holds a dependency without a source. -/
def Waits (l : Ledger) : Prop := ∀ i ∈ l.pending, ∃ d, l.dependencies[i]? = some d ∧ d.source = []

theorem Waits.lt_length (h : l.Waits) {i : Nat} (hi : i ∈ l.pending) :
    i < l.dependencies.length := by
  obtain ⟨d, hd, -⟩ := h i hi
  exact (List.getElem?_eq_some_iff.1 hd).1

theorem Waits.of_pending_eq_nil (h : l.pending = []) : l.Waits := by simp [Waits, h]

/-- What is added behind the pending places is not touched. -/
theorem Waits.foldl_setSource_append (h : l.Waits) (source : Text) (more : List Dependency) :
    l.pending.foldl (setSource source) (l.dependencies ++ more) =
      (l.settle source).dependencies ++ more := by
  have hmore : ∀ i, i + l.dependencies.length ∉ l.pending := by
    intro i hi
    have hlt := h.lt_length hi
    omega
  rw [settle, foldl_setSource, foldl_setSource, List.mapIdx_append]
  simp [hmore, mapIdx_self]

/-- Without a source to give, settling changes no dependency. -/
theorem Waits.dependencies_settle_nil (h : l.Waits) :
    (l.settle []).dependencies = l.dependencies := by
  rw [settle, foldl_setSource]
  refine List.ext_getElem? fun i => ?_
  rw [List.getElem?_mapIdx]
  by_cases hi : i ∈ l.pending
  · obtain ⟨d, hd, hsource⟩ := h i hi
    rw [hd, Option.map_some, if_pos hi, ← hsource]
  · simp [hi]

/-! ## One step -/

theorem Waits.append (h : l.Waits) (more : List Dependency) :
    Waits { l with dependencies := l.dependencies ++ more } := by
  intro i hi
  obtain ⟨d, hd, hsource⟩ := h i hi
  exact ⟨d, by rw [List.getElem?_append_left (h.lt_length hi), hd], hsource⟩

theorem Waits.clause (h : l.Waits) (target : Text) (kind : DependencyKind) (line : Nat) :
    (l.clause target kind line).Waits := by
  intro i hi
  rcases List.mem_append.1 hi with hi | hi
  · exact h.append _ i hi
  · obtain rfl := List.mem_singleton.1 hi
    exact ⟨_, List.getElem?_concat_length, rfl⟩

/-- A step keeps the pending places right. -/
theorem Waits.step (h : l.Waits) (file : Text) (e : ReferenceEvent) : (l.step file e).Waits := by
  cases e with
  | enter unit => exact .of_pending_eq_nil rfl
  | clause target kind line => exact h.clause target kind line
  | reference target kind line => exact h.append _
  | body events => exact h.append _

theorem Waits.run (h : l.Waits) (file : Text) (es : List ReferenceEvent) :
    (l.run file es).Waits := by
  induction es generalizing l with
  | nil => exact h
  | cons e es ih => exact ih (h.step file e)

/-- A clause gets the source that its ledger is settled with. -/
theorem Waits.dependencies_settle_clause (h : l.Waits) (source target : Text)
    (kind : DependencyKind) (line : Nat) :
    ((l.clause target kind line).settle source).dependencies =
      (l.settle source).dependencies ++ [⟨source, target, kind, line⟩] := by
  show (l.pending ++ [l.dependencies.length]).foldl (setSource source) (l.dependencies ++ _) = _
  rw [List.foldl_append, h.foldl_setSource_append]
  -- Settling the older places has kept the length of the list, so the last place is the last one.
  have hlength : (l.settle source).dependencies.length = l.dependencies.length := by
    rw [settle, foldl_setSource, List.length_mapIdx]
  rw [← hlength, List.foldl_cons, List.foldl_nil, setSource]
  refine List.ext_getElem? fun i => ?_
  rw [List.getElem?_modify]
  rcases Nat.lt_trichotomy i (l.settle source).dependencies.length with hi | rfl | hi
  · rw [List.getElem?_append_left hi, List.getElem?_append_left hi]
    simp [Nat.ne_of_gt hi]
  · simp
  · have hnone (d : Dependency) : ((l.settle source).dependencies ++ [d])[i]? = none := by
      rw [List.getElem?_eq_none_iff, List.length_append, List.length_singleton]
      exact hi
    rw [hnone, hnone]
    rfl

/-! ## A run -/

/-- **Looking ahead.** A run settles what waited before it with the first unit it enters, and goes
on with the dependencies that are found by looking ahead. -/
theorem dependencies_settle_run (file : Text) : ∀ (es : List ReferenceEvent) (last : Text)
    {l : Ledger}, l.Waits →
      ((l.run file es).settle last).dependencies =
        (l.settle ((nextUnit? es).getD last)).dependencies ++ dependenciesOf file last l.unit es
  | [], last, l, h => by
    rw [dependenciesOf, List.append_nil]
    rfl
  | .enter unit :: es, last, l, h => by
    rw [run, dependencies_settle_run file es last (h.step file _)]
    rfl
  | .clause target kind line :: es, last, l, h => by
    rw [run, dependencies_settle_run file es last (h.step file _)]
    show ((l.clause target kind line).settle _).dependencies ++ _ = _
    rw [h.dependencies_settle_clause, List.append_assoc]
    rfl
  | .reference target kind line :: es, last, l, h => by
    rw [run, dependencies_settle_run file es last (h.step file _)]
    show l.pending.foldl _ (l.dependencies ++ _) ++ _ = _
    rw [h.foldl_setSource_append, List.append_assoc]
    rfl
  | .body events :: es, last, l, h => by
    -- The ledger of the body is not settled: its pending clauses keep the empty source.
    have hbody : (run file { unit := l.unit } events).dependencies =
        dependenciesOf file [] l.unit events := by
      have hwaits : Waits { unit := l.unit } := .of_pending_eq_nil rfl
      rw [← (hwaits.run file events).dependencies_settle_nil,
        dependencies_settle_run file events [] hwaits]
      rfl
    rw [run, dependencies_settle_run file es last (h.step file _)]
    show l.pending.foldl _ (l.dependencies ++ (run file { unit := l.unit } events).dependencies)
      ++ _ = _
    rw [h.foldl_setSource_append, hbody, List.append_assoc]
    rfl

theorem run_append (file : Text) (l : Ledger) (es es' : List ReferenceEvent) :
    l.run file (es ++ es') = (l.run file es).run file es' := by
  induction es generalizing l with
  | nil => rfl
  | cons e es ih => exact ih (l.step file e)

end Ledger

/-- **The dependencies of a file are those that looking ahead finds.** -/
theorem fileDependencies_eq (file : Text) (events : List ReferenceEvent) :
    fileDependencies file events = ReferenceEvent.dependenciesOf file file [] events :=
  Ledger.dependencies_settle_run file events file (.of_pending_eq_nil rfl)

/-! ## Along the tree -/

/-- Keep a ledger while walking. A visit adds what it finds at its node; the body of a generate
statement is walked with a ledger of its own. -/
def walkLedger (config : Config) (file : Text) (L : Lookup) (scope : Scope) (n : Node)
    (l : Ledger) : Ledger :=
  match _h : visit config L scope n with
  | .construct own inner next =>
    next.attach.foldl (fun l c => walkLedger config file L inner c.1 l) (l.run file own.references)
  | .generate =>
    let header := GenerateHeader.ofNode n
    l.absorb (header.body.attach.foldl (fun l c =>
      walkLedger config file (generateLookup L n) (scope.inGenerate header.label) c.1 l)
      { unit := l.unit })
termination_by sizeOf n
decreasing_by
  · exact Node.sizeOf_lt_of_mem_children (mem_children_of_visit _h c.2)
  · exact GenerateHeader.sizeOf_lt_of_mem_body c.2

theorem walkLedger_eq (config : Config) (file : Text) (L : Lookup) (scope : Scope) (n : Node)
    (l : Ledger) :
    walkLedger config file L scope n l =
      match visit config L scope n with
      | .construct own inner next =>
        next.foldl (fun l c => walkLedger config file L inner c l) (l.run file own.references)
      | .generate =>
        l.absorb ((GenerateHeader.ofNode n).body.foldl (fun l c =>
          walkLedger config file (generateLookup L n)
            (scope.inGenerate (GenerateHeader.ofNode n).label) c l) { unit := l.unit }) := by
  rw [walkLedger]
  split
  · rename_i own inner next h
    rw [h]
    exact List.foldl_attach (f := fun l c => walkLedger config file L inner c l)
  · rename_i h
    rw [h]
    exact congrArg l.absorb (List.foldl_attach (f := fun l c =>
      walkLedger config file (generateLookup L n)
        (scope.inGenerate (GenerateHeader.ofNode n).label) c l))

/-- Running over harvests one after another is keeping the ledger from one to the next. -/
theorem run_references_concat (file : Text) {ns : List Node} {f : Node → Harvest}
    {g : Node → Ledger → Ledger} (h : ∀ n ∈ ns, ∀ l, l.run file (f n).references = g n l)
    (l : Ledger) :
    l.run file (Harvest.concat (ns.map f)).references = ns.foldl (fun l n => g n l) l := by
  induction ns generalizing l with
  | nil => rfl
  | cons n ns ih =>
    show l.run file ((f n).references ++ (Harvest.concat (ns.map f)).references) = _
    rw [Ledger.run_append, h n List.mem_cons_self, List.foldl_cons]
    exact ih (fun m hm => h m (List.mem_cons_of_mem n hm)) _

/-- **The ledger of a walk.** Running a ledger over the events of a walk is keeping it along the
tree. -/
theorem run_references_walk {config : Config} {file : Text} {L : Lookup} {scope : Scope}
    {n : Node} (l : Ledger) :
    l.run file (walk config L scope n).references = walkLedger config file L scope n l := by
  induction L, scope, n using walk.induct config generalizing l with
  | case1 L scope n own inner next hvisit ih =>
    rw [walk_eq, walkLedger_eq, hvisit]
    show l.run file (own.references ++ (Harvest.concat (next.map _)).references) = _
    rw [Ledger.run_append]
    exact run_references_concat file (fun c hc => ih ⟨c, hc⟩) _
  | case2 L scope n hvisit header ih =>
    rw [walk_eq, walkLedger_eq, hvisit]
    show l.absorb (Ledger.run file { unit := l.unit } (Harvest.concat _).references) = _
    rw [run_references_concat file (fun c hc => ih ⟨c, hc⟩)]

end DesignFacts

import DesignFacts.Extraction.Walk
import DesignFacts.Proofs.Placement.Expression

/-!
# A concurrent assignment is a process with one statement

A concurrent assignment and a process that only makes the same assignment describe the same
hardware. Their facts are gathered by different searches, at different places of different files.

**Parts** (`Node.IsAssignment`). Both searches find the same target and the same inputs: the values
after the arrow, then the arguments of the target.

**Statements.** A process whose only statement is the assignment, and which brings in no local
names, does what the assignment does (`processActivity_of_isOneAssignment`).

Main result: `agrees_walk_of_isOneAssignment`.
-/

namespace DesignFacts

open Text

/-- Whether nothing is found in a statement of this kind. -/
def Kind.isSilent (k : Kind) : Bool :=
  match StatementForm.ofKind k with
  | .silent => true
  | _ => false

namespace Node

/-- The node assigns values to a name: `target <= values ;`. -/
structure IsAssignment (n target : Node) (values : List Node) : Prop where
  exists_children : ∃ arrow semicolon : Node,
    n.children = target :: arrow :: (values ++ [semicolon]) ∧
      arrow.isToken "<=" = true ∧ semicolon.isToken ";" = true
  target_field : target.field = some "target"
  target_isName : target.kind.isName = true
  field_eq_none : ∀ c ∈ n.children.tail, c.field = none

/-- The constructs among the values of an assignment that are no comments. -/
def operands (values : List Node) : List Node := values.filter fun c => c.named && !c.isComment

namespace IsAssignment

variable {n target : Node} {values : List Node} (h : n.IsAssignment target values)

include h

theorem field_cases : ∀ c ∈ n.children, c.field = none ∨ c.field = some "target" := by
  intro c hc
  obtain ⟨arrow, semicolon, hn, -⟩ := h.exists_children
  have hothers := h.field_eq_none
  rw [hn] at hc hothers
  rcases List.mem_cons.1 hc with rfl | hc
  · exact .inr h.target_field
  · exact .inl (hothers c hc)

/-- In a process, the target and the values of the assignment are found. -/
theorem inProcess : n.assignmentTarget? = some target ∧ n.assignmentValues = operands values := by
  obtain ⟨arrow, semicolon, hn, harrow, hsemicolon⟩ := h.exists_children
  have htarget : n.childUnder "target" = some target := by
    rw [childUnder, hn]
    exact List.find?_cons_of_pos (by simp [isUnder, h.target_field])
  have hvalue : n.childUnder "value" = none := by
    rw [childUnder, List.find?_eq_none]
    intro c hc
    rcases h.field_cases c hc with hfield | hfield <;> simp [isUnder, hfield]
  have hname : target.isArrow = false := by
    simp [isArrow, isToken, named_of_isName h.target_isName]
  have hsplit : splitAt? isArrow n.children = some ([target], values ++ [semicolon]) := by
    rw [hn, splitAt?, hname, splitAt?, isArrow, harrow]
    rfl
  constructor
  · rw [assignmentTarget?, htarget, Option.some_or]
  · rw [assignmentValues, hvalue, hsplit]
    simp [operands, named_of_isToken hsemicolon]

/-- Among concurrent statements, the same target and values are found. -/
theorem concurrent : n.target? = some target ∧
    n.assignmentInputs = operands values ++ target.arguments := by
  obtain ⟨arrow, semicolon, hn, harrow, hsemicolon⟩ := h.exists_children
  have hunlabelled : n.unlabelled = target :: arrow :: (values ++ [semicolon]) := by
    rw [unlabelled, ← hn, List.filter_eq_self]
    intro c hc
    rcases h.field_cases c hc with hfield | hfield <;> simp [isUnder, hfield]
  have hindex : n.targetIndex? = some 0 := by
    rw [targetIndex?, hunlabelled, List.findIdx?_cons, isUnder, h.target_field]
    rfl
  have htarget : n.target? = some target := by
    rw [target?, hindex, hunlabelled]
    rfl
  refine ⟨htarget, ?_⟩
  rw [assignmentInputs, htarget, hindex, hunlabelled, List.zipIdx_cons,
    List.filter_cons_of_neg (by simp),
    List.filter_congr (q := (fun c => c.named && !c.isComment) ∘ Prod.fst), ← List.filter_map,
    List.zipIdx_map_fst]
  · simp [operands, named_of_isToken harrow, named_of_isToken hsemicolon]
  · -- All places after that of the target count.
    rintro ⟨c, i⟩ hc
    have hi : (some 0 != some i) = true := by
      have := (List.mem_zipIdx hc).1
      rw [bne_iff_ne, ne_eq, Option.some.injEq]
      omega
    show (c.named && some 0 != some i && !c.isComment) = (c.named && !c.isComment)
    rw [hi, Bool.and_true]

end IsAssignment

/-- The node is a process without local names whose only statement assigns values to a name. -/
structure IsOneAssignment (p target : Node) (values : List Node) : Prop where
  kind_eq : p.kind = .processStatement
  localNodes_eq : p.localNodes = []
  exists_statement : ∃ s : Node, p.containedStatements.filter (fun c => !c.kind.isSilent) = [s] ∧
    s.kind = .sequentialSignalAssignment ∧ s.IsAssignment target values

end Node

/-! ## Activities -/

theorem activity_of_isSilent {n : Node} (h : n.kind.isSilent = true) (s : ProcessSetting)
    (ctx : BranchContext) : activity s ctx n = {} := by
  rw [activity_eq, steps]
  rw [Kind.isSilent] at h
  cases hform : StatementForm.ofKind n.kind with
  | silent => rfl
  | _ =>
    rw [hform] at h
    cases h

/-- What a process with one statement does is what the assignment does. -/
theorem processActivity_of_isOneAssignment {p s : Node}
    (hs : p.containedStatements.filter (fun c => !c.kind.isSilent) = [s])
    (hkind : s.kind = .sequentialSignalAssignment) {α : Type} {f : Activity → List α}
    (hempty : f {} = []) (happend : ∀ a b, f (a ++ b) = f a ++ f b) (config : Config) (L : Lookup)
    (scope : Scope) :
    f (processActivity config L scope p) =
      f (assignmentActivity (processSetting config L scope p) {} true s) := by
  set setting := processSetting config L scope p
  -- Labels, comments and the like do nothing, so they can be left out of the row.
  have hsilent : ∀ ns : List Node, ns.flatMap (fun c => f (activity setting {} c)) =
      (ns.filter fun c => !c.kind.isSilent).flatMap fun c => f (activity setting {} c) := by
    intro ns
    induction ns with
    | nil => rfl
    | cons c ns ih =>
      by_cases hc : c.kind.isSilent = true
      · rw [List.flatMap_cons, activity_of_isSilent hc, hempty, List.nil_append, ih,
          List.filter_cons_of_neg (by simp [hc])]
      · rw [List.flatMap_cons, ih, List.filter_cons_of_pos (by simp [hc]), List.flatMap_cons]
  have hsteps : steps setting {} s =
      [{ own := assignmentActivity setting {} true s, context := {} }] := by
    rw [steps, hkind]
    rfl
  calc f (processActivity config L scope p)
      = p.containedStatements.flatMap fun c => f (activity setting {} c) := by
        rw [processActivity, Activity.concat_eq_flatMap hempty happend, List.flatMap_map]
    _ = f (activity setting {} s) := by
        rw [hsilent, hs, List.flatMap_cons, List.flatMap_nil, List.append_nil]
    _ = f (assignmentActivity setting {} true s) := by
        rw [activity_eq, hsteps, Activity.concat_eq_flatMap hempty happend, List.map_singleton,
          List.flatMap_cons, List.flatMap_nil, List.append_nil, happend]
        exact (congrArg _ hempty).trans (List.append_nil _)

/-! ## Facts -/

/-- A process without locals looks names up as its surroundings do. -/
theorem lookup_processSetting {p : Node} (h : p.localNodes = []) (config : Config) (L : Lookup)
    (scope : Scope) : (processSetting config L scope p).lookup = L := by
  show L.withLocals (p.localNodes.flatMap Node.ownLocalNames) = L
  rw [h]
  rfl

/-- What an assignment to a signal does, in terms of its target and its inputs. -/
theorem assignmentActivity_of_isAssignment {n target : Node} {values : List Node}
    (hn : n.IsAssignment target values) {s : ProcessSetting} {r : ResolvedName}
    (hr : resolve s.lookup target = some r) :
    let inputs := Node.operands values ++ target.arguments
    let site : Site := ⟨s.inProcess, s.inArch, some r.path, none⟩
    let a := assignmentActivity s {} true n
    a.reads = (scanAll s.lookup inputs).reads.map (·.path) ∧
      a.drives = [⟨r.path, (scanAll s.lookup inputs).readPaths, n.line⟩] ∧
      a.comparisons = inputs.flatMap (comparisons s.lookup site) ∧
      a.arithmeticOps = inputs.flatMap (arithmeticOps s.lookup site) := by
  obtain ⟨htarget, hvalues⟩ := hn.inProcess
  have hfields : ∀ a b : Activity, (a ++ b).reads = a.reads ++ b.reads ∧
      (a ++ b).drives = a.drives ++ b.drives ∧
      (a ++ b).comparisons = a.comparisons ++ b.comparisons ∧
      (a ++ b).arithmeticOps = a.arithmeticOps ++ b.arithmeticOps := fun _ _ => ⟨rfl, rfl, rfl, rfl⟩
  intro inputs site a
  simp only [a, assignmentActivity, htarget, hvalues, Option.bind_some, hr, Option.map_some,
    Option.getD_some, hfields, expressionActivity, if_true]
  simp [inputs, site]

/-- The facts of a process with one assignment, in terms of its target and its inputs. -/
theorem processHarvest_of_isOneAssignment {p target : Node} {values : List Node}
    (hp : p.IsOneAssignment target values) {L : Lookup} {r : ResolvedName}
    (hr : resolve L target = some r) (config : Config) (scope : Scope) :
    let inputs := Node.operands values ++ target.arguments
    let site : Site := ⟨p.label?.getD [], scope.path, some r.path, none⟩
    let h := processHarvest config L scope p
    h.processes.map (·.reads) = [(scanAll L inputs).readPaths] ∧
      h.signalDeps.map (fun d => (d.source, d.target)) =
        (scanAll L inputs).readPaths.map (fun source => (source, r.path)) ∧
      h.comparisons = inputs.flatMap (comparisons L site) ∧
      h.arithmeticOps = inputs.flatMap (arithmeticOps L site) := by
  obtain ⟨s, hs, hkind, hassignment⟩ := hp.exists_statement
  have hlookup := lookup_processSetting hp.localNodes_eq config L scope
  obtain ⟨hreads, hdrives, hcomparisons, hoperations⟩ :=
    assignmentActivity_of_isAssignment hassignment (s := processSetting config L scope p)
      (by rwa [hlookup])
  -- Each of the four lists of the process is that of its one statement.
  have hactivity {α : Type} (f : Activity → List α) (hempty : f {} = [])
      (happend : ∀ a b, f (a ++ b) = f a ++ f b) :=
    processActivity_of_isOneAssignment hs hkind hempty happend config L scope
  rw [hlookup] at hreads hdrives hcomparisons hoperations
  rw [← hactivity Activity.reads rfl fun _ _ => rfl] at hreads
  rw [← hactivity Activity.drives rfl fun _ _ => rfl] at hdrives
  rw [← hactivity Activity.comparisons rfl fun _ _ => rfl] at hcomparisons
  rw [← hactivity Activity.arithmeticOps rfl fun _ _ => rfl] at hoperations
  refine ⟨?_, ?_, hcomparisons, hoperations⟩
  · show [distinct (processActivity config L scope p).reads] = _
    rw [hreads]
    rfl
  · simp only [processHarvest, processDeps, hdrives, List.flatMap_cons, List.flatMap_nil,
      List.append_nil, List.map_map]
    rfl

/-- The facts of a concurrent assignment, in terms of its target and its inputs. -/
theorem concurrentHarvest_of_isAssignment {n target : Node} {values : List Node}
    (hn : n.IsAssignment target values) {L : Lookup} {r : ResolvedName}
    (hr : resolve L target = some r) (hpath : r.path ≠ []) (scope : Scope) :
    let inputs := Node.operands values ++ target.arguments
    let site : Site := ⟨[], scope.path, some r.path, none⟩
    let h := concurrentHarvest L scope n
    h.assignments.map (·.reads) = [(scanAll L inputs).readPaths] ∧
      h.signalDeps.map (fun d => (d.source, d.target)) =
        (scanAll L inputs).readPaths.map (fun source => (source, r.path)) ∧
      h.comparisons = inputs.flatMap (comparisons L site) ∧
      h.arithmeticOps = inputs.flatMap (arithmeticOps L site) := by
  obtain ⟨htarget, hinputs⟩ := hn.concurrent
  have hname : targetName L n = (r.base, r.path) := by rw [targetName, htarget]; simp only [hr]
  have hdriven : (if r.path.isEmpty then none else some r.path) = some r.path := by
    rw [if_neg]
    simpa using hpath
  intro inputs site h
  simp only [h, concurrentHarvest, hname, hinputs, hdriven]
  refine ⟨rfl, ?_, rfl, rfl⟩
  simp only [Option.toList_some, List.flatMap_cons, List.flatMap_nil, List.append_nil, List.map_map]
  rfl

theorem Harvest.append_concat_nil (h : Harvest) : h ++ concat [] = h := by
  show append h {} = h
  cases h
  simp [append]

/-- Inputs that differ in their places only. -/
theorem map_unplaced_inputs {target target' : Node} {values values' : List Node}
    (htarget : target.unplaced = target'.unplaced)
    (hvalues : values.map Node.unplaced = values'.map Node.unplaced) :
    (Node.operands values ++ target.arguments).map Node.unplaced =
      (Node.operands values' ++ target'.arguments).map Node.unplaced := by
  have hoperands : ∀ vs : List Node,
      (Node.operands vs).map Node.unplaced = Node.operands (vs.map Node.unplaced) := by
    intro vs
    simp [Node.operands, List.filter_map, Function.comp_def]
  rw [List.map_append, List.map_append, hoperands, hoperands, hvalues, ← Node.arguments_unplaced,
    ← Node.arguments_unplaced, htarget]

/-- A concurrent assignment and a process have the same facts: the same reads in the same order, and
the same dependencies, comparisons and costly operations. No operation is under a guard. -/
structure Harvest.Agrees (h h' : Harvest) : Prop where
  exists_reads : ∃ reads, h.assignments.map (·.reads) = [reads] ∧
    h'.processes.map (·.reads) = [reads]
  deps_eq : h.signalDeps.map (fun d => (d.source, d.target)) =
    h'.signalDeps.map fun d => (d.source, d.target)
  comparisons_eq : h.comparisons.map Comparison.content = h'.comparisons.map Comparison.content
  operations_eq :
    h.arithmeticOps.map ArithmeticOp.content = h'.arithmeticOps.map ArithmeticOp.content
  unguarded : ∀ o ∈ h.arithmeticOps, o.guard = none

/-- A concurrent assignment and a process with one statement agree, if their targets and values
differ in their places only. -/
theorem agrees_walk_of_isOneAssignment {n p target target' : Node} {values values' : List Node}
    (hn : n.kind = .concurrentSignalAssignment) (hassignment : n.IsAssignment target values)
    (hp : p.IsOneAssignment target' values') (htarget : target.unplaced = target'.unplaced)
    (hvalues : values.map Node.unplaced = values'.map Node.unplaced) {L : Lookup}
    {r : ResolvedName} (hr : resolve L target = some r) (hpath : r.path ≠ []) (config : Config)
    (scope scope' : Scope) : (walk config L scope n).Agrees (walk config L scope' p) := by
  obtain ⟨r', hr', hsame⟩ : ∃ r', resolve L target' = some r' ∧ r'.path = r.path := by
    have hresolve := resolve_unplaced L target
    rw [htarget, resolve_unplaced, hr] at hresolve
    obtain ⟨r', hr', hsame⟩ := Option.map_eq_some_iff.1 hresolve
    have hsamePath : r'.unplaced.path = r.unplaced.path := by rw [hsame]
    exact ⟨r', hr', hsamePath⟩
  have hwalk : walk config L scope n = concurrentHarvest L scope n := by
    rw [walk_eq]
    simp only [visit, hn, List.map_nil, Harvest.append_concat_nil]
  have hwalk' : walk config L scope' p = processHarvest config L scope' p := by
    rw [walk_eq]
    simp only [visit, hp.kind_eq, List.map_nil, Harvest.append_concat_nil]
  have hinputs := map_unplaced_inputs htarget hvalues
  have hpaths := readPaths_eq_of_unplaced hinputs L
  obtain ⟨hreads, hdeps, hcomparisons, hoperations⟩ :=
    concurrentHarvest_of_isAssignment hassignment hr hpath scope
  obtain ⟨hreads', hdeps', hcomparisons', hoperations'⟩ :=
    processHarvest_of_isOneAssignment hp hr' config scope'
  rw [hwalk, hwalk']
  refine ⟨⟨_, hreads, ?_⟩, ?_, ?_, ?_, ?_⟩
  · rw [hreads', hpaths]
  · rw [hdeps, hdeps', hpaths, hsame]
  · rw [hcomparisons, hcomparisons']
    exact comparisons_eq_of_unplaced hinputs L (by rw [hsame])
  · rw [hoperations, hoperations']
    exact arithmeticOps_eq_of_unplaced hinputs L (by rw [hsame]) rfl
  -- No operation of a concurrent assignment has a guard.
  · intro o ho
    rw [hoperations] at ho
    obtain ⟨v, -, ho⟩ := List.mem_flatMap.1 ho
    obtain ⟨c, -, ho⟩ := List.mem_filterMap.1 ho
    obtain ⟨operation, -, rfl⟩ := Option.map_eq_some_iff.1 ho
    rfl

end DesignFacts

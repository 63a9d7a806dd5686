import DesignFacts.Proofs.Process.Visit
import Mathlib.Data.List.Forall2

/-!
# Dependencies of a process

A process says which signals it writes and which it reads, each once up to letter case, and how the
written ones depend on those that are read.

**Reads.** What an assignment reads for its target, it also reads for the process, so an activity
reads whatever its signals are driven by (`Activity.Covered`).

**Edges.** The dependencies come assignment by assignment, in document order. Those of a single
assignment are one for each path that it reads (`Node.EdgesTo`).

Main result: `processHarvest_backed`.
-/

namespace DesignFacts

open Text

/-! ## Reads -/

/-- What drives the signals of an activity is among its reads. -/
def Activity.Covered (a : Activity) : Prop := ∀ d ∈ a.drives, ∀ t ∈ d.reads, t ∈ a.reads

namespace Activity

theorem covered_of_nil {a : Activity} (h : a.drives = []) : a.Covered := by
  intro d hd
  rw [h] at hd
  cases hd

theorem Covered.append {a b : Activity} (ha : a.Covered) (hb : b.Covered) : (a ++ b).Covered := by
  intro d hd t ht
  rcases List.mem_append.1 hd with hd | hd
  · exact List.mem_append_left _ (ha d hd t ht)
  · exact List.mem_append_right _ (hb d hd t ht)

end Activity

section Steps

variable (s : ProcessSetting) (ctx : BranchContext) (n : Node)

theorem covered_assignmentActivity (isSignal : Bool) :
    (assignmentActivity s ctx isSignal n).Covered := by
  intro d hd t ht
  rw [drives_assignmentActivity] at hd
  split at hd
  · obtain ⟨r, -, rfl⟩ := Option.map_eq_some_iff.1 (Option.mem_toList.1 hd)
    have hread : t ∈ (expressionActivity s ctx none none n.assignmentReads).reads :=
      mem_of_mem_distinct ht
    exact List.mem_append_left _ (List.mem_append_right _ hread)
  · cases hd

theorem covered_steps : ∀ t ∈ steps s ctx n, t.own.Covered := by
  intro t ht
  unfold steps at ht
  split at ht
  case h_2 =>
    rcases List.mem_cons.1 ht with rfl | ht
    · exact Activity.covered_of_nil rfl
    · obtain ⟨a, -, rfl⟩ := List.mem_map.1 ht
      exact Activity.covered_of_nil rfl
  case h_6 => cases ht
  all_goals obtain rfl := List.mem_singleton.1 ht
  case h_1 => exact covered_assignmentActivity s ctx n _
  case h_5 => exact Activity.covered_of_nil (drives_procedureCallActivity s n)
  all_goals exact Activity.covered_of_nil rfl

end Steps

theorem covered_processActivity (config : Config) (L : Lookup) (scope : Scope) (n : Node) :
    (processActivity config L scope n).Covered :=
  processActivity_of_steps (Activity.covered_of_nil rfl) (fun _ _ ha hb => ha.append hb)
    (covered_steps _)

/-! ## Edges -/

namespace Node

/-- The signal assignments of a process, in document order. -/
def signalAssignments (n : Node) : List Node := n.processStatements.filter assignsSignal

/-- The dependencies of an assignment to a name: one for each path that it reads, in the spelling of
one of its reads. -/
structure EdgesTo (L : Lookup) (m : Node) (r : ResolvedName) (edges : List SignalDep) : Prop where
  target : ∀ e ∈ edges, e.target = r.path ∧ e.line = m.line
  source : ∀ e ∈ edges, ∃ i ∈ m.assignmentReads, ∃ x ∈ (scan L i).reads, e.source = x.path
  distinct : edges.Pairwise fun e e' => same e.source e'.source = false
  complete : ∀ i ∈ m.assignmentReads, ∀ x ∈ (scan L i).reads,
    ∃ e ∈ edges, same x.path e.source = true

/-- The dependencies of an assignment in a process. -/
def edges (p : ProcessStatement) (L : Lookup) (m : Node) : List SignalDep :=
  (m.drive? L).toList.flatMap fun d => d.reads.map fun source =>
    { source
      target := d.target
      inProcess := p.labelText
      isSequential := p.isSequential
      inArch := p.inArch
      line := d.line }

theorem edges_eq_nil {p : ProcessStatement} {L : Lookup} {m : Node} (h : m.assigned? L = none) :
    m.edges p L = [] := by
  rw [edges, drive?, h]
  rfl

theorem mem_reads_scanAll {L : Lookup} {ns : List Node} {x : ResolvedName} :
    x ∈ (scanAll L ns).reads ↔ ∃ i ∈ ns, x ∈ (scan L i).reads := by
  rw [scanAll, Scan.reads_concat, List.flatMap_map, List.mem_flatMap]

/-- An assignment to a name has one dependency for each path that it reads. -/
theorem edgesTo_edges {p : ProcessStatement} {L : Lookup} {m : Node} {r : ResolvedName}
    (h : m.assigned? L = some r) : m.EdgesTo L r (m.edges p L) := by
  have hedges : m.edges p L = (scanAll L m.assignmentReads).readPaths.map fun source =>
      { source
        target := r.path
        inProcess := p.labelText
        isSequential := p.isSequential
        inArch := p.inArch
        line := m.line } := by
    rw [edges, drive?, h]
    exact List.flatMap_singleton _ _
  rw [hedges]
  constructor
  · intro e he
    obtain ⟨t, -, rfl⟩ := List.mem_map.1 he
    exact ⟨rfl, rfl⟩
  · intro e he
    obtain ⟨t, ht, rfl⟩ := List.mem_map.1 he
    -- A path is kept once, for the first of the reads that have it.
    obtain ⟨x, hx, rfl⟩ := List.mem_map.1 (mem_of_mem_distinct ht)
    obtain ⟨i, hi, hx⟩ := mem_reads_scanAll.1 hx
    exact ⟨i, hi, x, hx, rfl⟩
  · exact List.pairwise_map.2 (pairwise_distinct _)
  · intro i hi x hx
    have hpath : x.path ∈ (scanAll L m.assignmentReads).reads.map (·.path) :=
      List.mem_map_of_mem (mem_reads_scanAll.2 ⟨i, hi, hx⟩)
    obtain ⟨t, ht, hsame⟩ := exists_same_of_mem hpath
    exact ⟨_, List.mem_map_of_mem ht, hsame⟩

end Node

section Processes

variable (config : Config) (L : Lookup) (scope : Scope) (n : Node)

/-- The signals of a process are driven by its signal assignments. -/
theorem drives_eq_filterMap :
    (processActivity config L scope n).drives =
      n.signalAssignments.filterMap (Node.drive? (L.withLocals n.localNames)) := by
  rw [drives_processActivity, Node.signalAssignments, List.filterMap_filter,
    List.filterMap_eq_flatMap_toList]
  apply List.flatMap_congr
  intro m _
  unfold Node.ownDrives
  split <;> simp_all

theorem processDeps_eq_flatMap (p : ProcessStatement) :
    processDeps p (processActivity config L scope n) =
      n.signalAssignments.flatMap (Node.edges p (L.withLocals n.localNames)) := by
  rw [processDeps, drives_eq_filterMap, List.filterMap_eq_flatMap_toList, List.flatMap_assoc]
  rfl

end Processes

/-! ## Backing -/

/-- A dependency belongs to a process and is backed by what the process reads and writes. -/
structure SignalDep.BackedBy (d : SignalDep) (p : ProcessStatement) : Prop where
  source : ∃ t ∈ p.reads, same d.source t = true
  target : ∃ t ∈ p.assigned, same d.target t = true
  inProcess : d.inProcess = p.labelText
  inArch : d.inArch = p.inArch
  isSequential : d.isSequential = p.isSequential

theorem backedBy_of_mem_processDeps {scope : Scope} {n : Node} {a : Activity} (ha : a.Covered)
    {d : SignalDep} (hd : d ∈ processDeps (processOf scope n a) a) :
    d.BackedBy (processOf scope n a) := by
  obtain ⟨drive, hdrive, hd⟩ := List.mem_flatMap.1 hd
  obtain ⟨t, ht, rfl⟩ := List.mem_map.1 hd
  exact {
    source := exists_same_of_mem (ha drive hdrive t ht)
    target := exists_same_of_mem (List.mem_map_of_mem hdrive)
    inProcess := rfl
    inArch := rfl
    isSequential := rfl }

/-- **Dependencies are backed by what a process reads and writes.** A process lists the signals that
it writes and reads each once up to letter case. Every dependency goes from one of the latter to one
of the former, with label, scope and kind of the process. Every written signal is the path of a
signal assignment. These assignments stand in document order, and the dependencies are theirs, one
assignment after another: for each path that the values of an assignment or the indices of its
target read, there is exactly one. -/
theorem processHarvest_backed (config : Config) (L : Lookup) (scope : Scope) (n : Node) :
    let h := processHarvest config L scope n
    let tables := L.withLocals n.localNames
    ∃ p, h.processes = [p] ∧ p.label = n.label? ∧ p.inArch = scope.path ∧
      (p.assigned.Pairwise fun a b => same a b = false) ∧
      (p.reads.Pairwise fun a b => same a b = false) ∧
      (∀ d ∈ h.signalDeps, d.BackedBy p) ∧
      (∀ t ∈ p.assigned, ∃ m ∈ n.signalAssignments, ∃ r, m.assigned? tables = some r ∧ r.path = t) ∧
      n.signalAssignments.Sublist n.subtree ∧
      ∃ edges : List (List SignalDep), h.signalDeps = edges.flatten ∧
        List.Forall₂ (fun m es => (m.assigned? tables = none → es = []) ∧
          ∀ r, m.assigned? tables = some r → m.EdgesTo tables r es) n.signalAssignments edges := by
  intro h tables
  let a := processActivity config L scope n
  -- The dependencies are cut into pieces, one for each assignment, and all else is said of these.
  refine ⟨processOf scope n a, rfl, rfl, rfl, pairwise_distinct _, pairwise_distinct _, ?_, ?_, ?_,
    n.signalAssignments.map (Node.edges (processOf scope n a) tables), ?_, ?_⟩
  · intro d hd
    exact backedBy_of_mem_processDeps (covered_processActivity config L scope n) hd
  · intro t ht
    obtain ⟨d, hd, rfl⟩ := List.mem_map.1 (mem_of_mem_distinct ht)
    rw [drives_eq_filterMap] at hd
    obtain ⟨m, hm, hdrive⟩ := List.mem_filterMap.1 hd
    obtain ⟨r, hr, rfl⟩ := Option.map_eq_some_iff.1 hdrive
    exact ⟨m, hm, r, hr, rfl⟩
  · exact List.filter_sublist.trans n.processStatements_sublist
  · show processDeps _ a = _
    rw [processDeps_eq_flatMap, List.flatMap_def]
  · rw [List.forall₂_map_right_iff, List.forall₂_same]
    intro m _
    exact ⟨Node.edges_eq_nil, fun r hr => Node.edgesTo_edges hr⟩

end DesignFacts

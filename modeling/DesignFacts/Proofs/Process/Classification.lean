import DesignFacts.Proofs.Extraction.Record
import Mathlib.Data.List.Forall2

/-!
# Processes are classified consistently

The kind of a process, its clock and its reset are decided by what is found anywhere in its
statements, at any depth.

**Activities.** `Activity.Consistent` says what clock and reset have to do with each other. A single
step keeps to it: the condition of a reset is looked for only beside an arm with a clock edge
(`consistent_ifSteps`), and no other step finds either. Joining activities keeps it, since the first
clock and the first reset count, so it holds of whole processes.

**Processes.** What holds of the activity shows in the flags of the process
(`ProcessStatement.Classified`), and so in the lists of clock domains and resets: each has one entry
for every sequential process, or for every process with a reset, in the order of the processes.

Main result: `extract_classified`.
-/

namespace DesignFacts

open Text

/-! ## Edges and resets -/

theorem ResolvedName.edge?_ne_nil {config : Config} {r : ResolvedName} {edge : ClockEdge}
    {clock : Text} (h : r.edge? config = some (edge, clock)) : clock ≠ [] := by
  unfold edge? at h
  split at h
  · obtain ⟨found, -, h⟩ := Option.bind_eq_some_iff.1 h
    split at h
    · split at h
      · rename_i hplain
        cases h
        intro hnil
        simp [isPlainName, hnil] at hplain
      · cases h
    · cases h
  · cases h

/-- A clock edge is on a clock with a name. -/
theorem Arm.edge?_ne_nil {s : ProcessSetting} {a : Arm} {edge : ClockEdge} {clock : Text}
    (h : a.edge? s = some (edge, clock)) : clock ≠ [] := by
  obtain ⟨condition, -, hcall⟩ := Option.bind_eq_some_iff.1 h
  obtain ⟨n, -, hname⟩ := List.exists_of_findSome?_eq_some hcall
  rw [edgeOfName?] at hname
  split at hname
  · obtain ⟨r, -, hedge⟩ := Option.bind_eq_some_iff.1 hname
    exact r.edge?_ne_nil hedge
  · cases hname

/-- A reset that is found has a signal and a level, and does not wait for the clock. -/
theorem complete_of_resetOf? {config : Config} {L : Lookup} {condition : Node} {r : Reset}
    (h : resetOf? config L condition = some r) :
    r.isAsync = true ∧ r.signal.isSome = true ∧ r.polarity.isSome = true := by
  obtain ⟨rel, -, h⟩ := Option.bind_eq_some_iff.1 h
  split at h
  · cases h
    exact ⟨rfl, rfl, rfl⟩
  · cases h

/-- A condition may test a reset only if a later arm tests a clock edge. -/
theorem isSome_findSome?_of_resetCondition? {s : ProcessSetting} {ctx : BranchContext}
    {arms : List Arm} {condition : Node} (h : resetCondition? s ctx arms = some condition) :
    (arms.findSome? (Arm.edge? s)).isSome = true := by
  cases arms with
  | nil => cases h
  | cons first later =>
    rw [resetCondition?] at h
    split at h
    · rename_i hlater
      simp only [Bool.and_eq_true, List.any_eq_true] at hlater
      obtain ⟨⟨-, a, ha, hedge⟩, -⟩ := hlater
      rw [List.findSome?_isSome_iff]
      exact ⟨a, List.mem_cons_of_mem first ha, hedge⟩
    · cases h

/-! ## Activities -/

namespace Activity

/-- Clock and reset of an activity fit each other. -/
structure Consistent (a : Activity) : Prop where
  clock_ne_nil : ∀ edge clock, a.clock = some (edge, clock) → clock ≠ []
  clocked : a.reset.isSome = true → a.clock.isSome = true
  complete : ∀ r, a.reset = some r →
    r.isAsync = true ∧ r.signal.isSome = true ∧ r.polarity.isSome = true

theorem consistent_of_none {a : Activity} (hclock : a.clock = none) (hreset : a.reset = none) :
    a.Consistent where
  clock_ne_nil := by simp [hclock]
  clocked := by simp [hreset]
  complete := by simp [hreset]

theorem Consistent.append {a b : Activity} (ha : a.Consistent) (hb : b.Consistent) :
    (a ++ b).Consistent where
  clock_ne_nil := by
    intro edge clock h
    rcases Option.or_eq_some_iff.1 h with h | ⟨-, h⟩
    · exact ha.clock_ne_nil edge clock h
    · exact hb.clock_ne_nil edge clock h
  clocked := by
    intro h
    have h : (a.reset.or b.reset).isSome = true := h
    show (a.clock.or b.clock).isSome = true
    rw [Option.isSome_or, Bool.or_eq_true] at h ⊢
    exact h.imp ha.clocked hb.clocked
  complete := by
    intro r h
    rcases Option.or_eq_some_iff.1 h with h | ⟨-, h⟩
    · exact ha.complete r h
    · exact hb.complete r h

end Activity

/-! ## Steps -/

/-- An `if` statement has a reset only together with a clock. -/
theorem consistent_ifSteps (s : ProcessSetting) (ctx : BranchContext) (n : Node) :
    ∀ t ∈ ifSteps s ctx n, t.own.Consistent := by
  intro t ht
  rcases List.mem_cons.1 ht with rfl | ht
  · exact {
      clock_ne_nil := by
        intro edge clock h
        obtain ⟨a, -, ha⟩ := List.exists_of_findSome?_eq_some h
        exact a.edge?_ne_nil ha
      clocked := by
        intro h
        obtain ⟨r, h⟩ := Option.isSome_iff_exists.1 h
        obtain ⟨condition, hcondition, -⟩ := Option.bind_eq_some_iff.1 h
        exact isSome_findSome?_of_resetCondition? hcondition
      complete := by
        intro r h
        obtain ⟨condition, -, hreset⟩ := Option.bind_eq_some_iff.1 h
        exact complete_of_resetOf? hreset }
  · obtain ⟨a, -, rfl⟩ := List.mem_map.1 ht
    exact Activity.consistent_of_none rfl rfl

theorem consistent_procedureCallActivity (s : ProcessSetting) (n : Node) :
    (procedureCallActivity s n).Consistent := by
  unfold procedureCallActivity
  split
  · exact Activity.consistent_of_none rfl rfl
  · exact Activity.consistent_of_none rfl rfl

/-- Every step of a statement is consistent: only `if` statements look for clocks and resets. -/
theorem consistent_steps (s : ProcessSetting) (ctx : BranchContext) (n : Node) :
    ∀ t ∈ steps s ctx n, t.own.Consistent := by
  intro t ht
  unfold steps at ht
  split at ht
  case h_2 => exact consistent_ifSteps s ctx n t ht
  case h_6 => cases ht
  all_goals
    obtain rfl := List.mem_singleton.1 ht
  case h_5 => exact consistent_procedureCallActivity s n
  all_goals exact Activity.consistent_of_none rfl rfl

theorem consistent_processActivity (config : Config) (L : Lookup) (scope : Scope) (n : Node) :
    (processActivity config L scope n).Consistent :=
  processActivity_of_steps (Activity.consistent_of_none rfl rfl) (fun _ _ ha hb => ha.append hb)
    (consistent_steps _)

/-! ## Processes -/

namespace ProcessStatement

/-- The flags, the clock and the reset of a process fit each other. -/
structure Classified (p : ProcessStatement) : Prop where
  /-- Exactly one of the three flags holds. -/
  one_kind : [p.isSequential, p.isCombinational, p.isWaiting].count true = 1
  sequential_iff : p.isSequential = true ↔ p.clock.isSome = true
  clock_iff_edge : p.clock.isSome = true ↔ p.edge.isSome = true
  clock_ne_nil : ∀ clock, p.clock = some clock → clock ≠ []
  waiting_iff : p.isWaiting = true ↔ p.isSequential = false ∧ p.waits ≠ []
  reset : p.hasReset = true → p.isSequential = true ∧ p.resetIsAsync = true ∧
    p.resetSignal.isSome = true ∧ p.resetPolarity.isSome = true
  no_reset : p.hasReset = false →
    p.resetIsAsync = false ∧ p.resetSignal = none ∧ p.resetPolarity = none

theorem count_flags (p : ProcessStatement) :
    [p.isSequential, p.isCombinational, p.isWaiting].count true = 1 := by
  unfold isSequential isCombinational isWaiting
  cases p.kind <;> rfl

end ProcessStatement

theorem Activity.kind_eq_sequential_iff (a : Activity) :
    a.kind = .sequential ↔ a.clock.isSome = true := by
  unfold kind
  split
  · simp [*]
  · split <;> simp [*]

theorem Activity.kind_eq_waiting_iff (a : Activity) :
    a.kind = .waiting ↔ a.clock.isSome = false ∧ a.waits ≠ [] := by
  unfold kind
  split
  · simp [*]
  · split <;> simp_all

/-- A process is classified as its activity says. -/
theorem classified_processOf (scope : Scope) (n : Node) {a : Activity} (ha : a.Consistent) :
    (processOf scope n a).Classified := by
  -- All of the flags come down to whether the activity has a clock.
  have hsequential : (processOf scope n a).isSequential = a.clock.isSome := by
    rw [Bool.eq_iff_iff, ← a.kind_eq_sequential_iff]
    exact beq_iff_eq
  have hclock : (processOf scope n a).clock.isSome = a.clock.isSome := Option.isSome_map
  have hedge : (processOf scope n a).edge.isSome = a.clock.isSome := Option.isSome_map
  exact {
    one_kind := ProcessStatement.count_flags _
    sequential_iff := by rw [hsequential, hclock]
    clock_iff_edge := by rw [hclock, hedge]
    clock_ne_nil := by
      intro clock h
      obtain ⟨⟨edge, name⟩, hfound, rfl⟩ := Option.map_eq_some_iff.1 h
      exact ha.clock_ne_nil edge name hfound
    waiting_iff := by
      rw [hsequential]
      exact beq_iff_eq.trans a.kind_eq_waiting_iff
    reset := by
      intro h
      obtain ⟨r, hr⟩ := Option.isSome_iff_exists.1 h
      have hr : a.reset = some r := hr
      obtain ⟨hasync, hsignal, hpolarity⟩ := ha.complete r hr
      refine ⟨hsequential.trans (ha.clocked h), ?_, ?_, ?_⟩
      · simpa [ProcessStatement.resetIsAsync, processOf, hr] using hasync
      · simpa [ProcessStatement.resetSignal, processOf, hr] using hsignal
      · simpa [ProcessStatement.resetPolarity, processOf, hr] using hpolarity
    no_reset := by
      intro h
      have hr : (processOf scope n a).reset = none := by
        simpa [ProcessStatement.hasReset] using h
      simp [ProcessStatement.resetIsAsync, ProcessStatement.resetSignal,
        ProcessStatement.resetPolarity, hr] }

theorem classified_of_mem_own {config : Config} {s : Stop} {p : ProcessStatement}
    (hp : p ∈ (s.own config).processes) : p.Classified := by
  rw [(s.own_isFrom config).processes, List.mem_ite_nil_right] at hp
  obtain rfl := List.mem_singleton.1 hp.2
  exact classified_processOf _ _ (consistent_processActivity _ _ _ _)

/-! ## Clock domains and resets -/

structure ClockDomain.IsOf (d : ClockDomain) (p : ProcessStatement) : Prop where
  clock : p.clock = some d.clock
  edge : p.edge = some d.edge
  registers : d.registers = p.assigned
  process : d.process = p.labelText
  inArch : d.inArch = p.inArch
  line : d.line = p.line

/-- A reset entry is that of a process. -/
structure ResetInfo.IsOf (r : ResetInfo) (p : ProcessStatement) : Prop where
  signal : p.resetSignal = some r.signal
  polarity : p.resetPolarity = some r.polarity
  isAsync : r.isAsync = p.resetIsAsync
  registers : r.registers = p.assigned
  process : r.process = p.labelText
  inArch : r.inArch = p.inArch
  line : r.line = p.line

/-- A list of optional results has one result for every element that a test selects, if these are
the elements with a result. -/
theorem forall₂_filterMap {α β : Type} {R : β → α → Prop} {f : α → Option β} {p : α → Bool}
    {xs : List α} (hsome : ∀ x ∈ xs, p x = true → ∃ y, f x = some y ∧ R y x)
    (hnone : ∀ x ∈ xs, p x = false → f x = none) :
    List.Forall₂ R (xs.filterMap f) (xs.filter p) := by
  induction xs with
  | nil => exact .nil
  | cons x xs ih =>
    have ih := ih (fun y hy => hsome y (List.mem_cons_of_mem x hy))
      (fun y hy => hnone y (List.mem_cons_of_mem x hy))
    cases hp : p x with
    | true =>
      obtain ⟨y, hy, hR⟩ := hsome x List.mem_cons_self hp
      rw [List.filterMap_cons_some hy, List.filter_cons_of_pos hp]
      exact .cons hR ih
    | false =>
      rw [List.filterMap_cons_none (hnone x List.mem_cons_self hp),
        List.filter_cons_of_neg (by simp [hp])]
      exact ih

/-- Every sequential process has its clock domain, and no other process has one. -/
theorem forall₂_clockDomains {ps : List ProcessStatement} (h : ∀ p ∈ ps, p.Classified) :
    List.Forall₂ ClockDomain.IsOf (clockDomains ps) (ps.filter (·.isSequential)) := by
  refine forall₂_filterMap (fun p hp hsequential => ?_) (fun p hp hsequential => ?_)
  · have hclock := (h p hp).sequential_iff.1 hsequential
    obtain ⟨clock, hc⟩ := Option.isSome_iff_exists.1 hclock
    obtain ⟨edge, he⟩ := Option.isSome_iff_exists.1 ((h p hp).clock_iff_edge.1 hclock)
    refine ⟨_, by rw [ProcessStatement.clockDomain?, hc, he], ?_⟩
    exact { clock := hc, edge := he, registers := rfl, process := rfl, inArch := rfl, line := rfl }
  · have hclock : p.clock = none := by
      rw [← Option.not_isSome_iff_eq_none, ← (h p hp).sequential_iff, hsequential]
      exact Bool.false_ne_true
    rw [ProcessStatement.clockDomain?, hclock]

/-- Every process with a reset has its entry, and no other process has one. -/
theorem forall₂_resetInfos {ps : List ProcessStatement} (h : ∀ p ∈ ps, p.Classified) :
    List.Forall₂ ResetInfo.IsOf (resetInfos ps) (ps.filter (·.hasReset)) := by
  refine forall₂_filterMap (fun p hp hreset => ?_) (fun p hp hreset => ?_)
  · obtain ⟨-, -, hsignal, hpolarity⟩ := (h p hp).reset hreset
    obtain ⟨r, hr⟩ := Option.isSome_iff_exists.1 hreset
    obtain ⟨signal, hs⟩ := Option.isSome_iff_exists.1 hsignal
    obtain ⟨polarity, hl⟩ := Option.isSome_iff_exists.1 hpolarity
    have hrs : r.signal = some signal := by simpa [ProcessStatement.resetSignal, hr] using hs
    have hrl : r.polarity = some polarity := by simpa [ProcessStatement.resetPolarity, hr] using hl
    refine ⟨_, by rw [ProcessStatement.resetInfo?, hr, Option.bind_some, hrs, Option.map_some], ?_⟩
    exact {
      signal := hs
      polarity := by rw [hl, hrl, Option.getD_some]
      isAsync := by simp [ProcessStatement.resetIsAsync, hr]
      registers := rfl, process := rfl, inArch := rfl, line := rfl }
  · have hr : p.reset = none := by simpa [ProcessStatement.hasReset] using hreset
    rw [ProcessStatement.resetInfo?, hr, Option.bind_none]

/-- **Processes are classified consistently.** In the record of a file, every process, also in the
list of every generate statement, has flags, clock and reset that fit each other; the clock domains
are those of the sequential processes, and the resets those of the processes with a reset, one for
each and in their order. -/
theorem extract_classified {config : Config} {file : Text} {root : Node} {f : FileFacts}
    (h : extract config file root = .ok f) :
    (∀ p ∈ f.processes, p.Classified) ∧
      (∀ g ∈ Generate.walkAll f.generates, ∀ p ∈ g.processes, p.Classified) ∧
      List.Forall₂ ClockDomain.IsOf f.clockDomains (f.processes.filter (·.isSequential)) ∧
      List.Forall₂ ResetInfo.IsOf f.resets (f.processes.filter (·.hasReset)) := by
  have hprocesses : ∀ p ∈ f.processes, p.Classified := by
    intro p hp
    have hstops : f.processes = (itinerary config root).flatMap fun s => (s.own config).processes :=
      of_extract .processes h
    rw [hstops] at hp
    obtain ⟨s, -, hp⟩ := List.mem_flatMap.1 hp
    exact classified_of_mem_own hp
  have hgenerates : ∀ g ∈ Generate.walkAll f.generates, ∀ p ∈ g.processes, p.Classified := by
    intro g hg p hp
    obtain ⟨s, -, hat⟩ := exists_stop_of_mem_generates h hg
    rw [hat.processes] at hp
    obtain ⟨c, -, s', -, hp⟩ := FlatList.processes.exists_stop_of_mem_body hp
    exact classified_of_mem_own hp
  obtain ⟨generates, -, rfl⟩ := exists_of_extract h
  exact ⟨hprocesses, hgenerates, forall₂_clockDomains hprocesses, forall₂_resetInfos hprocesses⟩

/-- A register with an asynchronous reset, inside a generate statement. -/
def registerTree : Node :=
  .branch "if_generate" [.word "if", .leaf "identifier" "EN", .word "generate",
    .branch "process_statement" [.word "begin",
      .branch "if_statement" [.word "if", .leaf "relational_expression" "rst = '0'", .word "then",
        .word "elsif", .leaf "function_call" "rising_edge(clk)", .word "then",
        .branch "sequential_signal_assignment"
          [.leaf "identifier" "q", .word "<=", .leaf "identifier" "d"],
        .word "end"],
      .word "end"],
    .word "end"]

theorem extract_classified_register :
    ∃ f, extract {} [] registerTree = .ok f ∧ f.clockDomains.length = 1 ∧ f.resets.length = 1 ∧
      (∀ p ∈ f.processes, p.Classified) ∧
      (∀ g ∈ Generate.walkAll f.generates, ∀ p ∈ g.processes, p.Classified) ∧
      List.Forall₂ ClockDomain.IsOf f.clockDomains (f.processes.filter (·.isSequential)) ∧
      List.Forall₂ ResetInfo.IsOf f.resets (f.processes.filter (·.hasReset)) := by
  obtain ⟨f, h, hcounts⟩ := exists_ok_of_any (x := extract {} [] registerTree)
    (p := fun f => f.clockDomains.length == 1 && f.resets.length == 1) (by decide +kernel)
  rw [Bool.and_eq_true, beq_iff_eq, beq_iff_eq] at hcounts
  exact ⟨f, h, hcounts.1, hcounts.2, extract_classified h⟩

end DesignFacts

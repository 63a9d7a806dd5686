import DesignFacts.Analysis.Crossing
import Mathlib.Data.List.Basic
import Mathlib.Data.List.Induction

/-!
# Crossings as a comprehension

`crossings` first groups the writes of all clocked processes by signal and then looks the groups up
for every read. This file says what comes out without the grouping: for every read, in order, one
crossing for every write of the signal on another clock, in order (`crossingList`).

The grouping is undone by `writers_writerTable`: the group of a signal lists its writes in the order
of the processes, once for every write. Adding one write is the step (`writers_add`), adding the
writes of a process and then of all processes are two inductions over it.

Main result: `crossings_eq_crossingList`.
-/

namespace DesignFacts

open Text

/-! ## The comprehension -/

/-- The processes with a clock, each after its clock. -/
def clocked (ps : List ProcessStatement) : List (Text × ProcessStatement) :=
  ps.filterMap fun p => match p.kind, p.clock with
    | .sequential, some (c :: cs) => some (c :: cs, p)
    | _, _ => none

/-- What is declared with a type, the signals before the ports. -/
def Harvest.typedNames (h : Harvest) : List (Text × Text) :=
  h.signals.map (fun s => (s.name, s.typeText)) ++ h.ports.map fun p => (p.name, p.typeText)

/-- Whether a type has more than one bit, or is a vector of unknown width. -/
def Width.IsMultiBit (type : Text) : Prop :=
  1 < Width.estimate type ∨ Width.estimate type = 0 ∧ Width.isVector type = true

instance (type : Text) : Decidable (Width.IsMultiBit type) :=
  inferInstanceAs (Decidable (_ ∨ _ ∧ _))

/-- The crossing of a signal from a writer to a reader. -/
def crossing (h : Harvest) (signal : Text) (writer reader : Text × ProcessStatement) :
    Crossing where
  signal := signal
  sourceClock := writer.1
  sourceProcess := writer.2.labelText
  destClock := reader.1
  destProcess := reader.2.labelText
  stages := ((synchronizerStages h.processes).get? (lower signal, lower reader.1)).getD 0
  isMultiBit := (h.typedNames.find? fun d => lower d.1 = lower (signal.takeWhile (· ≠ '.'))).any
    fun d => Width.IsMultiBit d.2
  inArch := reader.2.inArch
  line := reader.2.line

/-- For every signal that a clocked process reads, and every write of it in a clocked process on
another clock, the crossing between the two. -/
def crossingList (h : Harvest) : List Crossing :=
  (clocked h.processes).flatMap fun reader =>
    reader.2.reads.flatMap fun signal =>
      (clocked h.processes).flatMap fun writer =>
        (writer.2.assigned.filter fun a => lower a = lower signal).flatMap fun _ =>
          if lower writer.1 = lower reader.1 then [] else [crossing h signal writer reader]

/-! ## Clocked processes -/

theorem clocked_eq (ps : List ProcessStatement) :
    clocked ps = ps.filterMap fun p => p.clock?.map fun clock => (clock, p) := by
  refine List.filterMap_congr fun p _ => ?_
  unfold ProcessStatement.clock? ProcessStatement.isSequential
  cases p.kind with
  | sequential => rcases p.clock with - | - | - <;> rfl
  | waiting => rfl
  | combinational => rfl

theorem clocked_concat (ps : List ProcessStatement) (p : ProcessStatement) :
    clocked (ps ++ [p]) = clocked ps ++ (p.clock?.map fun clock => (clock, p)).toList := by
  rw [clocked_eq, clocked_eq, List.filterMap_append]
  cases h : p.clock? <;> simp [h]

/-- What is gathered from processes with their clocks is gathered from the clocked ones. -/
theorem flatMap_clocked {α : Type} {g : ProcessStatement → List α}
    {f : Text → ProcessStatement → List α}
    (hsome : ∀ p clock, p.clock? = some clock → g p = f clock p)
    (hnone : ∀ p, p.clock? = none → g p = []) (ps : List ProcessStatement) :
    ps.flatMap g = (clocked ps).flatMap fun w => f w.1 w.2 := by
  induction ps using List.reverseRecOn with
  | nil => rfl
  | append_singleton ps p ih =>
    rw [List.flatMap_append, clocked_concat, List.flatMap_append, ih]
    cases h : p.clock? with
    | none => simp [hnone p h]
    | some clock => simp [hsome p clock h]

/-! ## The writer table -/

namespace WriterTable

theorem writers_add (t : WriterTable) (w : Text × ProcessStatement) (a signal : Text) :
    (t.add w a).writers signal =
      t.writers signal ++ if lower a = lower signal then [w] else [] := by
  unfold add writers
  rw [Assoc.get?_set]
  by_cases h : lower a = lower signal <;> simp [h]

theorem writers_foldl_add (w : Text × ProcessStatement) (as : List Text) (t : WriterTable)
    (signal : Text) : (as.foldl (·.add w) t).writers signal =
      t.writers signal ++ (as.filter fun a => lower a = lower signal).map fun _ => w := by
  induction as generalizing t with
  | nil => simp
  | cons a as ih =>
    rw [List.foldl_cons, ih, writers_add]
    by_cases h : lower a = lower signal <;> simp [h]

theorem writers_addProcess (t : WriterTable) (p : ProcessStatement) (signal : Text) :
    (t.addProcess p).writers signal = t.writers signal ++
      (p.clock?.map fun clock => (clock, p)).toList.flatMap fun w =>
        (w.2.assigned.filter fun a => lower a = lower signal).map fun _ => w := by
  unfold addProcess
  cases p.clock? with
  | none => simp
  | some clock => simp [writers_foldl_add]

end WriterTable

/-- The group of a signal lists its writes. -/
theorem writers_writerTable (ps : List ProcessStatement) (signal : Text) :
    (writerTable ps).writers signal = (clocked ps).flatMap fun w =>
      (w.2.assigned.filter fun a => lower a = lower signal).map fun _ => w := by
  induction ps using List.reverseRecOn with
  | nil => rfl
  | append_singleton ps p ih =>
    have hstep : writerTable (ps ++ [p]) = (writerTable ps).addProcess p := by
      simp [writerTable, List.foldl_append]
    rw [hstep, WriterTable.writers_addProcess, ih, clocked_concat, List.flatMap_append]

/-! ## Declared types -/

theorem declaredType?_eq (h : Harvest) (name : Text) :
    h.declaredType? name = (h.typedNames.find? fun d => lower d.1 = lower name).map Prod.snd := by
  unfold Harvest.declaredType? Harvest.signal? Harvest.typedNames
  rw [List.find?_append, List.find?_map, List.find?_map]
  have hsame : ∀ a, (same a name) = decide (lower a = lower name) := fun a => by
    simp [same, Bool.beq_eq_decide_eq]
  simp only [hsame, Function.comp_def]
  cases h.signals.find? fun s => decide (lower s.name = lower name) <;>
    cases h.ports.find? fun p => decide (lower p.name = lower name) <;> rfl

theorem isMultiBit_eq (h : Harvest) (signal : Text) :
    isMultiBit h signal =
      (h.typedNames.find? fun d => lower d.1 = lower (signal.takeWhile (· ≠ '.'))).any
        fun d => Width.IsMultiBit d.2 := by
  have hbefore : before '.' signal = signal.takeWhile (· ≠ '.') := by
    simp [before, bne, Bool.beq_eq_decide_eq]
  unfold isMultiBit
  rw [declaredType?_eq, hbefore]
  cases h.typedNames.find? fun d => lower d.1 = lower (signal.takeWhile (· ≠ '.')) with
  | none => rfl
  | some d =>
    rw [Bool.eq_iff_iff, Option.any_some, decide_eq_true_iff]
    simp [Width.IsMultiBit]

/-! ## No crossing lost or invented -/

theorem crossingsOf_eq (h : Harvest) (reader : Text × ProcessStatement) (signal : Text)
    (writers : List (Text × ProcessStatement)) :
    crossingsOf h (synchronizerStages h.processes) reader.2 reader.1 signal writers =
      writers.flatMap fun writer =>
        if lower writer.1 = lower reader.1 then [] else [crossing h signal writer reader] := by
  induction writers with
  | nil => rfl
  | cons w ws ih =>
    rw [List.flatMap_cons, ← ih]
    by_cases hc : lower w.1 = lower reader.1
    · simp [crossingsOf, same, hc]
    · simp [crossingsOf, same, hc, crossing, isMultiBit_eq]

/-- **Crossings are complete and sound**, in order and with multiplicity: the grouping of writers
changes nothing. A crossing counts as synchronized exactly if it has a stage. -/
theorem crossings_eq_crossingList (h : Harvest) :
    crossings h = crossingList h ∧
      ∀ c ∈ crossings h, (c.isSynchronized = true ↔ 0 < c.stages) := by
  constructor
  · unfold crossings crossingList
    refine (flatMap_clocked (f := fun clock reader => reader.reads.flatMap fun signal =>
      crossingsOf h (synchronizerStages h.processes) reader clock signal
        ((writerTable h.processes).writers signal))
      (fun p clock hp => by simp [hp]) (fun p hp => by simp [hp]) h.processes).trans ?_
    refine List.flatMap_congr fun reader _ => List.flatMap_congr fun signal _ => ?_
    rw [crossingsOf_eq, writers_writerTable, List.flatMap_assoc]
    refine List.flatMap_congr fun writer _ => ?_
    rw [List.flatMap_map]
  · intro c _
    simp [Crossing.isSynchronized]

end DesignFacts

import DesignFacts.Declaration.Width
import DesignFacts.Fact.File

/-!
# Clock crossings

A signal crosses if a process on one clock writes it and a process on another clock reads it. A
register that copies one signal into another is a stage; stages of one clock that follow one
another form a chain, which synchronizes the signal at its head with that clock. Names are compared
up to letter case.

Chains are followed backwards from every stage, over at most `maxStages` stages.
-/

namespace DesignFacts

open Text

/-! ## Stages -/

def ProcessStatement.clock? (p : ProcessStatement) : Option Text :=
  if p.isSequential then p.clock.filter fun c => !c.isEmpty else none

/-- A register that copies a signal on a clock; both names are in small letters. -/
structure Stage where
  source : Text
  clock : Text
  deriving DecidableEq

/-- What a process reads besides its clock and its reset. -/
def ProcessStatement.dataReads (p : ProcessStatement) (clock : Text) : List Text :=
  p.reads.filter fun s =>
    !(same s clock || (p.reset.bind (·.signal)).any fun r => same s r)

/-- The stage that a process is, with its output in small letters. -/
def ProcessStatement.stage? (p : ProcessStatement) : Option (Text × Stage) :=
  p.clock?.bind fun clock =>
    match p.assigned, p.dataReads clock with
    | [output], [source] => some (lower output, { source := lower source, clock := lower clock })
    | _, _ => none

/-- The stages by their outputs; of several stages with one output the last one counts. -/
abbrev StageTable := Assoc Text Stage

/-- The stage table of processes. -/
def stageTable (ps : List ProcessStatement) : StageTable :=
  (ps.filterMap ProcessStatement.stage?).foldl (fun t s => t.set s.1 s.2) []

/-! ## Chains -/

/-- The greatest number of stages in a chain. -/
def maxStages : Nat := 8

/-- Follow the stages on a clock backwards from a signal, over at most `fuel` stages and not beyond
the output that the chain began with. The result is the signal at the head and the number of stages
followed. -/
def StageTable.follow (t : StageTable) (output clock : Text) : Nat → Text → Text × Nat
  | 0, head => (head, 0)
  | fuel + 1, head =>
    match t.get? head with
    | some s =>
      if s.clock = clock ∧ head ≠ output then
        let (first, n) := follow t output clock fuel s.source
        (first, n + 1)
      else (head, 0)
    | none => (head, 0)

/-- The head of the chain that ends in a stage, with its clock, and the length of the chain. -/
def StageTable.chain (t : StageTable) (output : Text) (last : Stage) : (Text × Text) × Nat :=
  let (head, n) := t.follow output last.clock (maxStages - 1) last.source
  ((head, last.clock), n + 1)

/-- The number of stages behind signals, by signal and clock. -/
abbrev StageCounts := Assoc (Text × Text) Nat

/-- Count a chain; of several chains with one head the longest counts. -/
def StageCounts.add (m : StageCounts) (chain : (Text × Text) × Nat) : StageCounts :=
  m.set chain.1 (max ((m.get? chain.1).getD 0) chain.2)

/-- The stage counts of a table, with its entries taken in a given order. -/
def StageTable.countsIn (t : StageTable) (entries : List (Text × Stage)) : StageCounts :=
  (entries.map fun e => t.chain e.1 e.2).foldl StageCounts.add []

/-- The number of synchronizer stages behind signals, by signal and clock in small letters. -/
def synchronizerStages (ps : List ProcessStatement) : StageCounts :=
  (stageTable ps).countsIn (stageTable ps)

/-! ## Crossings -/

/-- Whether a signal is declared with more than one bit, or as a vector of unknown width. -/
def isMultiBit (h : Harvest) (signal : Text) : Bool :=
  match h.declaredType? (before '.' signal) with
  | some type =>
    let width := Width.estimate type
    1 < width || (width == 0 && Width.isVector type)
  | none => false

/-- The writers of signals, by the signals in small letters: clocks with their processes, once for
every write and in document order. -/
abbrev WriterTable := Assoc Text (List (Text × ProcessStatement))

namespace WriterTable

def writers (t : WriterTable) (signal : Text) : List (Text × ProcessStatement) :=
  (t.get? (lower signal)).getD []

/-- Note a write of a signal. -/
def add (t : WriterTable) (writer : Text × ProcessStatement) (signal : Text) : WriterTable :=
  t.set (lower signal) (t.writers signal ++ [writer])

/-- Note all writes of a process, if it is clocked. -/
def addProcess (t : WriterTable) (p : ProcessStatement) : WriterTable :=
  match p.clock? with
  | some clock => p.assigned.foldl (·.add (clock, p)) t
  | none => t

end WriterTable

/-- The writers of all signals that clocked processes write. -/
def writerTable (ps : List ProcessStatement) : WriterTable := ps.foldl WriterTable.addProcess []

/-- The crossings of a signal that a process reads on a clock, from the writers of the signal. -/
def crossingsOf (h : Harvest) (counts : StageCounts) (reader : ProcessStatement)
    (clock signal : Text) (writers : List (Text × ProcessStatement)) : List Crossing :=
  (writers.filter fun w => !same w.1 clock).map fun w =>
    { signal
      sourceClock := w.1
      sourceProcess := w.2.labelText
      destClock := clock
      destProcess := reader.labelText
      stages := (counts.get? (lower signal, lower clock)).getD 0
      isMultiBit := isMultiBit h signal
      inArch := reader.inArch
      line := reader.line }

/-- The clock crossings of a file. -/
def crossings (h : Harvest) : List Crossing :=
  let table := writerTable h.processes
  let counts := synchronizerStages h.processes
  h.processes.flatMap fun reader => match reader.clock? with
    | some clock => reader.reads.flatMap fun signal =>
      crossingsOf h counts reader clock signal (table.writers signal)
    | none => []

end DesignFacts

import DesignFacts.Config.Basic
import DesignFacts.Expression.Relation
import DesignFacts.Name.Scan

/-!
# What statements do

An `Activity` is what is found in a piece of a process, in reading order. Activities of pieces
that follow one another are joined by `++`; of several clocks or resets the first one counts.
-/

namespace DesignFacts

open Text

/-- A signal assignment: its target, the paths it reads, and its line. -/
structure Drive where
  target : Text
  reads : List Text
  line : Nat

/-- What is found in a piece of a process. -/
structure Activity where
  clock : Option (ClockEdge × Text) := none
  reset : Option Reset := none
  /-- The paths that are read, as often as they are read. -/
  reads : List Text := []
  drives : List Drive := []
  functionCalls : List Call := []
  procedureCalls : List Call := []
  waits : List WaitStatement := []
  caseStatements : List CaseStatement := []
  comparisons : List Comparison := []
  arithmeticOps : List ArithmeticOp := []
  /-- Whether a far line was needed. -/
  farLine : Bool := false
  /-- Whether a far line is needed to look for a reset, if there was none before. -/
  farReset : Bool := false

namespace Activity

/-- Two activities, one after the other. -/
def append (a b : Activity) : Activity where
  clock := a.clock.or b.clock
  reset := a.reset.or b.reset
  reads := a.reads ++ b.reads
  drives := a.drives ++ b.drives
  functionCalls := a.functionCalls ++ b.functionCalls
  procedureCalls := a.procedureCalls ++ b.procedureCalls
  waits := a.waits ++ b.waits
  caseStatements := a.caseStatements ++ b.caseStatements
  comparisons := a.comparisons ++ b.comparisons
  arithmeticOps := a.arithmeticOps ++ b.arithmeticOps
  farLine := a.farLine || b.farLine
  farReset := a.farReset || (a.reset.isNone && b.farReset)

instance : Append Activity := ⟨append⟩

/-- A row of activities. -/
def concat (as : List Activity) : Activity := as.foldr append {}

/-- What joining two activities keeps, joining a row of them keeps. -/
theorem concat_of_forall {P : Activity → Prop} (empty : P {})
    (append : ∀ a b, P a → P b → P (a ++ b)) {as : List Activity} (h : ∀ a ∈ as, P a) :
    P (concat as) := by
  induction as with
  | nil => exact empty
  | cons a as ih =>
    exact append a (concat as) (h a List.mem_cons_self)
      (ih fun b hb => h b (List.mem_cons_of_mem a hb))

/-- What joining keeps apart, a row of activities keeps apart. -/
theorem concat_eq_flatMap {α : Type} {f : Activity → List α} (hempty : f {} = [])
    (happend : ∀ a b, f (a ++ b) = f a ++ f b) (as : List Activity) :
    f (concat as) = as.flatMap f := by
  induction as with
  | nil => exact hempty
  | cons a as ih =>
    rw [List.flatMap_cons, ← ih]
    exact happend a (concat as)

end Activity

/-- What is known around the statements of a process. -/
structure ProcessSetting where
  config : Config
  /-- The name tables with the local names of the process. -/
  lookup : Lookup
  inProcess : Text
  inArch : Text

/-- The branch that a statement stands in. -/
structure BranchContext where
  /-- Whether a clock edge is tested around it. -/
  underEdge : Bool := false
  /-- The first signal that the innermost condition without an edge reads. -/
  guard : Option Text := none

/-- What expressions do: reads, calls, comparisons and arithmetic. `drives` is the signal that they
feed, `result` the signal or variable. -/
def expressionActivity (s : ProcessSetting) (ctx : BranchContext) (drives result : Option Text)
    (ns : List Node) : Activity :=
  let scan := scanAll s.lookup ns
  let site : Site := { inProcess := s.inProcess, inArch := s.inArch, drives, guard := ctx.guard }
  { reads := scan.reads.map (·.path)
    functionCalls := scan.calls.map fun c =>
      { name := c.name, args := c.args, inProcess := s.inProcess, line := c.line }
    comparisons := ns.flatMap (comparisons s.lookup site)
    arithmeticOps := ns.flatMap (arithmeticOps s.lookup { site with drives := result })
    farLine := scan.farLine || ns.any expressionIsFar }

end DesignFacts

import DesignFacts.Fact.Process

/-!
# Clocks, resets, usages and crossings

What follows from the facts of a file about its clocks: the registers of every clocked process,
the resets, where signals are used, and where a signal passes from one clock to another.
-/

namespace DesignFacts

/-- The registers that a process writes under a clock. -/
structure ClockDomain where
  clock : Text
  edge : ClockEdge
  registers : List Text
  process : Text
  inArch : Text
  line : Nat

/-- The reset of a process with the registers it resets. -/
structure ResetInfo where
  signal : Text
  polarity : Polarity
  isAsync : Bool
  registers : List Text
  process : Text
  inArch : Text
  line : Nat

/-- How a signal is used at one place. -/
inductive UsageRole where
  | read
  | written
  /-- Connected in the port map of an instance. -/
  | connected (instanceName : Text)
  deriving DecidableEq

structure SignalUsage where
  signal : Text
  role : UsageRole
  /-- The label of the process, empty outside processes. -/
  inProcess : Text
  inArch : Text
  line : Nat

/-- A signal written under one clock and read under another. -/
structure Crossing where
  signal : Text
  sourceClock : Text
  sourceProcess : Text
  destClock : Text
  destProcess : Text
  /-- The number of synchronizer stages behind the signal on the reading clock. -/
  stages : Nat
  isMultiBit : Bool
  inArch : Text
  line : Nat

/-- A crossing is synchronized if a stage of the reading clock takes the signal over. -/
def Crossing.isSynchronized (c : Crossing) : Bool := 0 < c.stages

end DesignFacts

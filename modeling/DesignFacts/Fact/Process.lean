import DesignFacts.Text.Basic

/-!
# Processes and assignments

Facts about behaviour: processes with their clock, reset, reads and writes, the statements found
in them, and concurrent assignments.
-/

namespace DesignFacts

inductive ClockEdge where
  | rising
  | falling
  deriving DecidableEq

def ClockEdge.keyword : ClockEdge → String
  | rising => "rising"
  | falling => "falling"

/-- The level at which a reset is active. -/
inductive Polarity where
  | activeHigh
  | activeLow
  deriving DecidableEq

/-- The name of a level. -/
def Polarity.keyword : Polarity → String
  | activeHigh => "active_high"
  | activeLow => "active_low"

/-- What drives a process. -/
inductive ProcessKind where
  /-- A clock edge. -/
  | sequential
  /-- Wait statements, and no clock edge. -/
  | waiting
  /-- Neither. -/
  | combinational
  deriving DecidableEq

structure Reset where
  signal : Option Text
  isAsync : Bool
  polarity : Option Polarity

structure Variable where
  name : Text
  typeText : Text
  line : Nat

/-- A call of a procedure or function in a process. -/
structure Call where
  /-- The name that is called, dotted if it is qualified. -/
  name : Text
  /-- The texts of the arguments. -/
  args : List Text
  inProcess : Text
  line : Nat

structure WaitStatement where
  onSignals : List Text
  untilExpr : Option Text
  forExpr : Option Text
  inProcess : Text
  line : Nat

structure ProcessStatement where
  label : Option Text
  sensitivity : List Text
  kind : ProcessKind
  clock : Option Text
  edge : Option ClockEdge
  reset : Option Reset
  /-- The paths of the signals it writes, in the order of first writes. -/
  assigned : List Text
  /-- The paths of the signals it reads, in the order of first reads. -/
  reads : List Text
  localVariables : List Variable
  procedureCalls : List Call
  functionCalls : List Call
  waits : List WaitStatement
  /-- The architecture path that the process stands in. -/
  inArch : Text
  line : Nat

/-- The label of a process, empty if it has none. -/
def ProcessStatement.labelText (p : ProcessStatement) : Text := p.label.getD []

namespace ProcessStatement

/-- Whether a process is driven by a clock edge. -/
def isSequential (p : ProcessStatement) : Bool := p.kind == .sequential

/-- Whether a process is driven by neither a clock edge nor wait statements. -/
def isCombinational (p : ProcessStatement) : Bool := p.kind == .combinational

def isWaiting (p : ProcessStatement) : Bool := p.kind == .waiting

def hasReset (p : ProcessStatement) : Bool := p.reset.isSome

def resetSignal (p : ProcessStatement) : Option Text := p.reset.bind (·.signal)

/-- Whether the reset of a process does not wait for its clock. -/
def resetIsAsync (p : ProcessStatement) : Bool := p.reset.any (·.isAsync)

/-- The level at which the reset of a process is active. -/
def resetPolarity (p : ProcessStatement) : Option Polarity := p.reset.bind (·.polarity)

end ProcessStatement

/-- The form of a concurrent assignment. -/
inductive ConcurrentKind where
  | simple
  | conditional
  | selected
  deriving DecidableEq

/-- The name of a form. -/
def ConcurrentKind.keyword : ConcurrentKind → String
  | simple => "simple"
  | conditional => "conditional"
  | selected => "selected"

structure ConcurrentAssignment where
  /-- The signal at the root of the target. -/
  target : Text
  /-- The dotted path of the target. -/
  targetPath : Text
  reads : List Text
  kind : ConcurrentKind
  inArch : Text
  /-- The label of the innermost generate around it. -/
  generateLabel : Option Text
  line : Nat

/-- A case statement. It counts as complete if it has an `others` choice. -/
structure CaseStatement where
  expression : Text
  choices : List Text
  hasOthers : Bool
  inProcess : Text
  inArch : Text
  line : Nat

structure Comparison where
  left : Text
  operator : Text
  right : Text
  /-- The width in bits of the right side, if that is a literal. -/
  literalBits : Option Nat
  /-- The signal that the statement around it assigns. -/
  drives : Option Text
  inProcess : Text
  inArch : Text
  line : Nat

/-- An arithmetic operation that costs hardware. -/
structure ArithmeticOp where
  operator : Text
  operands : List Text
  /-- The signal or variable that the statement around it assigns. -/
  result : Option Text
  /-- The signal that guards the operation. -/
  guard : Option Text
  inProcess : Text
  inArch : Text
  line : Nat

/-- A dependency of a written signal on a read one. -/
structure SignalDep where
  source : Text
  target : Text
  inProcess : Text
  /-- Whether a register stands between the two. -/
  isSequential : Bool
  inArch : Text
  line : Nat

end DesignFacts

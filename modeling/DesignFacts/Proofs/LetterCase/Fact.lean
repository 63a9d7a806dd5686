import DesignFacts.Fact.File
import DesignFacts.Proofs.LetterCase.Text
import Mathlib.Tactic.Simps.Basic

/-!
# Facts in small letters

The facts about the behaviour of a file, and what they are in small letters: every text of a fact is
made small, and its numbers, flags and lines stay.
-/

namespace DesignFacts

/-! ## Processes -/

/-- A reset in small letters. -/
@[simps]
def Reset.lower (r : Reset) : Reset where
  signal := r.signal.map Text.lower
  isAsync := r.isAsync
  polarity := r.polarity

/-- A variable in small letters. -/
def Variable.lower (v : Variable) : Variable where
  name := Text.lower v.name
  typeText := Text.lower v.typeText
  line := v.line

/-- A call in small letters. -/
def Call.lower (c : Call) : Call where
  name := Text.lower c.name
  args := c.args.map Text.lower
  inProcess := Text.lower c.inProcess
  line := c.line

def WaitStatement.lower (w : WaitStatement) : WaitStatement where
  onSignals := w.onSignals.map Text.lower
  untilExpr := w.untilExpr.map Text.lower
  forExpr := w.forExpr.map Text.lower
  inProcess := Text.lower w.inProcess
  line := w.line

/-- A process in small letters. -/
@[simps]
def ProcessStatement.lower (p : ProcessStatement) : ProcessStatement where
  label := p.label.map Text.lower
  sensitivity := p.sensitivity.map Text.lower
  kind := p.kind
  clock := p.clock.map Text.lower
  edge := p.edge
  reset := p.reset.map Reset.lower
  assigned := p.assigned.map Text.lower
  reads := p.reads.map Text.lower
  localVariables := p.localVariables.map Variable.lower
  procedureCalls := p.procedureCalls.map Call.lower
  functionCalls := p.functionCalls.map Call.lower
  waits := p.waits.map WaitStatement.lower
  inArch := Text.lower p.inArch
  line := p.line

@[simp] theorem ProcessStatement.labelText_lower (p : ProcessStatement) :
    p.lower.labelText = Text.lower p.labelText := by
  simp [labelText]

@[simp] theorem ProcessStatement.isSequential_lower (p : ProcessStatement) :
    p.lower.isSequential = p.isSequential := rfl

/-! ## Statements and expressions -/

def ConcurrentAssignment.lower (a : ConcurrentAssignment) : ConcurrentAssignment where
  target := Text.lower a.target
  targetPath := Text.lower a.targetPath
  reads := a.reads.map Text.lower
  kind := a.kind
  inArch := Text.lower a.inArch
  generateLabel := a.generateLabel.map Text.lower
  line := a.line

def CaseStatement.lower (c : CaseStatement) : CaseStatement where
  expression := Text.lower c.expression
  choices := c.choices.map Text.lower
  hasOthers := c.hasOthers
  inProcess := Text.lower c.inProcess
  inArch := Text.lower c.inArch
  line := c.line

/-- A comparison in small letters. -/
@[simps]
def Comparison.lower (c : Comparison) : Comparison where
  left := Text.lower c.left
  operator := Text.lower c.operator
  right := Text.lower c.right
  literalBits := c.literalBits
  drives := c.drives.map Text.lower
  inProcess := Text.lower c.inProcess
  inArch := Text.lower c.inArch
  line := c.line

/-- A costly operation in small letters. -/
def ArithmeticOp.lower (a : ArithmeticOp) : ArithmeticOp where
  operator := Text.lower a.operator
  operands := a.operands.map Text.lower
  result := a.result.map Text.lower
  guard := a.guard.map Text.lower
  inProcess := Text.lower a.inProcess
  inArch := Text.lower a.inArch
  line := a.line

/-- A dependency of signals in small letters. -/
def SignalDep.lower (d : SignalDep) : SignalDep where
  source := Text.lower d.source
  target := Text.lower d.target
  inProcess := Text.lower d.inProcess
  isSequential := d.isSequential
  inArch := Text.lower d.inArch
  line := d.line

/-! ## Clocks -/

def ClockDomain.lower (d : ClockDomain) : ClockDomain where
  clock := Text.lower d.clock
  edge := d.edge
  registers := d.registers.map Text.lower
  process := Text.lower d.process
  inArch := Text.lower d.inArch
  line := d.line

/-- A reset with its registers in small letters. -/
def ResetInfo.lower (r : ResetInfo) : ResetInfo where
  signal := Text.lower r.signal
  polarity := r.polarity
  isAsync := r.isAsync
  registers := r.registers.map Text.lower
  process := Text.lower r.process
  inArch := Text.lower r.inArch
  line := r.line

/-- A crossing in small letters. -/
def Crossing.lower (c : Crossing) : Crossing where
  signal := Text.lower c.signal
  sourceClock := Text.lower c.sourceClock
  sourceProcess := Text.lower c.sourceProcess
  destClock := Text.lower c.destClock
  destProcess := Text.lower c.destProcess
  stages := c.stages
  isMultiBit := c.isMultiBit
  inArch := Text.lower c.inArch
  line := c.line

/-! ## Behaviour -/

/-- What the facts of a file say about its behaviour. -/
@[ext]
structure Behaviour where
  processes : List ProcessStatement
  assignments : List ConcurrentAssignment
  caseStatements : List CaseStatement
  comparisons : List Comparison
  arithmeticOps : List ArithmeticOp
  signalDeps : List SignalDep
  clockDomains : List ClockDomain
  resets : List ResetInfo
  crossings : List Crossing

def FileFacts.behaviour (f : FileFacts) : Behaviour where
  processes := f.processes
  assignments := f.assignments
  caseStatements := f.caseStatements
  comparisons := f.comparisons
  arithmeticOps := f.arithmeticOps
  signalDeps := f.signalDeps
  clockDomains := f.clockDomains
  resets := f.resets
  crossings := f.crossings

/-- The behaviour in small letters, list by list and fact by fact. -/
def Behaviour.lower (b : Behaviour) : Behaviour where
  processes := b.processes.map ProcessStatement.lower
  assignments := b.assignments.map ConcurrentAssignment.lower
  caseStatements := b.caseStatements.map CaseStatement.lower
  comparisons := b.comparisons.map Comparison.lower
  arithmeticOps := b.arithmeticOps.map ArithmeticOp.lower
  signalDeps := b.signalDeps.map SignalDep.lower
  clockDomains := b.clockDomains.map ClockDomain.lower
  resets := b.resets.map ResetInfo.lower
  crossings := b.crossings.map Crossing.lower

end DesignFacts

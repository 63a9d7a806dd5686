import DesignFacts.Fact.File

/-!
# Clock domains, resets and usages

What the processes, assignments and instances of a file say about clocks and about the use of
signals.
-/

namespace DesignFacts

def ProcessStatement.clockDomain? (p : ProcessStatement) : Option ClockDomain :=
  match p.clock, p.edge with
  | some clock, some edge => some {
      clock, edge, registers := p.assigned, process := p.labelText, inArch := p.inArch
      line := p.line }
  | _, _ => none

def clockDomains (ps : List ProcessStatement) : List ClockDomain :=
  ps.filterMap ProcessStatement.clockDomain?

/-- What a process says about its reset. A reset without a known level is active high. -/
def ProcessStatement.resetInfo? (p : ProcessStatement) : Option ResetInfo :=
  p.reset.bind fun r => r.signal.map fun signal => {
    signal, polarity := r.polarity.getD .activeHigh, isAsync := r.isAsync, registers := p.assigned
    process := p.labelText, inArch := p.inArch, line := p.line }

/-- The resets of processes. -/
def resetInfos (ps : List ProcessStatement) : List ResetInfo :=
  ps.filterMap ProcessStatement.resetInfo?

/-! ## Usages -/

/-- The usages in a process: its writes, then its reads. -/
def ProcessStatement.usages (p : ProcessStatement) : List SignalUsage :=
  let usage (role : UsageRole) (signal : Text) : SignalUsage :=
    { signal, role, inProcess := p.labelText, inArch := p.inArch, line := p.line }
  p.assigned.map (usage .written) ++ p.reads.map (usage .read)

def ConcurrentAssignment.usages (a : ConcurrentAssignment) : List SignalUsage :=
  let usage (role : UsageRole) (signal : Text) : SignalUsage :=
    { signal, role, inProcess := [], inArch := a.inArch, line := a.line }
  (if a.targetPath.isEmpty then [] else [usage .written a.targetPath])
    ++ a.reads.map (usage .read)

/-- The signal that an association connects to a port. -/
def Association.connected? (a : Association) : Option Text :=
  match a.kind, a.actual with
  | .port, .name base _ => if base.isEmpty then none else some base
  | _, _ => none

/-- The usages in the port map of an instance. -/
def Instance.usages (i : Instance) : List SignalUsage :=
  i.associations.filterMap fun a => a.connected?.map fun signal =>
    { signal, role := .connected i.name, inProcess := [], inArch := i.inArch, line := a.line }

def signalUsages (h : Harvest) : List SignalUsage :=
  h.processes.flatMap ProcessStatement.usages ++ h.assignments.flatMap ConcurrentAssignment.usages
    ++ h.instances.flatMap Instance.usages

end DesignFacts

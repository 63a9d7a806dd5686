import DesignFacts.Document.Design
import DesignFacts.Fact.Clock
import DesignFacts.Fact.Generate

/-!
# Documents of behaviour

How processes, assignments, generate statements and the results of the analyses are written.
-/

namespace DesignFacts

open Document

/-! ## Processes -/

def Variable.document (v : Variable) : Document :=
  object [("name", .text v.name), ("type", .text v.typeText), ("line", count v.line)]

def Call.document (c : Call) : Document :=
  object [("name", .text c.name), ("args", texts c.args), ("in_process", .text c.inProcess),
    ("line", count c.line)]

def WaitStatement.document (w : WaitStatement) : Document :=
  object [("on_signals", texts w.onSignals), ("until_expr", orNull w.untilExpr),
    ("for_expr", orNull w.forExpr), ("in_process", .text w.inProcess), ("line", count w.line)]

/-- The document of an edge that may be missing. -/
def edgeDocument (e : Option ClockEdge) : Document := orNull (e.map fun e => e.keyword.toList)

def ProcessStatement.document (p : ProcessStatement) : Document :=
  object [("label", orNull p.label), ("sensitivity_list", texts p.sensitivity),
    ("is_sequential", .flag p.isSequential), ("is_combinational", .flag p.isCombinational),
    ("has_wait", .flag p.isWaiting), ("clock_signal", orNull p.clock),
    ("clock_edge", edgeDocument p.edge), ("has_reset", .flag p.hasReset),
    ("reset_signal", orNull p.resetSignal), ("reset_async", .flag p.resetIsAsync),
    ("reset_polarity", orNull (p.resetPolarity.map fun polarity => polarity.keyword.toList)),
    ("assigned_signals", texts p.assigned), ("read_signals", texts p.reads),
    ("variables", rows Variable.document p.localVariables),
    ("procedure_calls", rows Call.document p.procedureCalls),
    ("function_calls", rows Call.document p.functionCalls),
    ("wait_statements", rows WaitStatement.document p.waits), ("in_arch", .text p.inArch),
    ("line", count p.line)]

def ConcurrentAssignment.document (a : ConcurrentAssignment) : Document :=
  object [("target", .text a.target), ("target_full", .text a.targetPath),
    ("read_signals", texts a.reads), ("kind", word a.kind.keyword), ("in_arch", .text a.inArch),
    ("in_generate", .flag a.generateLabel.isSome), ("generate_label", orNull a.generateLabel),
    ("line", count a.line)]

def CaseStatement.document (c : CaseStatement) : Document :=
  object [("expression", .text c.expression), ("choices", texts c.choices),
    ("has_others", .flag c.hasOthers), ("is_complete", .flag c.hasOthers),
    ("in_process", .text c.inProcess), ("in_arch", .text c.inArch), ("line", count c.line)]

/-! ## Generates -/

/-- The fields that a scheme has of its own. -/
def Scheme.fields : Scheme → List (String × Document)
  | loop parameter low high direction =>
    [("loop_var", .text parameter), ("range_low", .text low), ("range_high", .text high),
      ("range_dir", .text direction)]
  | condition test => [("condition", .text test)]
  | choice expression alternatives =>
    [("expression", .text expression), ("alternatives", texts alternatives)]

namespace Generate

mutual

def document : Generate → Document
  | ⟨label, scheme, inArch, line, canElaborate, iterationCount, signals, instances, processes,
      assignments, generates⟩ =>
    object ([("label", .text label), ("kind", word scheme.keyword)] ++ scheme.fields
      ++ [("in_arch", .text inArch), ("line", count line),
        ("can_elaborate", .flag canElaborate), ("iteration_count", .number iterationCount),
        ("signals", rows Signal.document signals), ("instances", rows Instance.document instances),
        ("processes", rows ProcessStatement.document processes),
        ("concurrent_assignments", rows ConcurrentAssignment.document assignments),
        ("generates", .list (documents generates))])

def documents : List Generate → List Document
  | [] => []
  | g :: gs => document g :: documents gs

end

end Generate

/-! ## Analyses -/

def ClockDomain.document (d : ClockDomain) : Document :=
  object [("clock", .text d.clock), ("edge", word d.edge.keyword), ("registers", texts d.registers),
    ("process", .text d.process), ("in_arch", .text d.inArch), ("line", count d.line)]

def ResetInfo.document (r : ResetInfo) : Document :=
  object [("signal", .text r.signal), ("polarity", word r.polarity.keyword),
    ("is_async", .flag r.isAsync), ("registers", texts r.registers), ("process", .text r.process),
    ("in_arch", .text r.inArch), ("line", count r.line)]

def SignalUsage.document (u : SignalUsage) : Document :=
  let instanceName : Option Text := match u.role with
    | .connected name => some name
    | _ => none
  object [("signal", .text u.signal), ("is_read", .flag (u.role == .read)),
    ("is_written", .flag (u.role == .written)), ("in_process", .text u.inProcess),
    ("in_port_map", .flag instanceName.isSome), ("instance_name", .text (instanceName.getD [])),
    ("in_arch", .text u.inArch), ("line", count u.line)]

def Comparison.document (c : Comparison) : Document :=
  object [("left", .text c.left), ("operator", .text c.operator), ("right", .text c.right),
    ("is_literal", .flag c.literalBits.isSome),
    ("literal_value", orNull (c.literalBits.map fun _ => c.right)),
    ("literal_bits", count (c.literalBits.getD 0)), ("result_drives", orNull c.drives),
    ("in_process", .text c.inProcess), ("in_arch", .text c.inArch), ("line", count c.line)]

def ArithmeticOp.document (o : ArithmeticOp) : Document :=
  object [("operator", .text o.operator), ("operands", texts o.operands),
    ("result", orNull o.result), ("is_guarded", .flag o.guard.isSome),
    ("guard_signal", orNull o.guard), ("in_process", .text o.inProcess),
    ("in_arch", .text o.inArch), ("line", count o.line)]

def SignalDep.document (d : SignalDep) : Document :=
  object [("source", .text d.source), ("target", .text d.target),
    ("in_process", .text d.inProcess), ("is_sequential", .flag d.isSequential),
    ("in_arch", .text d.inArch), ("line", count d.line)]

def Crossing.document (c : Crossing) : Document :=
  object [("signal", .text c.signal), ("source_clock", .text c.sourceClock),
    ("source_process", .text c.sourceProcess), ("dest_clock", .text c.destClock),
    ("dest_process", .text c.destProcess), ("is_synchronized", .flag c.isSynchronized),
    ("sync_stages", count c.stages), ("is_multi_bit", .flag c.isMultiBit),
    ("in_arch", .text c.inArch), ("line", count c.line)]

end DesignFacts

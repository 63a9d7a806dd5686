import DesignFacts.Document.Behaviour
import DesignFacts.Fact.File

/-!
# Documents of files

How all facts of a file are written.
-/

namespace DesignFacts

open Document

def FileFacts.document (f : FileFacts) : Document :=
  object [("file", .text f.file),
    ("entities", rows Entity.document f.entities),
    ("architectures", rows Architecture.document f.architectures),
    ("packages", rows Package.document f.packages),
    ("configurations", rows Configuration.document f.configurations),
    ("components", rows Component.document f.components),
    ("instances", rows Instance.document f.instances),
    ("use_clauses", rows UseClause.document f.useClauses),
    ("library_clauses", rows LibraryClause.document f.libraryClauses),
    ("context_clauses", rows ContextClause.document f.contextClauses),
    ("dependencies", rows Dependency.document f.dependencies),
    ("ports", rows Port.document f.ports),
    ("generics", rows Port.document f.generics),
    ("signals", rows Signal.document f.signals),
    ("constants", rows Constant.document f.constants),
    ("shared_variables", rows SharedVariable.document f.sharedVariables),
    ("types", rows TypeDeclaration.document f.types),
    ("subtypes", rows SubtypeDeclaration.document f.subtypes),
    ("functions", rows FunctionDeclaration.document f.functions),
    ("procedures", rows ProcedureDeclaration.document f.procedures),
    ("processes", rows ProcessStatement.document f.processes),
    ("concurrent_assignments", rows ConcurrentAssignment.document f.assignments),
    ("case_statements", rows CaseStatement.document f.caseStatements),
    ("generates", rows Generate.document f.generates),
    ("enum_literals", texts f.enumLiterals),
    ("constant_names", texts f.constantNames),
    ("clock_domains", rows ClockDomain.document f.clockDomains),
    ("reset_infos", rows ResetInfo.document f.resets),
    ("signal_usages", rows SignalUsage.document f.usages),
    ("comparisons", rows Comparison.document f.comparisons),
    ("arithmetic_ops", rows ArithmeticOp.document f.arithmeticOps),
    ("signal_deps", rows SignalDep.document f.signalDeps),
    ("cdc_crossings", rows Crossing.document f.crossings)]

end DesignFacts

import DesignFacts.Fact.Clock
import DesignFacts.Fact.Generate

/-!
# The facts of a file

`Harvest` is what a walk over a syntax tree gathers: one list for every kind of fact, in document
order. The facts inside generate statements stand in these lists too; only the generate statements
themselves form a tree. Harvests of neighbouring pieces are joined by `++`.

References to other names are gathered as events, because the unit that a clause belongs to is
only known later. `FileFacts` is a harvest with everything that is derived from it.
-/

namespace DesignFacts

/-- Something that matters for dependencies, in document order. -/
inductive ReferenceEvent where
  /-- A design unit begins. -/
  | enter (unit : Text)
  /-- A clause that belongs to the unit after it. -/
  | clause (target : Text) (kind : DependencyKind) (line : Nat)
  /-- A reference from the unit around it. -/
  | reference (target : Text) (kind : DependencyKind) (line : Nat)
  /-- The body of a generate statement. -/
  | body (events : List ReferenceEvent)

/-- What a walk over a tree gathers. -/
structure Harvest where
  entities : List Entity := []
  architectures : List Architecture := []
  packages : List Package := []
  configurations : List Configuration := []
  components : List Component := []
  instances : List Instance := []
  useClauses : List UseClause := []
  libraryClauses : List LibraryClause := []
  contextClauses : List ContextClause := []
  references : List ReferenceEvent := []
  ports : List Port := []
  generics : List Port := []
  signals : List Signal := []
  constants : List Constant := []
  sharedVariables : List SharedVariable := []
  types : List TypeDeclaration := []
  subtypes : List SubtypeDeclaration := []
  functions : List FunctionDeclaration := []
  procedures : List ProcedureDeclaration := []
  processes : List ProcessStatement := []
  assignments : List ConcurrentAssignment := []
  caseStatements : List CaseStatement := []
  generates : List Generate := []
  comparisons : List Comparison := []
  arithmeticOps : List ArithmeticOp := []
  signalDeps : List SignalDep := []
  /-- The names of enumeration literals and physical units. -/
  enumLiterals : List Text := []
  constantNames : List Text := []
  /-- Whether a line was needed that is beyond what a 64-bit word can count. -/
  farLine : Bool := false

namespace Harvest

/-- The harvest of two neighbouring pieces. -/
def append (a b : Harvest) : Harvest where
  entities := a.entities ++ b.entities
  architectures := a.architectures ++ b.architectures
  packages := a.packages ++ b.packages
  configurations := a.configurations ++ b.configurations
  components := a.components ++ b.components
  instances := a.instances ++ b.instances
  useClauses := a.useClauses ++ b.useClauses
  libraryClauses := a.libraryClauses ++ b.libraryClauses
  contextClauses := a.contextClauses ++ b.contextClauses
  references := a.references ++ b.references
  ports := a.ports ++ b.ports
  generics := a.generics ++ b.generics
  signals := a.signals ++ b.signals
  constants := a.constants ++ b.constants
  sharedVariables := a.sharedVariables ++ b.sharedVariables
  types := a.types ++ b.types
  subtypes := a.subtypes ++ b.subtypes
  functions := a.functions ++ b.functions
  procedures := a.procedures ++ b.procedures
  processes := a.processes ++ b.processes
  assignments := a.assignments ++ b.assignments
  caseStatements := a.caseStatements ++ b.caseStatements
  generates := a.generates ++ b.generates
  comparisons := a.comparisons ++ b.comparisons
  arithmeticOps := a.arithmeticOps ++ b.arithmeticOps
  signalDeps := a.signalDeps ++ b.signalDeps
  enumLiterals := a.enumLiterals ++ b.enumLiterals
  constantNames := a.constantNames ++ b.constantNames
  farLine := a.farLine || b.farLine

instance : Append Harvest := ⟨append⟩

/-- Take over what was gathered in the body of a generate statement. The generate statements found
there stay with the one around them, and the references of the body stay together. -/
def absorb (a body : Harvest) : Harvest :=
  { a ++ body with
    generates := a.generates
    references := a.references ++ [.body body.references] }

/-- The harvest of a row of pieces. -/
def concat (hs : List Harvest) : Harvest := hs.foldr append {}

/-! ## Look-up by name -/

/-- The first entity with a name. -/
def entity? (h : Harvest) (name : Text) : Option Entity :=
  h.entities.find? fun e => Text.same e.name name

/-- The first process with a label. -/
def process? (h : Harvest) (label : Text) : Option ProcessStatement :=
  h.processes.find? fun p => p.label.any fun l => Text.same l label

/-- The first instance with a label. -/
def instance? (h : Harvest) (name : Text) : Option Instance :=
  h.instances.find? fun i => Text.same i.name name

/-- The first signal with a name. -/
def signal? (h : Harvest) (name : Text) : Option Signal :=
  h.signals.find? fun s => Text.same s.name name

/-- The first generate statement with a label, at any depth. -/
def generate? (h : Harvest) (label : Text) : Option Generate :=
  (Generate.walkAll h.generates).find? fun g => Text.same g.label label

/-- The type that a name is declared with, as a signal or else as a port. -/
def declaredType? (h : Harvest) (name : Text) : Option Text :=
  ((h.signal? name).map (·.typeText)).or
    ((h.ports.find? fun p => Text.same p.name name).map (·.typeText))

def count (h : Harvest) : Nat :=
  h.entities.length + h.architectures.length + h.packages.length + h.configurations.length
    + h.components.length + h.instances.length + h.ports.length + h.generics.length
    + h.signals.length + h.constants.length + h.types.length + h.subtypes.length
    + h.functions.length + h.procedures.length + h.processes.length + h.assignments.length
    + h.caseStatements.length + (Generate.walkAll h.generates).length

end Harvest

structure FileFacts extends Harvest where
  file : Text
  dependencies : List Dependency
  clockDomains : List ClockDomain
  resets : List ResetInfo
  usages : List SignalUsage
  crossings : List Crossing

end DesignFacts

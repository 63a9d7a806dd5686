import DesignFacts.Fact.File

/-!
# Tables

The facts of many files, regrouped by kind: one row for every fact, with the path of its file. The
files are taken in the order of their paths, so the order in which they arrive does not matter.
-/

namespace DesignFacts

/-- A fact with the path of its file. -/
structure Row (α : Type) where
  file : Text
  fact : α

/-- A generate statement with the label of the one around it, empty at the top. -/
structure NestedGenerate where
  parent : Text
  generate : Generate

namespace Generate

mutual

/-- A generate statement and all those in it, each with the label of the one around it. -/
def nested (parent : Text) : Generate → List NestedGenerate
  | ⟨label, scheme, inArch, line, canElaborate, iterationCount, signals, instances, processes,
      assignments, generates⟩ =>
    ⟨parent, ⟨label, scheme, inArch, line, canElaborate, iterationCount, signals, instances,
      processes, assignments, generates⟩⟩ :: nestedAll label generates

/-- Generate statements and all those in them, below the same label. -/
def nestedAll (parent : Text) : List Generate → List NestedGenerate
  | [] => []
  | g :: gs => nested parent g ++ nestedAll parent gs

end

end Generate

/-- The tables of many files. Generics stand before the ports of their file. -/
structure Tables where
  /-- The number of facts of every file. -/
  files : List (Row Nat) := []
  entities : List (Row Entity) := []
  architectures : List (Row Architecture) := []
  packages : List (Row Package) := []
  ports : List (Row Port) := []
  signals : List (Row Signal) := []
  instances : List (Row Instance) := []
  dependencies : List (Row Dependency) := []
  useClauses : List (Row UseClause) := []
  libraryClauses : List (Row LibraryClause) := []
  contextClauses : List (Row ContextClause) := []
  processes : List (Row ProcessStatement) := []
  generates : List (Row NestedGenerate) := []
  types : List (Row TypeDeclaration) := []
  subtypes : List (Row SubtypeDeclaration) := []
  functions : List (Row FunctionDeclaration) := []
  procedures : List (Row ProcedureDeclaration) := []
  constants : List (Row Constant) := []

namespace Tables

/-- The tables of two groups of files. -/
def append (a b : Tables) : Tables where
  files := a.files ++ b.files
  entities := a.entities ++ b.entities
  architectures := a.architectures ++ b.architectures
  packages := a.packages ++ b.packages
  ports := a.ports ++ b.ports
  signals := a.signals ++ b.signals
  instances := a.instances ++ b.instances
  dependencies := a.dependencies ++ b.dependencies
  useClauses := a.useClauses ++ b.useClauses
  libraryClauses := a.libraryClauses ++ b.libraryClauses
  contextClauses := a.contextClauses ++ b.contextClauses
  processes := a.processes ++ b.processes
  generates := a.generates ++ b.generates
  types := a.types ++ b.types
  subtypes := a.subtypes ++ b.subtypes
  functions := a.functions ++ b.functions
  procedures := a.procedures ++ b.procedures
  constants := a.constants ++ b.constants

instance : Append Tables := ⟨append⟩

def ofFile (f : FileFacts) : Tables :=
  let row {α : Type} (fact : α) : Row α := ⟨f.file, fact⟩
  { files := [row f.toHarvest.count]
    entities := f.entities.map row
    architectures := f.architectures.map row
    packages := f.packages.map row
    ports := (f.generics ++ f.ports).map row
    signals := f.signals.map row
    instances := f.instances.map row
    dependencies := f.dependencies.map row
    useClauses := f.useClauses.map row
    libraryClauses := f.libraryClauses.map row
    contextClauses := f.contextClauses.map row
    processes := f.processes.map row
    generates := (Generate.nestedAll [] f.generates).map row
    types := f.types.map row
    subtypes := f.subtypes.map row
    functions := f.functions.map row
    procedures := f.procedures.map row
    constants := f.constants.map row }

/-- Files in the order of their paths; files with one path keep their order. -/
def inOrder (fs : List FileFacts) : List FileFacts :=
  fs.mergeSort fun a b => !Text.precedes b.file a.file

def ofFiles (fs : List FileFacts) : Tables := ((inOrder fs).map ofFile).foldr append {}

def rowCount (t : Tables) : Nat :=
  t.files.length + t.entities.length + t.architectures.length + t.packages.length
    + t.ports.length + t.signals.length + t.instances.length + t.dependencies.length
    + t.useClauses.length + t.libraryClauses.length + t.contextClauses.length
    + t.processes.length + t.generates.length + t.types.length + t.subtypes.length
    + t.functions.length + t.procedures.length + t.constants.length

end Tables

end DesignFacts

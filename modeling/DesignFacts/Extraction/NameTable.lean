import DesignFacts.Config.Basic
import DesignFacts.Declaration.TypeDeclaration
import DesignFacts.Name.Lookup
import DesignFacts.Process.Local

/-!
# The names of a file

The name tables of a file are collected from its whole tree before it is walked, so that a name can
be used before its declaration. Variables of processes are not among them.
-/

namespace DesignFacts

open Text

namespace Node

/-- The names of signals, constants, files, parameters, shared variables and aliases that a node
declares. -/
def objectsDeclared (n : Node) : List Text :=
  match n.kind with
  | .signalDeclaration | .constantDeclaration | .fileDeclaration | .parameter => n.objectNames
  | .variableDeclaration => if n.isShared then n.objectNames else []
  | .aliasDeclaration => n.declaredName?.toList
  | _ => []

/-- The names of values that a node declares: enumeration literals and physical units. -/
def valuesDeclared (n : Node) : List Text :=
  if n.kind == .typeDeclaration then (TypeKind.ofDeclaration n).valueNames else []

/-- The name of the subprogram that a node declares. -/
def subprogramsDeclared (n : Node) : List Text :=
  if n.isSubprogram then n.declaredName?.toList else []

/-- Whether a node needs a far line for the names of its file. -/
def declaresFar (n : Node) : Bool :=
  match n.kind with
  | .signalDeclaration | .constantDeclaration | .fileDeclaration | .parameter =>
    ObjectDeclaration.needsFarLine n
  | .variableDeclaration => n.isShared && ObjectDeclaration.needsFarLine n
  | .typeDeclaration => TypeKind.needsFarLine n
  | _ => false

end Node

/-- The name tables of a file. -/
def nameTable (config : Config) (root : Node) : Lookup :=
  let nodes := root.subtree
  let declared := (nodes.flatMap Node.objectsDeclared).map lower
  let excluded := (nodes.flatMap Node.valuesDeclared).map lower
  let subprograms := (nodes.flatMap Node.subprogramsDeclared).map lower
  { declared := fun name => declared.contains name
    builtin := config.isBuiltin
    excluded := fun name => excluded.contains name
    subprogram := fun name => subprograms.contains name }

end DesignFacts

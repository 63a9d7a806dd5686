import DesignFacts.Declaration.Scope
import DesignFacts.Declaration.Object

/-!
# Declared names, labels and objects

The name and the label of a construct, and the facts of object declarations in their scope.
-/

namespace DesignFacts

open Text

namespace Node

/-- The child that names a declaration: the one under `name`, else the first identifier. -/
def nameChild? (n : Node) : Option Node := (n.childUnder "name").or (n.childOfKind .identifier)

/-- The name that a node declares; empty names are none. -/
def declaredName? (n : Node) : Option Text :=
  (n.nameChild?.map trimmed).filter fun t => !t.isEmpty

/-- The name that a node declares, empty if there is none. -/
def declaredName (n : Node) : Text := n.declaredName?.getD []

/-- The label of a statement without its colon. -/
def label? (n : Node) : Option Text :=
  ((n.childUnder "label").map fun c => trim (dropEnd (· == ':') c.trimmed)).filter
    fun t => !t.isEmpty

/-- Whether a variable declaration declares shared variables. -/
def isShared (n : Node) : Bool := n.tag.startsWith "shared" || n.children.any (·.isToken "shared")

def objectNames (n : Node) : List Text := (ObjectDeclaration.ofNode n).names.map Prod.fst

end Node

namespace Scope

def signals (s : Scope) (n : Node) : List Signal :=
  let d := ObjectDeclaration.ofNode n
  d.names.map fun (name, line) =>
    { name, typeText := d.typeText, default := d.default, scope := s.owner, line }

def constants (s : Scope) (n : Node) : List Constant :=
  let d := ObjectDeclaration.ofNode n
  d.names.map fun (name, line) =>
    { name, typeText := d.typeText, value := d.default, package := s.package
      architecture := s.arch, line }

def sharedVariables (s : Scope) (n : Node) : List SharedVariable :=
  let d := ObjectDeclaration.ofNode n
  d.names.map fun (name, line) => { name, typeText := d.typeText, scope := s.owner, line }

end Scope

end DesignFacts

import DesignFacts.Declaration.Basic

/-!
# Subprograms

The facts of functions and procedures, declared or with their bodies.
-/

namespace DesignFacts

open Text

/-- The parameters of a subprogram: those in its parameter list, else those directly in it. -/
def parameters (n : Node) : List Parameter :=
  let nodes : List Node := match (n.childUnder "parameters").or (n.childOfKind .parameterList) with
    | some list => Node.collect .parameter list
    | none => n.namedChildren.filter (·.kind == .parameter)
  nodes.flatMap fun p =>
    let d := ObjectDeclaration.ofNode p
    d.names.map fun (name, line) =>
      { name, direction := d.direction, typeText := d.typeText, objectClass := d.objectClass
        default := d.default, line }

namespace Node

/-- The name of a subprogram, which may be an operator in quotes. -/
def subprogramName (n : Node) : Text :=
  (((n.childUnder "name").or ((n.childUnder "designator").or
    (n.namedChildren.find? fun c => c.kind == .identifier || c.kind == .stringLiteral))).map
    trimmed).getD []

def hasBody (n : Node) : Bool :=
  n.tag.endsWith "_body" || (n.childOfKind .subprogramBody).isSome
    || n.children.any (·.isToken "begin")

def returnType (n : Node) : Text :=
  (((n.childUnder "return_type").or
    ((splitAt? (·.isToken "return") n.children).bind fun (_, after) =>
      after.find? (·.named))).map fun c => squash c.text).getD []

/-- Whether a function is declared impure. -/
def isImpure (n : Node) : Bool :=
  n.children.any (·.isToken "impure") || startsWith (lower (trimStart n.text)) "impure"

end Node

namespace Scope

def function (s : Scope) (n : Node) : FunctionDeclaration where
  name := n.subprogramName
  returnType := n.returnType
  parameters := parameters n
  isPure := !n.isImpure
  hasBody := n.hasBody
  package := s.package
  architecture := s.arch
  line := n.line

def procedure (s : Scope) (n : Node) : ProcedureDeclaration where
  name := n.subprogramName
  parameters := parameters n
  hasBody := n.hasBody
  package := s.package
  architecture := s.arch
  line := n.line

end Scope

end DesignFacts

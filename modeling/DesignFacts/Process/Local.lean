import DesignFacts.Declaration.Basic
import DesignFacts.Fact.Process

/-!
# Names local to a process

Variables, constants and loop parameters of a process are no signals. They are looked for
everywhere in the process except inside subprograms.
-/

namespace DesignFacts

open Text

/-- The identifier after the keyword `for` and before the keyword that opens the body, among the
nodes of a loop in reading order. -/
def forParameter? (seen : Bool) : List Node → Option Text
  | [] => none
  | n :: ns =>
    if n.isToken "loop" || n.isToken "generate" then none
    else if n.isToken "for" then forParameter? true ns
    else if seen && n.kind == .identifier then some n.trimmed
    else forParameter? seen ns

namespace Node

def loopParameter? (n : Node) : Option Text :=
  match n.childUnder "parameter" with
  | some p => some p.trimmed
  | none => forParameter? false n.descendants

/-- Whether a node declares variables or constants. -/
def declaresLocals (n : Node) : Bool :=
  n.kind == .variableDeclaration || n.kind == .constantDeclaration

def isSubprogram (n : Node) : Bool :=
  n.kind == .functionDeclaration || n.kind == .procedureDeclaration

mutual

/-- The declarations and loops under a node, outside subprograms, in reading order. -/
def localNodes : Node → List Node
  | ⟨_, _, _, _, _, _, _, children⟩ => localNodesAmong children

/-- The declarations and loops among some nodes and below them. -/
def localNodesAmong : List Node → List Node
  | [] => []
  | n :: ns =>
    (if !n.named || n.isSubprogram then []
      else if n.declaresLocals then [n]
      else if n.kind == .loopStatement then n :: localNodes n
      else localNodes n)
      ++ localNodesAmong ns

end

/-- The names that a declaration or loop brings in, in small letters. -/
def ownLocalNames (n : Node) : List Text :=
  (if n.declaresLocals then n.objectNames else n.loopParameter?.toList).map lower

/-- The names that are local to a process, in small letters. -/
def localNames (n : Node) : List Text := n.localNodes.flatMap ownLocalNames

def localVariables (n : Node) : List Variable :=
  (n.localNodes.filter (·.kind == .variableDeclaration)).flatMap fun v =>
    let d := ObjectDeclaration.ofNode v
    d.names.map fun (name, line) => { name, typeText := d.typeText, line }

/-- Whether the local declarations of a process need a far line. -/
def localsAreFar (n : Node) : Bool :=
  n.localNodes.any fun d => d.declaresLocals && ObjectDeclaration.needsFarLine d

end Node

end DesignFacts

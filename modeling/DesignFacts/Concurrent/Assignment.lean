import DesignFacts.Declaration.Basic
import DesignFacts.Expression.Relation
import DesignFacts.Fact.File
import DesignFacts.Name.Scan

/-!
# Concurrent assignments

The facts of a concurrent signal assignment. It reads everything beside its target, and the
arguments of the target.
-/

namespace DesignFacts

open Text

/-- The form of an assignment, judged by its text without a label. -/
def ConcurrentKind.ofText (t : Text) : ConcurrentKind :=
  let t := lower (squash t)
  if startsWith t "with " && holds t " select" then .selected
  else if holds t " when " && holds t " else " then .conditional
  else .simple

namespace Node

/-- The children of a statement without its label. -/
def unlabelled (n : Node) : List Node := n.children.filter fun c => !c.isUnder "label"

/-- The place of the target among the unlabelled children of an assignment: the one under its
field, else the last construct before the arrow. -/
def targetIndex? (n : Node) : Option Nat :=
  let front := (splitAt? (·.isToken "<=") n.unlabelled).map Prod.fst |>.getD []
  (n.unlabelled.findIdx? (·.isUnder "target")).or
    ((front.zipIdx.filter fun (c, _) => c.named && !c.isComment).map Prod.snd).getLast?

def target? (n : Node) : Option Node := n.targetIndex?.bind fun i => n.unlabelled[i]?

/-- What an assignment reads from: everything beside its target, then the arguments of the
target. -/
def assignmentInputs (n : Node) : List Node :=
  ((n.unlabelled.zipIdx.filter fun (c, i) =>
    c.named && n.targetIndex? != some i && !c.isComment).map Prod.fst)
    ++ (n.target?.map arguments).getD []

/-- The text of a statement without its label. -/
def unlabelledText (n : Node) : Text :=
  match n.unlabelled.find? (fun c => !c.isToken ":"), n.unlabelled.getLast? with
  | some first, some last => first.textThrough last
  | _, _ => n.text

end Node

/-- The root and the path of the target of an assignment. A target that is no name counts as it is
written. -/
def targetName (L : Lookup) (n : Node) : Text × Text :=
  match n.target? with
  | none => ([], [])
  | some t =>
    match resolve L t with
    | some r => (r.base, r.path)
    | none => (compact t.text, compact t.text)

def concurrentHarvest (L : Lookup) (scope : Scope) (n : Node) : Harvest :=
  let (target, targetPath) := targetName L n
  let inputs := n.assignmentInputs
  let driven := if targetPath.isEmpty then none else some targetPath
  let site : Site := { inProcess := [], inArch := scope.path, drives := driven, guard := none }
  let scan := scanAll L inputs
  let reads := scan.readPaths
  { assignments := [{
      target
      targetPath
      reads
      kind := .ofText n.unlabelledText
      inArch := scope.path
      generateLabel := scope.generate
      line := n.line }]
    comparisons := inputs.flatMap (comparisons L site)
    arithmeticOps := inputs.flatMap (arithmeticOps L site)
    signalDeps := driven.toList.flatMap fun target => reads.map fun source =>
      { source, target, inProcess := [], isSequential := false, inArch := scope.path
        line := n.line }
    farLine :=
      n.target?.any (·.resolvesFar) || scan.farLine || inputs.any expressionIsFar || n.isFar }

end DesignFacts

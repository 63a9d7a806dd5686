import DesignFacts.Declaration.Basic
import DesignFacts.Instance.Association

/-!
# Instances

The facts of a component instantiation: its label, what it is an instance of, and its maps.
-/

namespace DesignFacts

open Text

namespace Node

/-- The children before and after the colon of a labelled statement. Without a colon all of them
count as being after it. -/
def aroundColon (n : Node) : List Node × List Node :=
  (splitAt? (·.isToken ":") n.children).getD ([], n.children)

/-- The identifier before the colon of a labelled statement. -/
def labelBeforeColon? (n : Node) : Option Text :=
  (n.aroundColon.1.find? (·.kind == .identifier)).map trimmed

/-- An entity or component name without its blanks and without an architecture after it. -/
def unitReference (n : Node) : Text := before '(' (compact n.text)

/-- The entity of an instance, with its library if that is given apart. -/
def entityReference (n entity : Node) : Text :=
  match n.childUnder "library" with
  | some library =>
    if entity.unitReference.contains '.' then entity.unitReference
    else compact library.text ++ '.' :: entity.unitReference
  | none => entity.unitReference

/-- The first construct after the colon that can name the unit of an instance. -/
def unitAfterColon? (n : Node) : Option Node :=
  n.aroundColon.2.find? fun c =>
    c.named && !c.isUnder "label" && c.mapKind?.isNone && !c.isComment

/-- What a node is an instance of, and whether that is an entity. -/
def instanceTarget (n : Node) : Text × Bool :=
  match n.childUnder "component", n.childUnder "entity" with
  | some component, _ => (component.unitReference, false)
  | none, some entity => (n.entityReference entity, true)
  | none, none =>
    ((n.unitAfterColon?.map unitReference).getD [], n.children.any (·.isToken "entity"))

end Node

/-- The instance of a component instantiation. -/
def instanceOf (L : Lookup) (scope : Scope) (n : Node) : Instance where
  name := (n.label?.or n.labelBeforeColon?).getD []
  target := n.instanceTarget.1
  isEntity := n.instanceTarget.2
  associations := n.namedChildren.flatMap (mapAssociations L)
  inArch := scope.path
  line := n.line

end DesignFacts

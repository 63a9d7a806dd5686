import DesignFacts.Expression.Literal
import DesignFacts.Fact.Instance
import DesignFacts.Name.Resolve

/-!
# Associations

An element of a port map or generic map, `formal => actual` or an actual alone. The grammar may
have split it into nodes, into tokens, or not at all.
-/

namespace DesignFacts

open Text

namespace Node

/-- The formal and the actual of an element that is a leaf. -/
def leafAssociation? (n : Node) : Option (Text × Text) :=
  if n.children.isEmpty then
    ((cut "=>".toList n.text).map fun (f, a) => (squash f, squash a)).filter
      fun (f, _) => !f.isEmpty
  else none

/-- The text of tokens, without punctuation and comments. -/
def tokenText? (ns : List Node) : Option Text :=
  let kept := (ns.filter fun c => !c.isComment).map text |>.filter fun t =>
    !([",", "(", ")"].any (·.toList == t))
  let t := squash (join " " kept)
  if t.isEmpty then none else some t

/-- The children of an element before and after its arrow. -/
def associationSides? (n : Node) : Option (List Node × List Node) :=
  splitAt? (·.isToken "=>") n.children

/-- The formal that nodes or tokens before the arrow spell. -/
def formalBefore? (front : List Node) : Option Text :=
  (spanText (front.filter (·.named))).or (tokenText? front)

/-- The formal of an element, if it has one. -/
def formalText? (n : Node) : Option Text :=
  ((n.childUnder "formal").map fun c => squash c.text).or
    ((n.leafAssociation?.map Prod.fst).or
      (n.associationSides?.bind fun (front, _) => formalBefore? front))

def actualNodes (n : Node) : List Node :=
  match n.childUnder "actual" with
  | some a => [a]
  | none =>
    let after := (n.associationSides?.map Prod.snd).getD n.children
    after.filter fun c => c.named && !c.isComment

def actualText (n : Node) : Text :=
  match spanText n.actualNodes, n.leafAssociation? with
  | some t, _ => t
  | none, some (_, actual) => actual
  | none, none =>
    if n.formalText?.isNone then squash n.text
    else (n.associationSides?.bind fun (_, back) => tokenText? back).getD []

end Node

/-- Whether a text is a dotted name, possibly with arguments in parentheses after it. -/
def isNameText (t : Text) : Bool :=
  let head := trim (before '(' t)
  head.head?.any Char.isAlpha && head.all fun c => isIdent c || c == '.'

namespace Actual

/-- The actual that a text without nodes of its own spells. -/
def ofText (t : Text) : Actual :=
  if Literal.isLiteralText t then .literal
  else if isNameText t then
    let path := trim (before '(' t)
    .name (before '.' path) path
  else .expression

/-- The actual that a single node is. A call is no name. -/
def ofNode (L : Lookup) (n : Node) : Actual :=
  if n.kind == .openActual then .unconnected
  else if n.kind.isLiteral then .literal
  else if n.kind.isName then
    match resolve L n with
    | some r => if r.isCall then .expression else .name r.base r.path
    | none => .expression
  else .expression

end Actual

def actualOf (L : Lookup) (n : Node) : Actual :=
  if isWord n.actualText "open" then .unconnected
  else match n.actualNodes with
    | [only] => .ofNode L only
    | _ => .ofText n.actualText

/-- Whether an element needs a far line: its own, or that of a name it stands for. -/
def associationIsFar (n : Node) : Bool :=
  n.isFar || (!isWord n.actualText "open" && match n.actualNodes with
    | [only] => only.kind.isName && only.resolvesFar
    | _ => false)

/-- The association of an element, at a place among the positional ones. -/
def association (L : Lookup) (kind : MapKind) (position : Nat) (n : Node) : Association where
  kind := kind
  formal := match n.formalText? with
    | some formal => .named formal
    | none => .positional position
  actual := actualOf L n
  actualText := n.actualText
  line := n.line

/-- The associations of a row of elements, with the positional ones numbered from `position`. -/
def associationsFrom (L : Lookup) (kind : MapKind) (position : Nat) : List Node → List Association
  | [] => []
  | n :: ns =>
    association L kind position n ::
      associationsFrom L kind (if n.formalText?.isNone then position + 1 else position) ns

/-- The map that a node is, if it is one. -/
def Node.mapKind? (n : Node) : Option MapKind :=
  match n.kind with
  | .genericMapAspect => some .generic
  | .portMapAspect => some .port
  | _ => none

def Node.mapElements (n : Node) : List Node := collect .associationElement n

def mapAssociations (L : Lookup) (n : Node) : List Association :=
  match n.mapKind? with
  | some kind => associationsFrom L kind 0 n.mapElements
  | none => []

/-- Whether a map needs a far line. -/
def mapIsFar (n : Node) : Bool := n.mapKind?.isSome && n.mapElements.any associationIsFar

end DesignFacts

import DesignFacts.Declaration.Basic
import DesignFacts.Declaration.TypeText

/-!
# Types, subtypes and aliases

The facts of type, subtype and alias declarations.
-/

namespace DesignFacts

open Text

/-! ## Types -/

namespace TypeKind

/-- The literals of an enumeration that the grammar split. -/
def literalsOf (definition : Node) : List Text :=
  (definition.namedChildren.filter fun c =>
    c.kind == .identifier || c.kind == .characterLiteral).map Node.trimmed

/-- The elements of a record. -/
def fieldsOf (definition : Node) : List RecordField :=
  (Node.collect .elementDeclaration definition).flatMap fun element =>
    let d := ObjectDeclaration.ofNode element
    d.names.map fun (name, line) => { name, typeText := d.typeText, line }

def ofDefinition (n : Node) : TypeKind :=
  match n.kind with
  | .enumerationTypeDefinition =>
    match literalsOf n with
    | [] => ofText n.text
    | literals => .enumeration literals
  | .recordTypeDefinition => .record (fieldsOf n)
  | .protectedTypeDeclaration => .protectedType (n.tag.endsWith "body" || holdsWord n.text "body")
  | _ => ofText n.text

def definition? (n : Node) : Option Node :=
  (n.childUnder "definition").or (n.namedChildren.find? fun c => c.kind.isTypeDefinition)

/-- What a type declaration defines: by its definition, else by the text after `is`. -/
def ofDeclaration (n : Node) : TypeKind :=
  match definition? n with
  | some definition => ofDefinition definition
  | none => ((cutWord "is" n.text).map fun (_, t) => ofText t).getD .incomplete

/-- Whether a type declaration needs a far line: its own, or that of an element of a record. -/
def needsFarLine (n : Node) : Bool :=
  n.isFar || (definition? n).any fun definition =>
    definition.kind == .recordTypeDefinition
      && (Node.collect .elementDeclaration definition).any ObjectDeclaration.needsFarLine

end TypeKind

namespace Scope

/-- A type with a name, where it stands. -/
def typeOfKind (s : Scope) (n : Node) (kind : TypeKind) : TypeDeclaration where
  name := n.declaredName
  kind := kind
  package := s.package
  architecture := s.arch
  line := n.line

def type (s : Scope) (n : Node) : TypeDeclaration := s.typeOfKind n (.ofDeclaration n)

/-! ## Aliases -/

/-- What an alias stands for. -/
def aliasTarget (n : Node) : Text :=
  (((n.childUnder "target").map fun c => squash c.text).or
    ((cutWord "is" (dropEnd (· == ';') n.trimmed)).map fun (_, t) => squash t)).getD []

def aliasType? (n : Node) : Option Text :=
  ((n.childUnder "type").map fun c => squash c.text).filter fun t => !t.isEmpty

/-- The alias of a declaration. -/
def aliasedType (s : Scope) (n : Node) : TypeDeclaration :=
  s.typeOfKind n (.aliasFor (aliasTarget n) (aliasType? n))

end Scope

/-! ## Subtypes -/

structure SubtypeIndication where
  baseType : Text := []
  constraint : Option Text := none
  resolution : Option Text := none

namespace SubtypeIndication

/-- Cut a text before the first whole word `range`, else before the first parenthesis. -/
def markAndConstraintOfText (t : Text) : Text × Option Text :=
  match cutWord "range" t with
  | some (left, _) => (trim left, some (trim (t.drop left.length)))
  | none =>
    match cut ['('] t with
    | some (left, right) => (trim left, some (trimEnd ('(' :: right)))
    | none => (t, none)

/-- The type mark and the constraint of an indication. -/
def markAndConstraint (n : Node) : Text × Option Text :=
  let t := squash n.text
  match n.childUnder "constraint" with
  | some c =>
    let mark := match n.childUnder "type_mark" with
      | some m => squash m.text
      | none => squash (((cut c.text t).map Prod.fst).getD t)
    (mark, some (squash c.text))
  | none => markAndConstraintOfText t

/-- A text without any number of copies of a nonempty text at its start. -/
def dropCopies (head : Text) (t : Text) : Text :=
  if _h : head ≠ [] ∧ head.isPrefixOf t then dropCopies head (t.drop head.length) else t
termination_by t.length
decreasing_by
  have := (List.isPrefixOf_iff_prefix.1 _h.2).length_le
  have := List.length_pos_iff.2 _h.1
  simp only [List.length_drop]
  omega

/-- The resolution function and the base type of an indication: the function under its field, else
the first of two words. -/
def resolutionAndBase (n : Node) (mark : Text) : Option Text × Text :=
  match n.childUnder "resolution" with
  | some r => (some (squash r.text), trim (dropCopies (squash r.text) mark))
  | none =>
    match words mark with
    | [resolution, base] => (some resolution, base)
    | _ => (none, mark)

def ofNode (n : Node) : SubtypeIndication :=
  let (mark, constraint) := markAndConstraint n
  let (resolution, baseType) := resolutionAndBase n mark
  { baseType, constraint, resolution }

end SubtypeIndication

def Scope.subtype (s : Scope) (n : Node) : SubtypeDeclaration :=
  let i := (((n.childUnder "indication").or (n.childOfKind .subtypeIndication)).map
    SubtypeIndication.ofNode).getD {}
  { name := n.declaredName
    baseType := i.baseType
    constraint := i.constraint
    resolution := i.resolution
    package := s.package
    architecture := s.arch
    line := n.line }

end DesignFacts

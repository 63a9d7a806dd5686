import DesignFacts.Fact.Unit

/-!
# Declared objects, types and subprograms

One fact per declared name. A declaration stands in a package or on an architecture path, or in
neither.
-/

namespace DesignFacts

structure Signal where
  name : Text
  typeText : Text
  default : Option Text
  /-- The architecture path or package it is declared in. -/
  scope : Text
  line : Nat

structure Constant where
  name : Text
  typeText : Text
  value : Option Text
  package : Option Text
  architecture : Option Text
  line : Nat

/-- A variable declared outside all processes. -/
structure SharedVariable where
  name : Text
  typeText : Text
  scope : Text
  line : Nat

/-- An element of a record type. -/
structure RecordField where
  name : Text
  typeText : Text
  line : Nat

/-- What a type declaration defines. -/
inductive TypeKind where
  | enumeration (literals : List Text)
  | record (fields : List RecordField)
  | array (elementType : Text) (indexTypes : List Text) (unconstrained : Bool)
  | physical (range : Option Text) (units : List Text)
  | access (designated : Text)
  | file (designated : Text)
  | incomplete
  | protectedType (isBody : Bool)
  | range (low high direction : Text)
  | aliasFor (target : Text) (aliasType : Option Text)

namespace TypeKind

def keyword : TypeKind → String
  | enumeration .. => "enum"
  | record .. => "record"
  | array .. => "array"
  | physical .. => "physical"
  | access .. => "access"
  | file .. => "file"
  | incomplete => "incomplete"
  | protectedType .. => "protected"
  | range .. => "range"
  | aliasFor .. => "alias"

/-- The first unit of a physical type. -/
def baseUnit (units : List Text) : Text := units.head?.getD []

/-- The names that a type brings in which are never signals: enumeration literals that are no
character literals, and the units of a physical type with the first one named twice. -/
def valueNames : TypeKind → List Text
  | enumeration literals => literals.filter fun l => l.head? != some '\''
  | physical _ units => (baseUnit units :: units).filter fun u => !u.isEmpty
  | _ => []

end TypeKind

structure TypeDeclaration where
  name : Text
  kind : TypeKind
  package : Option Text
  architecture : Option Text
  line : Nat

structure SubtypeDeclaration where
  name : Text
  baseType : Text
  constraint : Option Text
  resolution : Option Text
  package : Option Text
  architecture : Option Text
  line : Nat

structure Parameter where
  name : Text
  direction : Direction
  typeText : Text
  objectClass : Option Text
  default : Option Text
  line : Nat

/-- A function, declared or with its body. -/
structure FunctionDeclaration where
  name : Text
  returnType : Text
  parameters : List Parameter
  isPure : Bool
  hasBody : Bool
  package : Option Text
  architecture : Option Text
  line : Nat

/-- A procedure, declared or with its body. -/
structure ProcedureDeclaration where
  name : Text
  parameters : List Parameter
  hasBody : Bool
  package : Option Text
  architecture : Option Text
  line : Nat

end DesignFacts

import DesignFacts.Text.Basic

/-!
# Design units and what they refer to

Facts about the units of a design (entities, architectures, packages, configurations), the
clauses in front of them, and the names outside themselves that they depend on.
-/

namespace DesignFacts

/-- The direction of a port. Generics have none. -/
inductive Direction where
  | input
  | output
  | inout
  | buffer
  | linkage
  | none
  deriving DecidableEq

namespace Direction

def keyword : Direction → String
  | input => "in"
  | output => "out"
  | inout => "inout"
  | buffer => "buffer"
  | linkage => "linkage"
  | none => ""

/-- The direction that a mode names, in any letter case; `none` for any other text. -/
def ofText (t : Text) : Direction :=
  let mode := Text.lower (Text.trim t)
  if mode == "in".toList then input
  else if mode == "out".toList then output
  else if mode == "inout".toList then inout
  else if mode == "buffer".toList then buffer
  else if mode == "linkage".toList then linkage
  else none

end Direction

/-- A port or generic of an entity or component. -/
structure Port where
  name : Text
  direction : Direction
  typeText : Text
  default : Option Text
  /-- The object class, if it is written. -/
  objectClass : Option Text
  /-- The entity or component that owns the port. -/
  owner : Text
  line : Nat

structure Entity where
  name : Text
  line : Nat
  generics : List Port
  ports : List Port

structure Component where
  name : Text
  generics : List Port
  ports : List Port
  line : Nat

/-- An architecture body; its entity may stand in another file. -/
structure Architecture where
  name : Text
  entityName : Text
  line : Nat

structure Package where
  name : Text
  line : Nat

structure Configuration where
  name : Text
  entityName : Text
  line : Nat

/-- A use clause for one selected name. -/
structure UseClause where
  path : Text
  line : Nat

namespace UseClause

/-- The library that a use clause names first. -/
def library (u : UseClause) : Text := (Text.splitOn '.' u.path)[0]?.getD []

/-- The package that a use clause names second. -/
def package (u : UseClause) : Text := (Text.splitOn '.' u.path)[1]?.getD []

/-- Everything after the package. -/
def item (u : UseClause) : Text := Text.join "." ((Text.splitOn '.' u.path).drop 2)

end UseClause

structure LibraryClause where
  name : Text
  line : Nat

/-- A reference to one context. -/
structure ContextClause where
  name : Text
  line : Nat

/-- What makes one unit depend on another name. -/
inductive DependencyKind where
  | use
  | library
  | context
  | instantiation
  | component
  deriving DecidableEq

def DependencyKind.keyword : DependencyKind → String
  | use => "use"
  | library => "library"
  | context => "context"
  | instantiation => "instance"
  | component => "component"

/-- A reference from a design unit, or from the file, to another name. -/
structure Dependency where
  source : Text
  target : Text
  kind : DependencyKind
  line : Nat

end DesignFacts

import DesignFacts.Text.Basic

/-!
# Scopes

Where a construct stands: in a package, or on the path of an architecture and the generates in it.
-/

namespace DesignFacts

/-- The place of a construct. -/
structure Scope where
  /-- The package around it. -/
  package : Option Text := none
  /-- The path of architecture and generate labels around it. -/
  arch : Option Text := none
  /-- The label of the innermost generate around it. -/
  generate : Option Text := none
  deriving DecidableEq

namespace Scope

/-- The place of a construct outside all units. -/
def file : Scope := {}

/-- The inside of a package. -/
def inPackage (_ : Scope) (name : Text) : Scope := { package := some name }

/-- The inside of an architecture, or of an entity. -/
def inArchitecture (_ : Scope) (name : Text) : Scope := { arch := some name }

/-- The inside of a generate statement. -/
def inGenerate (s : Scope) (label : Text) : Scope where
  package := s.package
  arch := some <| match s.arch with
    | some path => if path.isEmpty then label else path ++ '.' :: label
    | none => label
  generate := some label

/-- The path, empty outside architectures. -/
def path (s : Scope) : Text := s.arch.getD []

/-- The architecture: the first segment of the path. -/
def architecture (s : Scope) : Option Text :=
  (s.arch.map (Text.before '.')).filter fun name => !name.isEmpty

/-- What a declaration belongs to: the path, else the package, else nothing. -/
def owner (s : Scope) : Text := (s.arch.or s.package).getD []

end Scope

end DesignFacts

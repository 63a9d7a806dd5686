import DesignFacts.Text.Basic

/-!
# Name tables

What is known about names at a place of a design. Names are asked for in small letters.
-/

namespace DesignFacts

/-- The name tables at a place of a design. -/
structure Lookup where
  /-- Signals, ports, generics, constants, variables and aliases. -/
  declared : Text → Bool
  /-- Functions, conversions and values of the language and its packages. -/
  builtin : Text → Bool
  /-- Names that are never signal reads here: variables and loop parameters. -/
  excluded : Text → Bool
  /-- Functions and procedures of the file. -/
  subprogram : Text → Bool

namespace Lookup

/-- The tables with the parameter of a loop, which is never a signal read. -/
def withParameter (L : Lookup) (parameter : Option Text) : Lookup :=
  { L with excluded := fun name => parameter == some name || L.excluded name }

/-- The tables with local names, which are declared and never signal reads. -/
def withLocals (L : Lookup) (names : List Text) : Lookup :=
  { L with
    declared := fun name => names.contains name || L.declared name
    excluded := fun name => names.contains name || L.excluded name }

end Lookup

end DesignFacts

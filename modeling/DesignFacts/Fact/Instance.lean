import DesignFacts.Fact.Assoc
import DesignFacts.Text.Basic

/-!
# Instances

An instance connects the ports and generics of a component or entity, its formals, with actuals
of the place where it stands. An association is named, or positional with its place among the
positional ones of its map.
-/

namespace DesignFacts

/-- The map that an association belongs to. -/
inductive MapKind where
  | port
  | generic
  deriving DecidableEq

def MapKind.keyword : MapKind → String
  | port => "port"
  | generic => "generic"

/-- What an association connects. -/
inductive Formal where
  | named (formal : Text)
  | positional (index : Nat)
  deriving DecidableEq

/-- What a formal is connected with. -/
inductive Actual where
  /-- A name: its first identifier, and its dotted path without indices. -/
  | name (base path : Text)
  | literal
  /-- Nothing: the formal is left open. -/
  | unconnected
  | expression

/-- The name of a kind of actual. -/
def Actual.keyword : Actual → String
  | name .. => "name"
  | literal => "literal"
  | unconnected => "open"
  | expression => "expression"

/-- One element of a port map or generic map. -/
structure Association where
  kind : MapKind
  formal : Formal
  actual : Actual
  /-- The text of the actual. -/
  actualText : Text
  line : Nat

/-- An instance of a component or entity. -/
structure Instance where
  name : Text
  /-- The component, or the entity with its library. -/
  target : Text
  isEntity : Bool
  associations : List Association
  /-- The architecture path that the instance stands in. -/
  inArch : Text
  line : Nat

namespace Instance

/-- The named associations of a map with the texts of their actuals; the last one counts. -/
def namedMap (i : Instance) (kind : MapKind) : Assoc Text Text :=
  i.associations.foldl (fun m a =>
    match a.formal with
    | .named formal => if a.kind = kind then Assoc.set formal a.actualText m else m
    | .positional _ => m) []

def portMap (i : Instance) : Assoc Text Text := i.namedMap .port

def genericMap (i : Instance) : Assoc Text Text := i.namedMap .generic

end Instance

end DesignFacts

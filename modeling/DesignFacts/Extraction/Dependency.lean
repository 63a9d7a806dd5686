import DesignFacts.Fact.File

/-!
# Where dependencies come from

A walk keeps a ledger of dependencies. A component or instance depends for the unit around it, or
for the file if that has no name. A clause depends for the design unit that is entered after it:
it is noted without a source, its place in the list is kept as pending, and entering a unit fills
in all pending places. At the end of the file they get the name of the file.

The body of a generate statement has a ledger of its own, which starts in the unit around the
statement. Its dependencies are added to those around it when the body ends, but its pending places
are not: a clause in a body that no unit follows there keeps an empty source.
-/

namespace DesignFacts

/-- The dependencies noted so far, the unit that the walk is in, and the places of the dependencies
that still wait for the next unit. -/
structure Ledger where
  dependencies : List Dependency := []
  unit : Text := []
  pending : List Nat := []

namespace Ledger

/-- Give a source to the dependency at a place, if there is one. -/
def setSource (source : Text) (ds : List Dependency) (place : Nat) : List Dependency :=
  ds.modify place fun d => { d with source }

/-- Give a source to all dependencies that wait for one. -/
def settle (source : Text) (l : Ledger) : Ledger :=
  { l with dependencies := l.pending.foldl (setSource source) l.dependencies, pending := [] }

/-- A design unit begins. -/
def enter (unit : Text) (l : Ledger) : Ledger := { l.settle unit with unit }

/-- Note a dependency that waits for the next unit. -/
def clause (target : Text) (kind : DependencyKind) (line : Nat) (l : Ledger) : Ledger :=
  { l with
    dependencies := l.dependencies ++ [{ source := [], target, kind, line }]
    pending := l.pending ++ [l.dependencies.length] }

/-- Note a dependency of the unit that the walk is in. -/
def reference (file target : Text) (kind : DependencyKind) (line : Nat) (l : Ledger) : Ledger :=
  { l with
    dependencies := l.dependencies ++
      [{ source := if l.unit.isEmpty then file else l.unit, target, kind, line }] }

/-- Take over the dependencies of a body. -/
def absorb (l body : Ledger) : Ledger :=
  { l with dependencies := l.dependencies ++ body.dependencies }

mutual

def step (file : Text) (l : Ledger) : ReferenceEvent → Ledger
  | .enter unit => l.enter unit
  | .clause target kind line => l.clause target kind line
  | .reference target kind line => l.reference file target kind line
  | .body events => l.absorb (run file { unit := l.unit } events)

/-- The ledger after a row of events. -/
def run (file : Text) (l : Ledger) : List ReferenceEvent → Ledger
  | [] => l
  | e :: es => run file (step file l e) es

end

end Ledger

def fileDependencies (file : Text) (events : List ReferenceEvent) : List Dependency :=
  ((Ledger.run file {} events).settle file).dependencies

end DesignFacts

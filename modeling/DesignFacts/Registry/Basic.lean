import DesignFacts.Path.Basic
import DesignFacts.Tree.Reader

/-!
# Readers by file name

A registry says which reader takes a file: the one for the longest registered suffix of its name,
ignoring letter case. A suffix that is registered again gets the new reader.
-/

namespace DesignFacts

open Text

/-- Readers by suffix. Suffixes are written in small letters, and each stands once. -/
structure Registry (α : Type) where
  entries : List (Text × α) := []

namespace Registry

variable {α : Type}

/-- Register a reader for a suffix. -/
def register (r : Registry α) (suffix : Text) (reader : α) : Registry α :=
  ⟨r.entries.filter (fun e => e.1 != lower suffix) ++ [(lower suffix, reader)]⟩

/-- The registry after a sequence of registrations. -/
def ofCalls (calls : List (Text × α)) : Registry α :=
  calls.foldl (fun r call => r.register call.1 call.2) {}

/-- The entry with the longest suffix, in bytes. -/
def longest? : List (Text × α) → Option (Text × α)
  | [] => none
  | e :: es =>
    match longest? es with
    | none => some e
    | some best => if bytes best.1 < bytes e.1 then some e else some best

/-- The entries whose suffix ends a name. -/
def candidates (r : Registry α) (name : Text) : List (Text × α) :=
  r.entries.filter fun e => e.1.isSuffixOf (lower name)

def forSuffix? (r : Registry α) (suffix : Text) : Option α :=
  (r.entries.find? fun e => e.1 == lower suffix).map (·.2)

def forPath? (r : Registry α) (path : Text) : Option α :=
  (Path.fileName? path).bind fun name => (longest? (r.candidates name)).map (·.2)

/-- Whether some reader takes a path. -/
def isSupported (r : Registry α) (path : Text) : Bool :=
  (Path.fileName? path).any fun name => r.entries.any fun e => e.1.isSuffixOf (lower name)

/-- All registered suffixes in order. -/
def suffixes (r : Registry α) : List Text :=
  (r.entries.map (·.1)).mergeSort fun a b => !precedes b a

end Registry

/-- The readers that are always there. -/
def Registry.standard : Registry TreeFormat :=
  .ofCalls [(".sexp".toList, .sexp), (".json".toList, .json)]

end DesignFacts

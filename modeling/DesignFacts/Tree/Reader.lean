import DesignFacts.Json.TreeDump
import DesignFacts.Sexp.Layout

/-!
# Reading trees

A tree comes in one of two written forms, an s-expression or a JSON dump. Both are read into an
arena first, so they share the check of spans.
-/

namespace DesignFacts

/-- Why no tree could be read from a text. -/
inductive ReadError where
  | sexp (e : Sexp.Error)
  | json
  /-- What was read is no tree over its source. -/
  | span (e : ArenaError)
  deriving DecidableEq

def ReadError.message : ReadError → String
  | sexp e => e.message
  | json => "invalid JSON syntax tree"
  | span e => e.message

/-- The written forms of a tree. -/
inductive TreeFormat where
  | sexp
  | json
  deriving DecidableEq

namespace TreeFormat

def name : TreeFormat → String
  | sexp => "sexp"
  | json => "json"

/-- The arena that a text describes. -/
def readArena : TreeFormat → Text → Except ReadError Arena
  | sexp, text => (Sexp.parse text).mapError .sexp
  | json, text =>
    match Json.parseDump text with
    | some d => .ok d.arena
    | none => .error .json

/-- The tree that a text describes. -/
def readTree (f : TreeFormat) (text : Text) : Except ReadError Tree := do
  let arena ← f.readArena text
  arena.load.mapError .span

end TreeFormat

end DesignFacts

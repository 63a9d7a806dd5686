import DesignFacts.Config.Basic
import DesignFacts.Glob.Match
import DesignFacts.Text.Quoted

/-!
# Valid configurations

What a configuration may not hold: blank names and patterns that cannot be read. A path pattern
that cannot be read excludes nothing.
-/

namespace DesignFacts

open Text

/-- Why a configuration is not valid. -/
inductive ConfigError where
  | blankReset
  | blankEdge
  | blankBuiltin
  | badPattern (pattern : Text) (e : Glob.Error)

def ConfigError.message : ConfigError → Text
  | blankReset => "reset_patterns must not contain empty strings".toList
  | blankEdge => "edge_functions must not contain empty names".toList
  | blankBuiltin => "extra_builtins must not contain empty names".toList
  | badPattern pattern e =>
    "invalid excluded_paths pattern ".toList ++ quoted pattern ++ ": error parsing glob '".toList
      ++ pattern ++ "': ".toList ++ e.message

namespace Config

/-- The first path pattern that cannot be read. -/
def badPattern? (c : Config) : Option ConfigError :=
  c.excludedPaths.findSome? fun pattern =>
    match Glob.parse pattern with
    | .ok _ => none
    | .error e => some (.badPattern pattern e)

/-- The first reason why a configuration is not valid. -/
def error? (c : Config) : Option ConfigError :=
  let isBlankText (t : Text) : Bool := (trim t).isEmpty
  if c.resetPatterns.any isBlankText then some .blankReset
  else if (c.risingEdges ++ c.fallingEdges).any isBlankText then some .blankEdge
  else if c.extraBuiltins.any isBlankText then some .blankBuiltin
  else c.badPattern?

/-- Whether a path is left out. -/
def excludes (c : Config) (path : Text) : Bool :=
  c.excludedPaths.any fun pattern =>
    match Glob.parse pattern with
    | .ok tokens => Glob.isMatch tokens path
    | .error _ => false

end Config

end DesignFacts

import DesignFacts.Command.Arguments
import DesignFacts.Config.Validate
import DesignFacts.Disk.Access

/-!
# Outcomes

What a command leaves behind: what it prints, its exit code, or the error that ended it.
-/

namespace DesignFacts

/-- Why a command ended early. -/
inductive CommandError where
  | unreadableConfig (path : Text) (e : FileError)
  | malformedConfig (path : Text)
  | invalidConfig (e : ConfigError)
  | file (e : FileError)

def CommandError.message : CommandError → Text
  | unreadableConfig path e =>
    "failed to load config ".toList ++ path ++ ": ".toList ++ e.message
  | malformedConfig path =>
    "failed to load config ".toList ++ path ++ ": not a configuration".toList
  | invalidConfig e => e.message
  | file e => e.message

structure Outcome where
  /-- What it prints. -/
  output : Text := []
  /-- What it prints about errors. -/
  errors : Text := []
  /-- The exit code, unless an error ended the command. -/
  result : Except CommandError Nat

namespace Outcome

/-- All is well. -/
def success : Nat := 0

/-- Some file gave no facts. -/
def incomplete : Nat := 1

/-- The command could not do its work. -/
def refused : Nat := 2

/-- A line about an error, from its parts. -/
def line (parts : List Text) : Text := parts.flatten ++ ['\n']

end Outcome

end DesignFacts

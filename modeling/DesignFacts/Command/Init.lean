import DesignFacts.Command.Basic
import DesignFacts.Config.Yaml
import DesignFacts.Report.Basic

/-!
# Starting a configuration

The command that writes the default configuration to a file, which must not be there yet.
-/

namespace DesignFacts

variable {m : Type → Type} [Monad m]

/-- What to do next with the configuration at a path. -/
def nextSteps (path : Text) : Text :=
  Outcome.line ["Created ".toList, path] ++ Outcome.line [] ++ Outcome.line ["Next steps:".toList]
    ++ Outcome.line ["  1. Edit ".toList, path, " to customize extraction".toList]
    ++ Outcome.line ["  2. Run: ".toList, toolName.toList, " extract . --config ".toList, path]

/-- Make the directory of a path, if it has one. -/
def makeParent (files : FileAccess m) (path : Text) : m (Except FileError Unit) :=
  match Path.parent? path with
  | none => return .ok ()
  | some p => if p.isEmpty || p == ['.'] then return .ok () else files.makeDirectories p

def runInit (files : FileAccess m) (path : Text) : m Outcome := do
  match ← files.look path with
  | .ok _ =>
    let errors := Outcome.line ["Error: file already exists: ".toList, path]
      ++ Outcome.line ["Remove it or use --output to specify a different path".toList]
    return { errors, result := .ok Outcome.refused }
  | .error _ =>
    match ← makeParent files path with
    | .error e => return { result := .error (.file e) }
    | .ok () =>
      match ← files.write path (String.ofList ({} : Config).toYaml).toUTF8.toList with
      | .error e => return { result := .error (.file e) }
      | .ok () => return { output := nextSteps path, result := .ok Outcome.success }

end DesignFacts

import DesignFacts.Disk.Access
import DesignFacts.Extraction.Source
import DesignFacts.Registry.Basic

/-!
# Extraction from files

The facts of many files, in the order of their paths. A file without facts does not touch the
others; a fault ends everything.
-/

namespace DesignFacts

variable {m : Type → Type} [Monad m]

def extractFile (files : FileAccess m) (registry : Registry TreeFormat) (config : Config)
    (path : Text) : ExceptT Fault m (Except ExtractError FileFacts) :=
  match registry.forPath? path with
  | none => pure (.error (.unsupported path))
  | some format => do
    match ← files.read path with
    | .error e => pure (.error (.unreadable path e))
    | .ok bytes => ExceptT.mk (pure (extractBytes config path format bytes))

def extractFiles (files : FileAccess m) (registry : Registry TreeFormat) (config : Config)
    (paths : List Text) : ExceptT Fault m (List (Text × Except ExtractError FileFacts)) :=
  (Path.sortBy id paths).mapM fun path => do
    return (path, ← extractFile files registry config path)

end DesignFacts

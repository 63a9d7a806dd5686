import DesignFacts.Command.Extract
import DesignFacts.Command.Init

/-!
# Running commands
-/

namespace DesignFacts

variable {m : Type → Type} [Monad m]

def Command.run (files : FileAccess m) (registry : Registry TreeFormat) :
    Command → ExceptT Fault m Outcome
  | extract path format config output => runExtract files registry path format config output
  | init output => (runInit files output : m Outcome)

end DesignFacts

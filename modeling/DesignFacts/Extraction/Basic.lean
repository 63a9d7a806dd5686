import DesignFacts.Analysis.Clock
import DesignFacts.Analysis.Crossing
import DesignFacts.Analysis.Elaborate
import DesignFacts.Extraction.Dependency
import DesignFacts.Extraction.NameTable
import DesignFacts.Extraction.Walk

/-!
# Extraction

All facts of a file: its tree is walked, and the analyses run over what was gathered.
-/

namespace DesignFacts

namespace Harvest

/-- The values of the constants and generics of a harvest. -/
def constantValues (h : Harvest) : Except Fault Constants :=
  Bound.constantsOf (h.constants.map fun c => (c.name, c.value))
    (h.generics.map fun g => (g.name, g.default))

/-- The generate statements of a harvest with their iterations, if these are wanted. -/
def elaborated (config : Config) (h : Harvest) : Except Fault (List Generate) :=
  if config.elaborateGenerates && !h.generates.isEmpty then do
    let (_, generates) ← Generate.elaborateAll (← h.constantValues) h.generates
    return generates
  else .ok h.generates

/-- Whether the right side of a comparison is a literal with a base that has no digits. -/
def hasWrongLiteral (h : Harvest) : Bool :=
  h.comparisons.any fun c => c.literalBits.isSome && Literal.hasWrongBase c.right

/-- The facts of a file, from what was gathered in it. -/
def analyze (config : Config) (file : Text) (h : Harvest) : Except Fault FileFacts := do
  let generates ← h.elaborated config
  return { h with
    generates
    file
    dependencies := fileDependencies file h.references
    clockDomains := DesignFacts.clockDomains h.processes
    resets := resetInfos h.processes
    usages := signalUsages h
    crossings := if config.detectCrossings then DesignFacts.crossings h else [] }

end Harvest

/-- What is gathered in the tree of a file. -/
def harvest (config : Config) (root : Node) : Harvest :=
  walk config (nameTable config root) .file root

/-- The facts of a file with a syntax tree. -/
def extract (config : Config) (file : Text) (root : Node) : Except Fault FileFacts :=
  let h := harvest config root
  if root.subtree.any Node.declaresFar || h.farLine then .error .lineNumber
  else if h.hasWrongLiteral then .error .literalBase
  else h.analyze config file

end DesignFacts

import DesignFacts.Config.Basic
import DesignFacts.Yaml.Value
import DesignFacts.Yaml.Writer

/-!
# Configurations as YAML

A configuration file is a record of settings. A setting that is not written keeps its default, and
settings that are not known are passed over. An empty text is a configuration too.
-/

namespace DesignFacts

open Text

namespace Yaml.Value

def text? : Value → Option Text
  | scalar t _ => some t
  | _ => none

/-- The items of a list. Nothing at all is an empty list. -/
def items? : Value → Option (List Value)
  | list items => some items
  | scalar [] true => some []
  | _ => none

/-- The entries of a record. Nothing at all is an empty record. -/
def entries? : Value → Option (List (Value × Value))
  | record entries => some entries
  | scalar [] true => some []
  | _ => none

/-- The texts of a list of scalars. -/
def texts? (v : Value) : Option (List Text) := v.items?.bind fun items => items.mapM text?

/-- The truth value of a plain scalar. -/
def flag? : Value → Option Bool
  | scalar t true =>
    if ["true", "True", "TRUE"].any (fun w => w.toList == t) then some true
    else if ["false", "False", "FALSE"].any (fun w => w.toList == t) then some false
    else none
  | _ => none

/-- The entries of a record with texts as keys. -/
def fields? (v : Value) : Option (List (Text × Value)) :=
  v.entries?.bind fun entries => entries.mapM fun (key, value) => key.text?.map fun k => (k, value)

end Yaml.Value

/-- A setting of a record: its value read by `decode`, or the default if it is not written. A
setting is written at most once. -/
def setting {α : Type} (fields : List (Text × Yaml.Value)) (name : String)
    (decode : Yaml.Value → Option α) (default : α) : Option α :=
  match fields.filter fun field => field.1 == name.toList with
  | [] => some default
  | [(_, value)] => decode value
  | _ => none

namespace Config

/-- The edge functions that a record gives, rising ones first. -/
def edgesOfValue? (v : Yaml.Value) : Option (List Text × List Text) := do
  let fields ← v.fields?
  let rising ← setting fields "rising" (·.texts?) ({} : Config).risingEdges
  let falling ← setting fields "falling" (·.texts?) ({} : Config).fallingEdges
  some (rising, falling)

/-- The configuration that a record gives. -/
def ofValue? (v : Yaml.Value) : Option Config := do
  let base : Config := {}
  let fields ← v.fields?
  let extraBuiltins ← setting fields "extra_builtins" (·.texts?) base.extraBuiltins
  let resetPatterns ← setting fields "reset_patterns" (·.texts?) base.resetPatterns
  let (risingEdges, fallingEdges) ←
    setting fields "edge_functions" edgesOfValue? (base.risingEdges, base.fallingEdges)
  let elaborateGenerates ← setting fields "elaborate_generates" (·.flag?) base.elaborateGenerates
  let detectCrossings ← setting fields "detect_cdc" (·.flag?) base.detectCrossings
  let excludedPaths ← setting fields "excluded_paths" (·.texts?) base.excludedPaths
  some { extraBuiltins, resetPatterns, risingEdges, fallingEdges, elaborateGenerates,
         detectCrossings, excludedPaths }

/-- The configuration that a text gives. -/
def ofYaml? (t : Text) : Option Config :=
  if (trim t).isEmpty then some {} else (Yaml.read t).bind ofValue?

/-! ## Writing -/

/-- A list of texts under its name, its dashes in the name's column. -/
def textsLine (indent : Nat) (name : String) (ts : List Text) : Text :=
  let line (rest : Text) := List.replicate indent ' ' ++ Yaml.endLine rest
  if ts.isEmpty then line (name.toList ++ ": []".toList)
  else
    line (name.toList ++ [':'])
      ++ ts.flatMap fun t => line ('-' :: ' ' :: Yaml.scalarText (indent + 2) t)

/-- A truth value under its name. -/
def flagLine (name : String) (b : Bool) : Text :=
  name.toList ++ ": ".toList ++ (if b then "true" else "false").toList ++ ['\n']

/-- A configuration as YAML. -/
def toYaml (c : Config) : Text :=
  textsLine 0 "extra_builtins" c.extraBuiltins ++ textsLine 0 "reset_patterns" c.resetPatterns
    ++ "edge_functions:\n".toList ++ textsLine 2 "rising" c.risingEdges
    ++ textsLine 2 "falling" c.fallingEdges ++ flagLine "elaborate_generates" c.elaborateGenerates
    ++ flagLine "detect_cdc" c.detectCrossings ++ textsLine 0 "excluded_paths" c.excludedPaths

end Config

end DesignFacts

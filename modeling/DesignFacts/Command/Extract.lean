import DesignFacts.Command.Basic
import DesignFacts.Config.Yaml
import DesignFacts.Extraction.Batch
import DesignFacts.Report.Summary

/-!
# Extracting facts

The command that reports the facts of a file, or of all files below a directory that some reader
takes. The configuration is read from a file that is named, or else from the one in the working
directory, if there is one.
-/

namespace DesignFacts

open Text

variable {m : Type → Type} [Monad m]

/-! ## Configuration -/

/-- The configuration that the bytes of a file give; `path` is the file's. -/
def Config.ofBytes (path : Text) (bytes : List UInt8) : Except CommandError Config :=
  match Utf8.decode bytes with
  | .error _ => .error (.unreadableConfig path .notText)
  | .ok t =>
    match Config.ofYaml? t with
    | none => .error (.malformedConfig path)
    | some c =>
      match c.error? with
      | some e => .error (.invalidConfig e)
      | none => .ok c

/-- The configuration in the file at `path`, which messages call `shown`. -/
def readConfig (files : FileAccess m) (path shown : Text) : m (Except CommandError Config) := do
  match ← files.read path with
  | .error e => return .error (.unreadableConfig shown e)
  | .ok bytes => return Config.ofBytes shown bytes

/-- Whether a file stands at a path. -/
def isFile (files : FileAccess m) (path : Text) : m Bool := do
  match ← files.look path with
  | .ok (.file _) => return true
  | _ => return false

/-- The configuration of a command. -/
def loadConfig (files : FileAccess m) (named : Option Text) : m (Except CommandError Config) := do
  match named with
  | some path => readConfig files path path
  | none =>
    if ← isFile files configFileName then
      readConfig files configFileName (Path.below (← files.directory) configFileName)
    else return .ok {}

/-! ## Files -/

/-- The paths of the files to read for a path: the files below a directory that some reader takes
and that are not excluded, or the path itself. -/
def sourcePaths (registry : Registry TreeFormat) (config : Config) (path : Text) (e : Entry Unit) :
    List Text :=
  match e with
  | .file _ => [path]
  | .directory _ =>
    ((e.filesBelow path).map (·.1)).filter fun p => registry.isSupported p && !config.excludes p

/-! ## The command -/

/-- The report about the files that were read. -/
def Report.ofResults (path : Text) (results : List (Text × Except ExtractError FileFacts)) :
    Report where
  path := path
  facts := results.filterMap fun r => r.2.toOption
  failures := results.filterMap fun r =>
    match r.2 with
    | .ok _ => none
    | .error e => some ⟨e.path, e.message⟩

/-- The lines about what went wrong with the files. -/
def fileErrors (registry : Registry TreeFormat) (paths : List Text) (report : Report) : Text :=
  (if paths.isEmpty then
    Outcome.line ["Warning: no files to extract (supported suffixes: ".toList,
      join ", " registry.suffixes, ")".toList]
  else [])
    ++ report.failures.flatMap fun f => Outcome.line ["Error: ".toList, f.error]

/-- Report the facts of the files for a path. -/
def extractAll (files : FileAccess m) (registry : Registry TreeFormat) (config : Config)
    (format : ReportFormat) (path : Text) (output : Option Text) (e : Entry Unit) :
    ExceptT Fault m Outcome := do
  let paths := sourcePaths registry config path e
  let report := Report.ofResults path (← extractFiles files registry config paths)
  let errors := fileErrors registry paths report
  let text := report.render false format
  let code := if report.failures.isEmpty then Outcome.success else Outcome.incomplete
  match output with
  | none => return { output := text, errors, result := .ok code }
  | some target =>
    match ← files.write target (String.ofList text).toUTF8.toList with
    | .ok () => return { errors, result := .ok code }
    | .error e => return { errors, result := .error (.file e) }

def runExtract (files : FileAccess m) (registry : Registry TreeFormat) (path format : Text)
    (config output : Option Text) : ExceptT Fault m Outcome := do
  match ReportFormat.ofName? format with
  | none =>
    let errors := Outcome.line ["Error: invalid format ".toList, quoted format,
      ", must be one of ".toList, join ", " (ReportFormat.names.map String.toList)]
    return { errors, result := .ok Outcome.refused }
  | some format =>
    match ← (loadConfig files config : m (Except CommandError Config)) with
    | .error e => return { result := .error e }
    | .ok config =>
      match ← files.look path with
      | .error e =>
        let errors := Outcome.line ["Error: cannot access path ".toList, quoted path, ": ".toList,
          e.message]
        return { errors, result := .ok Outcome.refused }
      | .ok e => extractAll files registry config format path output e

end DesignFacts

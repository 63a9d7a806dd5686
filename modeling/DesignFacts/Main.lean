import DesignFacts.Command.Run

/-!
# The command line

Runs a command on the real disk and prints its outcome.
-/

namespace DesignFacts

/-- The cause of a failed operation on the real disk. -/
def FileError.ofReal : IO.Error → FileError
  | .noFileOrDirectory .. => .notFound
  | .alreadyExists .. => .occupied
  | .inappropriateType _ code _ => if code == 21 then .isDirectory else .notDirectory
  | e => .other e.toString.toList

/-- Run an operation on the real disk. -/
def attempt {α : Type} (action : IO α) : IO (Except FileError α) := do
  try return .ok (← action)
  catch e => return .error (.ofReal e)

/-- What stands at a path of the real disk. -/
partial def outlineAt (path : String) : IO (Entry Unit) := do
  let place ← IO.FS.realPath path
  if (← place.metadata).type matches .dir then
    let entries ← (← place.readDir).toList.mapM fun e => do
      return (e.fileName.toList, ← outlineAt (path ++ "/" ++ e.fileName))
    return .directory entries
  else return .file ()

/-- The content of a file on the real disk. -/
def contentAt (path : String) : IO (List UInt8) := do
  return (← IO.FS.readBinFile path).toList

/-- Access to the real disk. -/
def realFiles : FileAccess IO where
  directory := do return (← IO.currentDir).toString.toList
  look path := attempt (outlineAt (String.ofList path))
  read path := attempt (contentAt (String.ofList path))
  write path content := attempt (IO.FS.writeBinFile (String.ofList path) ⟨content.toArray⟩)
  makeDirectories path := attempt (IO.FS.createDirAll (String.ofList path))

/-- How the command line is used. -/
def usageText : String :=
  "Usage: vhdl-facts [-v] extract PATH [-f FORMAT] [-c CONFIG] [-o OUTPUT]\n" ++
  "       vhdl-facts [-v] init [-o OUTPUT]\n"

/-- The text about wrong words on the command line. -/
def UsageError.message : UsageError → String
  | help => usageText
  | version => toolName ++ " " ++ toolVersion ++ "\n"
  | nothing => usageText
  | missingCommand => "error: a subcommand is required\n"
  | unknownCommand => "error: unrecognized subcommand\n"
  | missingPath => "error: a path is required\n"
  | unknownArgument => "error: unexpected argument\n"
  | missingValue => "error: a value is required\n"
  | surplusValue => "error: unexpected value\n"
  | repeated => "error: an argument cannot be used multiple times\n"

/-- Print what is said about the words on the command line, and give the exit code. -/
def reportUsage (e : UsageError) : IO UInt32 := do
  if e == .help || e == .version then
    IO.print e.message
    return 0
  else
    IO.eprint e.message
    return 2

/-- Print the outcome of a command, and give the exit code. -/
def reportOutcome (o : Outcome) : IO UInt32 := do
  IO.eprint (String.ofList o.errors)
  IO.print (String.ofList o.output)
  match o.result with
  | .ok code => return UInt32.ofNat code
  | .error e =>
    IO.eprintln ("Error: " ++ String.ofList e.message)
    return 2

end DesignFacts

open DesignFacts in
/-- Run the words of the command line. -/
def main (words : List String) : IO UInt32 := do
  match Invocation.ofWords (words.map String.toList) with
  | .error e => reportUsage e
  | .ok i =>
    match ← (i.command.run realFiles .standard).run with
    | .ok outcome => reportOutcome outcome
    | .error _ =>
      IO.eprintln "Error: a number is out of range"
      return 101

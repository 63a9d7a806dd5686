import DesignFacts.Disk.Entry
import DesignFacts.Disk.Error

/-!
# Disks in memory

A disk is the directory in which a command works. A path is followed step by step from there, and
every step but the last has to lead to a directory. A path with a null character, a path of 4096
bytes and a name of more than 255 bytes lead nowhere.
-/

namespace DesignFacts

/-- The working directory with all that is in it. -/
abbrev Disk := Entry (List UInt8)

namespace Disk

/-- The directory without entries. -/
def empty : Disk := .directory []

/-- The longest path, in bytes. -/
def longestPath : Nat := 4095

/-- The longest name, in bytes. -/
def longestName : Nat := 255

/-- Refuse a path that cannot be followed, whatever is on the disk. -/
def checkPath (path : Text) : Except FileError Unit :=
  if path.contains '\x00' then .error .nullInPath
  else if longestPath < Text.bytes path then .error .tooLong
  else .ok ()

/-- Refuse a name that no entry can have. -/
def checkName (name : Text) : Except FileError Unit :=
  if longestName < Text.bytes name then .error .tooLong else .ok ()

/-- One step from the directory below `names`. The disk has no root above the working directory. -/
def step (d : Disk) (names : List Text) (part : Path.Part) : Except FileError (List Text) :=
  match d.at? names with
  | none => .error .notFound
  | some (.file _) => .error .notDirectory
  | some (.directory entries) =>
    match part with
    | .root => .error .notFound
    | .here => .ok names
    | .up => .ok names.dropLast
    | .name t => do
      checkName t
      if entries.any fun e => e.1 == t then return names ++ [t] else throw .notFound

/-- Where some steps lead. -/
def follow (d : Disk) (parts : List Path.Part) : Except FileError (List Text) :=
  parts.foldlM d.step []

/-- Whether a path is written as that of a directory. -/
def endsInSlash (path : Text) : Bool := Text.endsWith path "/"

/-- What stands at a path. -/
def look (d : Disk) (path : Text) : Except FileError Disk := do
  checkPath path
  if path.isEmpty then throw .notFound
  let names ← d.follow (Path.steps path ++ if endsInSlash path then [.here] else [])
  match d.at? names with
  | some e => return e
  | none => throw .notFound

/-- The content of the file at a path. -/
def read (d : Disk) (path : Text) : Except FileError (List UInt8) := do
  match ← d.look path with
  | .file content => return content
  | .directory _ => throw .isDirectory

/-- The disk after a file is written. -/
def write (d : Disk) (path : Text) (content : List UInt8) : Except FileError Disk := do
  checkPath path
  let parts := Path.steps path
  match parts.getLast? with
  | none => throw .notFound
  | some (.name t) =>
    let names ← d.follow (parts.dropLast ++ [.here])
    if endsInSlash path then throw .isDirectory
    checkName t
    if (d.at? (names ++ [t])).any (·.isDirectory) then throw .isDirectory
    return d.put (names ++ [t]) (.file content)
  | some _ =>
    let _ ← d.follow parts
    throw .isDirectory

/-- The disk after a directory is made. -/
def makeDirectory (d : Disk) (parts : List Path.Part) : Except FileError Disk := do
  match parts.getLast? with
  | some (.name t) =>
    let names ← d.follow (parts.dropLast ++ [.here])
    checkName t
    if (d.at? (names ++ [t])).isSome then throw .occupied
    return d.put (names ++ [t]) (.directory [])
  | _ =>
    let _ ← d.follow parts
    throw .occupied

/-- Whether some steps lead to a directory. -/
def hasDirectory (d : Disk) (parts : List Path.Part) : Bool :=
  match d.follow (parts ++ [.here]) with
  | .ok _ => true
  | .error _ => false

/-- The disk after a directory is made, unless it is there. -/
def ensureDirectory (d : Disk) (parts : List Path.Part) : Except FileError Disk :=
  match d.makeDirectory parts with
  | .ok d => .ok d
  | .error e => if d.hasDirectory parts then .ok d else .error e

/-- The disk after a directory and all above it are made, the last part given first. -/
def makeAll (d : Disk) : List Path.Part → Except FileError Disk
  | [] => .ok d
  | part :: above =>
    match d.ensureDirectory (part :: above).reverse with
    | .error .notFound => do (← d.makeAll above).ensureDirectory (part :: above).reverse
    | result => result

/-- The disk after a directory and all above it are made. -/
def makeDirectories (d : Disk) (path : Text) : Except FileError Disk := do
  checkPath path
  d.makeAll (Path.parts path).reverse

/-- The disk with a file at a path and all directories above it, where that can be. A path with a
slash at its end is that of a directory. -/
def add (d : Disk) (path : Text) (content : List UInt8) : Disk :=
  if endsInSlash path then (d.makeDirectories path).toOption.getD d
  else
    let made := (d.makeDirectories ((Path.parent? path).getD [])).toOption.getD d
    (made.write path content).toOption.getD made

/-- The files of a disk that an earlier state of it did not hold in this form. -/
def changesSince (d old : Disk) : List (Text × List UInt8) :=
  let before := old.allFiles []
  (d.allFiles []).filter fun f => !before.contains f

end Disk

end DesignFacts

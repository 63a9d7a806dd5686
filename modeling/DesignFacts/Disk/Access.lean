import DesignFacts.Disk.Basic

/-!
# Access to files

What a command can do with files, whether they stand on a disk in memory or on a real one.
-/

namespace DesignFacts

/-- The file operations of a command. -/
structure FileAccess (m : Type → Type) where
  /-- The full path of the working directory. -/
  directory : m Text
  /-- What stands at a path, without the contents of files. -/
  look : Text → m (Except FileError (Entry Unit))
  /-- The content of a file. -/
  read : Text → m (Except FileError (List UInt8))
  /-- Write a file. -/
  write : Text → List UInt8 → m (Except FileError Unit)
  /-- Make a directory and all above it. -/
  makeDirectories : Text → m (Except FileError Unit)

/-- Change a disk, unless the change fails. -/
def Disk.change (f : Disk → Except FileError Disk) : StateM Disk (Except FileError Unit) := fun d =>
  match f d with
  | .ok d => (.ok (), d)
  | .error e => (.error e, d)

/-- Access to a disk in memory whose full path is known. -/
def Disk.access (directory : Text) : FileAccess (StateM Disk) where
  directory := pure directory
  look path := fun d => ((d.look path).map Entry.outline, d)
  read path := fun d => (d.read path, d)
  write path content := Disk.change fun d => d.write path content
  makeDirectories path := Disk.change fun d => d.makeDirectories path

end DesignFacts

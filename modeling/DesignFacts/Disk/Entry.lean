import DesignFacts.Path.Basic

/-!
# Files and directories

What stands at a place of a disk: a file with its content, or a directory of named entries. Files
below a directory are collected by their paths; hidden directories are passed over.
-/

namespace DesignFacts

open Text

/-- A file or a directory. -/
inductive Entry (α : Type) where
  | file (content : α)
  | directory (entries : List (Text × Entry α))

namespace Entry

variable {α : Type}

def isDirectory : Entry α → Bool
  | file _ => false
  | directory _ => true

/-- An entry of a directory by its name. -/
def child? (e : Entry α) (name : Text) : Option (Entry α) :=
  match e with
  | file _ => none
  | directory entries => (entries.find? fun x => x.1 == name).map (·.2)

/-- The entry below a list of names. -/
def at? : List Text → Entry α → Option (Entry α)
  | [], e => some e
  | name :: names, e => (e.child? name).bind (at? names)

/-- A directory with an entry under a name, in place of one that was there. -/
def withChild (e : Entry α) (name : Text) (new : Entry α) : Entry α :=
  match e with
  | file content => file content
  | directory entries =>
    if entries.any fun x => x.1 == name then
      directory (entries.map fun x => if x.1 == name then (name, new) else x)
    else directory (entries ++ [(name, new)])

/-- Put an entry below a list of names. Its directory has to be there. -/
def put : List Text → Entry α → Entry α → Entry α
  | [], _, new => new
  | name :: names, e, new =>
    match e.child? name with
    | some c => e.withChild name (put names c new)
    | none => if names.isEmpty then e.withChild name new else e

mutual

/-- The files at and below an entry that stands at a path, hidden directories apart. -/
def filesBelow (path : Text) : Entry α → List (Text × α)
  | file content => [(path, content)]
  | directory entries => filesAmong path entries

/-- The files at and below the entries of the directory at a path. -/
def filesAmong (path : Text) : List (Text × Entry α) → List (Text × α)
  | [] => []
  | (name, e) :: rest =>
    (if e.isDirectory && startsWith name "." then [] else filesBelow (Path.below path name) e)
      ++ filesAmong path rest

end

mutual

/-- All files at and below an entry that stands at a path. -/
def allFiles (path : Text) : Entry α → List (Text × α)
  | file content => [(path, content)]
  | directory entries => allFilesAmong path entries

/-- All files at and below the entries of the directory at a path. -/
def allFilesAmong (path : Text) : List (Text × Entry α) → List (Text × α)
  | [] => []
  | (name, e) :: rest => allFiles (Path.below path name) e ++ allFilesAmong path rest

end

mutual

/-- The entry without the contents of its files. -/
def outline : Entry α → Entry Unit
  | file _ => file ()
  | directory entries => directory (outlines entries)

/-- The entries of a directory without the contents of their files. -/
def outlines : List (Text × Entry α) → List (Text × Entry Unit)
  | [] => []
  | (name, e) :: rest => (name, e.outline) :: outlines rest

end

end Entry

end DesignFacts

import DesignFacts.Text.Basic

/-!
# Paths

A path is a text with slashes. Its parts are what counts when paths are compared: repeated slashes
and dots in the middle add nothing. Paths are ordered part by part, so that a directory and all
below it stay together.
-/

namespace DesignFacts.Path

open Text

/-- A part of a path: the root, the current directory, the directory above, or a name. -/
inductive Part where
  | root
  | here
  | up
  | name (t : Text)
  deriving DecidableEq

/-- The part that a text between slashes stands for. -/
def Part.ofText (t : Text) : Part :=
  if t == ['.'] then .here else if t == ['.', '.'] then .up else .name t

def Part.text : Part → Text
  | root => []
  | here => ['.']
  | up => ['.', '.']
  | name t => t

/-- The texts between the slashes of a path. -/
def pieces (path : Text) : List Text := (splitOn '/' path).filter fun t => !t.isEmpty

/-- The steps from the current directory to a path, one after another. -/
def steps (path : Text) : List Part :=
  (if startsWith path "/" then [.root] else []) ++ (pieces path).map Part.ofText

/-- The parts of a path. A dot counts only at the start. -/
def parts (path : Text) : List Part :=
  match steps path with
  | [] => []
  | first :: rest => first :: rest.filter (· != .here)

/-- The name at the end of a path. -/
def fileName? (path : Text) : Option Text :=
  match (parts path).getLast? with
  | some (.name t) => some t
  | _ => none

def parent? (path : Text) : Option Text :=
  match (parts path).getLast? with
  | none => none
  | some .root => none
  | some _ =>
    match (parts path).dropLast with
    | [.root] => some ['/']
    | above => some (join "/" (above.map Part.text))

/-- A name below a directory. -/
def below (directory name : Text) : Text :=
  if directory.isEmpty || endsWith directory "/" then directory ++ name
  else directory ++ '/' :: name

/-! ## Order -/

/-- The rank of a part among parts of other kinds. -/
def Part.rank : Part → Nat
  | root => 0
  | here => 1
  | up => 2
  | name _ => 3

/-- Whether one part comes before another. -/
def Part.before (a b : Part) : Bool :=
  match a, b with
  | .name s, .name t => precedes s t
  | a, b => a.rank < b.rank

/-- Whether one list of parts comes before another. -/
def partsBefore : List Part → List Part → Bool
  | _, [] => false
  | [], _ :: _ => true
  | a :: as, b :: bs => a.before b || (a == b && partsBefore as bs)

/-- Whether one path comes before another. -/
def before (a b : Text) : Bool := partsBefore (parts a) (parts b)

/-- Things in the order of their paths. Things with equal paths keep their order. -/
def sortBy {α : Type} (path : α → Text) (xs : List α) : List α :=
  xs.mergeSort fun a b => !before (path b) (path a)

end DesignFacts.Path

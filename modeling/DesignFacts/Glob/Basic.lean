import DesignFacts.Text.Basic

/-!
# Path patterns

A pattern over whole paths. `?` and `*` stand for one byte and for any bytes, slashes included;
`[…]` for one of some bytes; `{a,b}` for one of some patterns; a backslash takes the next character
as it is. Two stars span directories where they fill the place between slashes: `**/` at the start,
`/**` at the end and `/**/` in between. Anywhere else they are two single stars.
-/

namespace DesignFacts.Glob

/-- A part of a pattern. -/
inductive Token where
  | literal (c : Char)
  | any
  | zeroOrMore
  | leadingDirectories
  | everythingBelow
  | innerDirectories
  | charClass (negated : Bool) (ranges : List (Char × Char))
  | alternates (branches : List (List Token))

/-- Why a text is no pattern. -/
inductive Error where
  | unclosedClass
  | invalidRange (first last : Char)
  | unclosedGroup
  | unopenedGroup
  | danglingEscape
  deriving DecidableEq

def Error.message : Error → Text
  | unclosedClass => "unclosed character class; missing ']'".toList
  | invalidRange first last =>
    "invalid range; '".toList ++ first :: "' > '".toList ++ last :: "'".toList
  | unclosedGroup =>
    "unclosed alternate group; missing '\x7d' (maybe escape '\x7b' with '[\x7b]'?)".toList
  | unopenedGroup =>
    "unopened alternate group; missing '\x7b' (maybe escape '\x7d' with '[\x7d]'?)".toList
  | danglingEscape => "dangling '\\'".toList

/-! ## Reading -/

/-- A group of alternatives that is open: the ones that are complete, and the tokens before it. -/
structure Group where
  done : List (List Token)
  before : List Token

/-- What is read so far: the tokens of the branch that is open, and the groups around it. -/
structure Reading where
  current : List Token := []
  groups : List Group := []

namespace Reading

/-- Add a token to the open branch. -/
def push (r : Reading) (t : Token) : Reading := { r with current := r.current ++ [t] }

def openGroup (r : Reading) : Reading := { current := [], groups := ⟨[], r.current⟩ :: r.groups }

/-- Close the innermost group. -/
def closeGroup (r : Reading) : Except Error Reading :=
  match r.groups with
  | [] => .error .unopenedGroup
  | g :: gs => .ok { current := g.before ++ [.alternates (g.done ++ [r.current])], groups := gs }

/-- A comma: the next alternative, or a plain comma outside all groups. -/
def comma (r : Reading) : Reading :=
  match r.groups with
  | [] => r.push (.literal ',')
  | g :: gs => { current := [], groups := { g with done := g.done ++ [r.current] } :: gs }

/-- Two single stars. -/
def plainStars (r : Reading) : Reading := (r.push .zeroOrMore).push .zeroOrMore

/-- Put a token in the place of the last one, unless that spans directories up to here already. -/
def span (r : Reading) (t : Token) : Reading :=
  match r.current.getLast? with
  | some .leadingDirectories | some .everythingBelow => r
  | _ => { r with current := r.current.dropLast ++ [t] }

/-- Whether two stars that come after a character and tokens of their branch can span
directories. -/
def canSpan (r : Reading) (previous : Option Char) : Bool :=
  previous == some '/' || (!r.groups.isEmpty && (previous == some ',' || previous == some '{'))

/-- Two stars between a previous and a next character. The result says whether the next character,
a slash, belongs to them. -/
def twoStars (r : Reading) (previous next : Option Char) : Reading × Bool :=
  if r.current.isEmpty then
    match next with
    | none => (r.push .leadingDirectories, false)
    | some '/' => (r.push .leadingDirectories, true)
    | some _ => (r.plainStars, false)
  else if r.canSpan previous then
    match next with
    | none => (r.span .everythingBelow, false)
    | some '/' => (r.span .innerDirectories, true)
    | some c =>
      if !r.groups.isEmpty && (c == ',' || c == '}') then (r.span .everythingBelow, false)
      else (r.plainStars, false)
  else (r.plainStars, false)

end Reading

/-- The ranges of a class that is open, the last one first. -/
structure ClassReading where
  negated : Bool
  ranges : List (Char × Char) := []
  /-- Whether nothing was read yet. -/
  isFirst : Bool := true
  /-- Whether a dash waits for the end of a range. -/
  inRange : Bool := false

namespace ClassReading

def add (k : ClassReading) (c : Char) : Except Error ClassReading :=
  let next : ClassReading := { k with isFirst := false, inRange := false }
  if k.inRange then
    match k.ranges with
    | (first, _) :: rest =>
      if c.val < first.val then .error (.invalidRange first c)
      else .ok { next with ranges := (first, c) :: rest }
    | [] => .ok { next with ranges := [(c, c)] }
  else if c == '-' && !k.isFirst then .ok { k with inRange := true }
  else .ok { next with ranges := (c, c) :: k.ranges }

/-- The token of a class. A dash at its end stands for itself. -/
def token (k : ClassReading) : Token :=
  .charClass k.negated (if k.inRange then k.ranges.reverse ++ [('-', '-')] else k.ranges.reverse)

end ClassReading

mutual

/-- Read a pattern from a previous character on. -/
def readFrom (r : Reading) (previous : Option Char) : Text → Except Error Reading
  | [] => .ok r
  | '?' :: cs => readFrom (r.push .any) (some '?') cs
  | '*' :: '*' :: cs =>
    let (r', takesNext) := r.twoStars previous cs.head?
    if takesNext then
      match cs with
      | [] => .ok r'
      | c :: rest => readFrom r' (some c) rest
    else readFrom r' (some '*') cs
  | '*' :: cs => readFrom (r.push .zeroOrMore) (some '*') cs
  | '[' :: '!' :: cs => readClass r { negated := true } cs
  | '[' :: '^' :: cs => readClass r { negated := true } cs
  | '[' :: cs => readClass r { negated := false } cs
  | '{' :: cs => readFrom r.openGroup (some '{') cs
  | '}' :: cs =>
    match r.closeGroup with
    | .ok r' => readFrom r' (some '}') cs
    | .error e => .error e
  | ',' :: cs => readFrom r.comma (some ',') cs
  | ['\\'] => .error .danglingEscape
  | '\\' :: c :: cs => readFrom (r.push (.literal c)) (some c) cs
  | c :: cs => readFrom (r.push (.literal c)) (some c) cs

/-- Read a class to its end, then go on. -/
def readClass (r : Reading) (k : ClassReading) : Text → Except Error Reading
  | [] => .error .unclosedClass
  | c :: cs =>
    if c == ']' && !k.isFirst then readFrom (r.push k.token) (some ']') cs
    else match k.add c with
      | .ok k' => readClass r k' cs
      | .error e => .error e

end

/-- The tokens of a pattern. -/
def parse (t : Text) : Except Error (List Token) :=
  match readFrom {} none t with
  | .ok r => if r.groups.isEmpty then .ok r.current else .error .unclosedGroup
  | .error e => .error e

end DesignFacts.Glob

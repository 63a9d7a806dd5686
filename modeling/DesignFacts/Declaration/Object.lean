import DesignFacts.Fact.Object
import DesignFacts.Tree.Node

/-!
# Object declarations

Signals, constants, variables, ports, generics, parameters and record elements are all declared as
`names : [mode] type [:= default]`, with an object class possibly before the names. The parts are
found among the children of a declaration around its colon. If the grammar did not split it, they
are found in its text.
-/

namespace DesignFacts

open Text

structure ObjectDeclaration where
  /-- The declared names with their lines. -/
  names : List (Text × Nat) := []
  typeText : Text := []
  default : Option Text := none
  /-- The mode in small letters. -/
  mode : Option Text := none
  /-- The object class in small letters. -/
  objectClass : Option Text := none
  /-- Whether the objects are declared as shared. -/
  shared : Bool := false

namespace ObjectDeclaration

def modes : List String := ["in", "out", "inout", "buffer", "linkage"]

def classes : List String := ["signal", "constant", "variable", "file"]

/-- Whether a small-letter word is one of some words. -/
def oneOf (words : List String) (t : Text) : Bool := words.any (·.toList == t)

/-- The direction of a port or parameter: that of its mode, inward if none is written. -/
def direction (d : ObjectDeclaration) : Direction :=
  match d.mode.map Direction.ofText with
  | none | some .none => .input
  | some direction => direction

/-! ## Declarations in texts -/

/-- The first word of a text without blanks before it, and the rest. -/
def firstWord (t : Text) : Text × Text :=
  (t.takeWhile fun c => !isBlank c, t.dropWhile fun c => !isBlank c)

theorem length_firstWord_snd_lt {t : Text} (h : (firstWord t).1 ≠ []) :
    (trimStart (firstWord t).2).length < t.length := by
  have hsum : (firstWord t).1.length + (firstWord t).2.length = t.length := by
    rw [← List.length_append]
    simp [firstWord]
  have hpos := List.length_pos_iff.2 h
  have hle : (trimStart (firstWord t).2).length ≤ (firstWord t).2.length :=
    (List.dropWhile_suffix _).length_le
  omega

/-- What the words before the names of a declaration say. -/
structure Opening where
  /-- The last object class among them, in small letters. -/
  objectClass : Option Text := none
  /-- Whether `shared` is among them. -/
  shared : Bool := false

/-- Take the words that open a declaration, object classes and `shared`, from the front of a text:
what they say, added to what is known, and what follows them. -/
def openingWords (known : Opening) (t : Text) : Opening × Text :=
  let word := lower (firstWord t).1
  if _h : (firstWord t).1 = [] then (known, t)
  else if word == "shared".toList then
    openingWords { known with shared := true } (trimStart (firstWord t).2)
  else if oneOf classes word then
    openingWords { known with objectClass := some word } (trimStart (firstWord t).2)
  else (known, t)
termination_by t.length
decreasing_by all_goals exact length_firstWord_snd_lt _h

/-- Cut a text at the first colon that no equality sign follows. -/
def cutColon : Text → Option (Text × Text)
  | [] => none
  | c :: cs =>
    if c == ':' && cs.head? != some '=' then some ([], cs)
    else (cutColon cs).map fun (left, right) => (c :: left, right)

/-- The mode and type that stand between the colon and the default. -/
def modeAndType (t : Text) : Option Text × Text :=
  let (word, rest) := firstWord t
  if oneOf modes (lower word) then (some (lower word), squash rest) else (none, squash t)

def ofText (t : Text) (line : Nat) : ObjectDeclaration :=
  let (opening, body) := openingWords {} (trim (dropEnd (· == ';') (trim t)))
  match cutColon body with
  | none => { objectClass := opening.objectClass, shared := opening.shared }
  | some (names, after) =>
    let (typePart, default) := match cut ":=".toList (trim after) with
      | some (left, right) => (trim left, some (squash right))
      | none => (trim after, none)
    let (mode, typeText) := modeAndType typePart
    { names := (((splitOn ',' names).map trim).filter fun n => !n.isEmpty).map (·, line)
      typeText
      default := default.filter fun d => !d.isEmpty
      mode
      objectClass := opening.objectClass
      shared := opening.shared }

/-! ## Declarations in trees -/

/-- The object class that a child before the colon names. -/
def classWord? (c : Node) : Option Text :=
  if c.kind == .interfaceClass then some (lower c.trimmed)
  else if !c.named && oneOf classes (lower c.text) then some (lower c.text)
  else none

/-- The names, each with its line, among the children before the colon. -/
def namesIn (cs : List Node) : List (Text × Nat) :=
  (cs.filter (·.kind == .identifier)).map fun c => (c.trimmed, c.line)

/-- The mode and the nodes of the type, as far as they are known. -/
structure TypePart where
  mode : Option Text := none
  nodes : List Node := []

/-- Take one more child between the colon and the default into account. A mode written as a token
counts before the type begins; `bus`, `register` and semicolons belong to no part. -/
def TypePart.add (p : TypePart) (c : Node) : TypePart :=
  if c.kind == .mode then { p with mode := some (lower c.trimmed) }
  else if c.isComment then p
  else if c.named then { p with nodes := p.nodes ++ [c] }
  else
    let word := lower c.text
    if p.nodes.isEmpty && p.mode.isNone && oneOf modes word then { p with mode := some word }
    else if oneOf [";", "bus", "register"] word then p
    else { p with nodes := p.nodes ++ [c] }

/-- The declaration of a node with the children before and after its colon. -/
def ofParts (n : Node) (front back : List Node) : ObjectDeclaration :=
  let (middle, value) := (Node.splitAt? (·.isToken ":=") back).getD (back, [])
  let part := middle.foldl TypePart.add {}
  let under (field : String) : Option Text := (n.childUnder field).map fun c => lower c.trimmed
  let textUnder (field : String) : Option Text := (n.childUnder field).map fun c => squash c.text
  { names := namesIn front
    typeText := ((textUnder "type").or (Node.spanText part.nodes)).getD []
    default := (textUnder "default").or (Node.spanText (value.filter fun c => !c.isToken ";"))
    mode := (under "direction").or part.mode
    objectClass := (under "class").or (front.filterMap classWord?).getLast?
    shared := front.any (·.isToken "shared") }

def ofNode (n : Node) : ObjectDeclaration :=
  match Node.splitAt? (·.isToken ":") n.children with
  | some (front, back) => ofParts n front back
  | none => ofText n.text n.line

/-- Whether the declaration of a node needs a far line: that of a name before its colon, or its own
if the grammar did not split it. -/
def needsFarLine (n : Node) : Bool :=
  match Node.splitAt? (·.isToken ":") n.children with
  | some (front, _) => front.any fun c => c.kind == .identifier && c.isFar
  | none => n.isFar

end ObjectDeclaration

end DesignFacts

import DesignFacts.Fact.Object

/-!
# Types in texts

What a type definition defines, judged by its text: the word it starts with, or a parenthesis for
an enumeration. The same rules read ranges `left to right` and `left downto right`.
-/

namespace DesignFacts

open Text

/-- The two sides of a range at a direction word, if neither is empty. -/
def rangeAt? (direction : String) (t : Text) : Option (Text × Text × Text) :=
  match cutWord direction t with
  | some (left, right) =>
    let left := squash left
    let right := squash right
    if left.isEmpty || right.isEmpty then none else some (left, right, direction.toList)
  | none => none

/-- The left side, right side and direction of a range; `downto` is looked for first. -/
def range? (t : Text) : Option (Text × Text × Text) :=
  (rangeAt? "downto" (trim t)).or (rangeAt? "to" (trim t))

namespace TypeKind

/-- The text of a definition without semicolons at its end. -/
def definitionText (t : Text) : Text := trim (dropEnd (· == ';') (trim t))

/-- An enumeration, from its text that starts with a parenthesis. -/
def enumerationOfText (t : Text) : TypeKind :=
  let inner := dropEnd (· == ')') (t.dropWhile (· == '('))
  .enumeration (((splitOn ',' inner).map trim).filter fun l => !l.isEmpty)

/-- What follows the first word `of`. -/
def afterOf (t : Text) : Text := ((cutWord "of" t).map fun (_, right) => squash right).getD []

/-- One index type of an array; of an unconstrained one only its type mark. -/
def indexType (t : Text) : Text :=
  let t := squash t
  match cutWord "range" t with
  | some (left, right) => if holds right "<>" then trim left else t
  | none => t

/-- The index types of an array: what stands in parentheses before the word `of`. -/
def indexTypes (t : Text) : List Text :=
  match (cutWord "of" t).bind fun (left, _) => cut ['('] left with
  | some (_, inner) =>
    ((splitTopLevel ',' (dropEnd (· == ')') (trim inner))).map indexType).filter
      fun i => !i.isEmpty
  | none => []

/-- The units that the body of a physical type declares. -/
def unitsOf (body : Text) : List Text :=
  let body := ((cutWord "end" body).map Prod.fst).getD body
  (splitOn ';' body).filterMap fun declaration =>
    (splitWith (fun c => isBlank c || c == '=') declaration).find? fun w => !w.isEmpty

/-- A physical type or a range, from its text that starts with `range`. -/
def rangeOfText (t : Text) : TypeKind :=
  match cutWord "units" t with
  | some (left, body) =>
    let range := squash (left.drop 5)
    .physical (if range.isEmpty then none else some range) (unitsOf body)
  | none =>
    let (low, high, direction) := (range? (t.drop 5)).getD ([], [], [])
    .range low high direction

/-- What a type definition defines, judged by its text. -/
def ofText (t : Text) : TypeKind :=
  let t := definitionText t
  let opens (word : String) : Bool := startsWith (lower t) word
  if t.head? == some '(' then enumerationOfText t
  else if opens "record" then .record []
  else if opens "array" then .array (afterOf t) (indexTypes t) (holds t "<>")
  else if opens "access" then .access (squash (t.drop 6))
  else if opens "file" then .file (afterOf t)
  else if opens "protected" then .protectedType (holdsWord t "body")
  else if opens "range" then rangeOfText t
  else .incomplete

end TypeKind

end DesignFacts

import DesignFacts.Yaml.Token

/-!
# Values

A document is a scalar, a list or a record of further values. A value that is not written is an
empty plain scalar.
-/

namespace DesignFacts.Yaml

/-- A value of a document. A scalar is plain if it stands without quotes. -/
inductive Value where
  | scalar (text : Text) (plain : Bool)
  | list (items : List Value)
  | record (entries : List (Value × Value))
  /-- A reference to a value around it. -/
  | enclosing

/-- The value of a place where none is written. -/
def Value.nothing : Value := .scalar [] true

/-- What is still to be read of a document. -/
structure Remaining where
  tokens : List Token
  /-- The handles that tags may have. -/
  handles : List Text := commonHandles
  /-- The values that can be referred to, the last one first. -/
  anchors : List (Text × Value) := []

namespace Remaining

/-- The same without its first token. -/
def next (r : Remaining) : Remaining := { r with tokens := r.tokens.drop 1 }

/-- Whether the next token is one of those that show that no value is written. -/
def startsWith (r : Remaining) (p : Token → Bool) : Bool := r.tokens.head?.any p

/-- Let a name stand for a value that begins here. -/
def openAnchor (r : Remaining) (name : Option Text) : Remaining :=
  { r with anchors := (name.map (·, .enclosing)).toList ++ r.anchors }

/-- Let a name stand for its value, which ends here; `outer` are the anchors before it. -/
def closeAnchor (r : Remaining) (name : Option Text) (outer : List (Text × Value)) (x : Value) :
    Remaining :=
  match name with
  | none => r
  | some name =>
    let inner := r.anchors.take (r.anchors.length - outer.length - 1)
    { r with anchors := inner ++ (name, x) :: outer }

end Remaining

/-- Whether a token comes after an item of a block list. -/
def Token.endsItem : Token → Bool
  | dash | blockEnd => true
  | _ => false

/-- Whether a token comes after an item of a list in the column of a key. -/
def Token.endsLooseItem : Token → Bool
  | dash | key | colon | blockEnd => true
  | _ => false

/-- Whether a token comes after a key or a value of a block record. -/
def Token.endsEntry : Token → Bool
  | key | colon | blockEnd => true
  | _ => false

/-- Whether a token comes after a value inside brackets. -/
def Token.endsFlow : Token → Bool
  | comma | listEnd => true
  | _ => false

/-- Whether a token comes after a value inside braces. -/
def Token.endsFlowEntry : Token → Bool
  | comma | recordEnd => true
  | _ => false

/-- Whether a token stands between documents. -/
def Token.isBetween : Token → Bool
  | directive _ | documentStart | documentEnd => true
  | _ => false

/-- What stands before a value. -/
structure Properties where
  anchor : Option Text := none
  hasTag : Bool := false

/-- Pass a tag with a known handle. -/
def tagNext? (r : Remaining) : Option (Bool × Remaining) :=
  match r.tokens with
  | .tag handle :: _ => if r.handles.contains handle then some (true, r.next) else none
  | _ => some (false, r)

def anchorNext (r : Remaining) : Option Text × Remaining :=
  match r.tokens with
  | .anchor name :: _ => (some name, r.next)
  | _ => (none, r)

/-- Pass what stands before a value: an anchor and a tag, in either order. -/
def properties? (r : Remaining) : Option (Properties × Remaining) := do
  match anchorNext r with
  | (some name, r) =>
    let (hasTag, r) ← tagNext? r
    return ({ anchor := some name, hasTag }, r)
  | (none, r) =>
    let (hasTag, r) ← tagNext? r
    let (anchor, r) := if hasTag then anchorNext r else (none, r)
    return ({ anchor, hasTag }, r)

mutual

/-- The value that comes next. `inBlock` says whether it may be a block, and `isLoose` whether a
list may stand in the column of its key. -/
def value : Nat → (inBlock isLoose : Bool) → Remaining → Option (Value × Remaining)
  | 0, _, _, _ => none
  | fuel + 1, inBlock, isLoose, r =>
    match r.tokens with
    | .reference name :: _ => (r.anchors.lookup name).map (·, r.next)
    | _ => do
      let (p, r) ← properties? r
      let isOptional := p.hasTag || p.anchor.isSome
      let (x, s) ← content fuel inBlock isLoose isOptional (r.openAnchor p.anchor)
      return (x, s.closeAnchor p.anchor r.anchors x)

/-- The value after its anchor and tag. With one of these it need not be written. -/
def content : Nat → (inBlock isLoose isOptional : Bool) → Remaining → Option (Value × Remaining)
  | 0, _, _, _, _ => none
  | fuel + 1, inBlock, isLoose, isOptional, r =>
    match r.tokens, inBlock, isLoose with
    | .dash :: _, _, true => (looseItems fuel r).map fun (xs, r) => (.list xs, r)
    | .scalar t plain :: _, _, _ => some (.scalar t plain, r.next)
    | .listStart :: _, _, _ => (flowItems fuel r.next).map fun (xs, r) => (.list xs, r)
    | .recordStart :: _, _, _ => (flowEntries fuel r.next).map fun (xs, r) => (.record xs, r)
    | .blockList :: _, true, _ => (blockItems fuel r.next).map fun (xs, r) => (.list xs, r)
    | .blockRecord :: _, true, _ => (blockEntries fuel r.next).map fun (xs, r) => (.record xs, r)
    | _, _, _ => if isOptional then some (.nothing, r) else none

/-- The value that comes next, unless a token of the given kind shows that none is written. -/
def optional : Nat → (inBlock isLoose : Bool) → (Token → Bool) → Remaining →
    Option (Value × Remaining)
  | 0, _, _, _, _ => none
  | fuel + 1, inBlock, isLoose, ends, r =>
    if r.startsWith ends then some (.nothing, r) else value fuel inBlock isLoose r

/-- The value after a colon, if there is a colon. -/
def afterColon : Nat → (inBlock isLoose : Bool) → (Token → Bool) → Remaining →
    Option (Value × Remaining)
  | 0, _, _, _, _ => none
  | fuel + 1, inBlock, isLoose, ends, r =>
    match r.tokens with
    | .colon :: _ => optional fuel inBlock isLoose ends r.next
    | _ => some (.nothing, r)

def blockItems : Nat → Remaining → Option (List Value × Remaining)
  | 0, _ => none
  | fuel + 1, r =>
    match r.tokens with
    | .dash :: _ => do
      let (x, r) ← optional fuel true false Token.endsItem r.next
      let (xs, r) ← blockItems fuel r
      return (x :: xs, r)
    | .blockEnd :: _ => some ([], r.next)
    | _ => none

/-- The items of a list in the column of its key. -/
def looseItems : Nat → Remaining → Option (List Value × Remaining)
  | 0, _ => none
  | fuel + 1, r =>
    match r.tokens with
    | .dash :: _ => do
      let (x, r) ← optional fuel true false Token.endsLooseItem r.next
      let (xs, r) ← looseItems fuel r
      return (x :: xs, r)
    | _ => some ([], r)

def blockEntries : Nat → Remaining → Option (List (Value × Value) × Remaining)
  | 0, _ => none
  | fuel + 1, r =>
    match r.tokens with
    | .key :: _ => do
      let (k, r) ← optional fuel true true Token.endsEntry r.next
      let (x, r) ← afterColon fuel true true Token.endsEntry r
      let (xs, r) ← blockEntries fuel r
      return ((k, x) :: xs, r)
    | .blockEnd :: _ => some ([], r.next)
    | _ => none

/-- The items up to the closing bracket. An item with a key is a record of one entry. -/
def flowItems : Nat → Remaining → Option (List Value × Remaining)
  | 0, _ => none
  | fuel + 1, r =>
    match r.tokens with
    | .listEnd :: _ => some ([], r.next)
    | _ => do
      let (x, r) ← flowItem fuel r
      match r.tokens with
      | .comma :: _ =>
        let (xs, r) ← flowItems fuel r.next
        return (x :: xs, r)
      | .listEnd :: _ => return ([x], r.next)
      | _ => none

/-- An item inside brackets. A token that shows that a key is missing is passed. -/
def flowItem : Nat → Remaining → Option (Value × Remaining)
  | 0, _ => none
  | fuel + 1, r =>
    match r.tokens with
    | .key :: t :: _ => do
      let isMissing := t.endsFlow || t matches .colon
      let (k, r) ← if isMissing then some (.nothing, r.next.next) else value fuel false false r.next
      let (x, r) ← afterColon fuel false false Token.endsFlow r
      return (.record [(k, x)], r)
    | _ => value fuel false false r

/-- The entries up to the closing brace. A value without a key token is a key with no value. -/
def flowEntries : Nat → Remaining → Option (List (Value × Value) × Remaining)
  | 0, _ => none
  | fuel + 1, r =>
    match r.tokens with
    | .recordEnd :: _ => some ([], r.next)
    | _ => do
      let (k, x, r) ← flowEntry fuel r
      match r.tokens with
      | .comma :: _ =>
        let (xs, r) ← flowEntries fuel r.next
        return ((k, x) :: xs, r)
      | .recordEnd :: _ => return ([(k, x)], r.next)
      | _ => none

/-- An entry inside braces. -/
def flowEntry : Nat → Remaining → Option (Value × Value × Remaining)
  | 0, _ => none
  | fuel + 1, r =>
    match r.tokens with
    | .key :: _ => do
      let (k, r) ← optional fuel false false (fun t => t.endsFlowEntry || t matches .colon) r.next
      let (x, r) ← afterColon fuel false false Token.endsFlowEntry r
      return (k, x, r)
    | _ => do
      let (k, r) ← value fuel false false r
      return (k, .nothing, r)

end

/-! ## Documents -/

/-- The directives at the start of some tokens, and the tokens after them. -/
def directivesOf : List Token → List Directive × List Token
  | .directive d :: ts =>
    let (ds, rest) := directivesOf ts
    (d :: ds, rest)
  | ts => ([], ts)

/-- The value of the first document, and the tokens after it. A document with directives has a mark
before it. -/
def document? (ts : List Token) : Option (Value × List Token) := do
  let fuel := 8 * ts.length + 8
  let (ds, rest) := directivesOf ts
  let handles := commonHandles ++ (← Directive.handles? ds)
  match rest, ds with
  | .documentStart :: rest, _ =>
    if rest.head?.all Token.isBetween then return (.nothing, rest)
    let (x, r) ← value fuel true false { tokens := rest, handles }
    return (x, r.tokens)
  | [], [] => return (.nothing, [])
  | rest, [] =>
    let (x, r) ← value fuel true false { tokens := rest, handles }
    return (x, r.tokens)
  | _, _ => none

/-- The value of the only document of a text. -/
def read (text : Text) : Option Value := do
  if !text.all isAllowed then none
  let (x, rest) ← document? (← tokens? (unifyBreaks text))
  if rest.all (· matches .documentEnd) then return x else none

end DesignFacts.Yaml

import DesignFacts.Sexp.Token

/-!
# Items of the s-expression form

An item is a token or a list `(kind item ...)`, either of them stored under a field if a name and
a colon stand before it. Reading keeps the lists that are still open on a stack, so it goes once
through the tokens from left to right. If several field names stand before an item, the first one
counts. The atom after an opening parenthesis is always the kind of the list.
-/

namespace DesignFacts.Sexp

/-- An item: a token, or a list of items with a kind. -/
inductive Item where
  | token (field : Option Text) (text : Text)
  | list (field : Option Text) (kind : Text) (items : List Item)

namespace Item

/-- Whether an item is a token that no field holds. -/
def isPlainToken : Item → Bool
  | token none _ => true
  | _ => false

def tokenText? : Item → Option Text
  | token _ text => some text
  | list _ _ _ => none

end Item

/-- The field that an atom names, if it is a name followed by a colon. -/
def fieldOfAtom? (a : Text) : Option Text :=
  match a.reverse with
  | ':' :: read => if isFieldName read.reverse then some read.reverse else none
  | _ => none

/-- A list that is still open: its items so far are kept backward. -/
structure Frame where
  field : Option Text
  kind : Text
  items : List Item

/-- The list that a frame becomes when it is closed. -/
def Frame.close (f : Frame) : Item := .list f.field f.kind f.items.reverse

/-- Put a complete item into the innermost open list; `none` outside all lists. -/
def deliver (item : Item) : List Frame → Option (List Frame)
  | frame :: outer => some ({ frame with items := item :: frame.items } :: outer)
  | [] => none

/-- Read tokens with the given lists open and, possibly, a field name waiting for its item, up to
the end of the outermost item. `last` is the offset at which an early end is reported. -/
def read (last : Nat) (stack : List Frame) (field : Option Text) :
    List Token → Except Error (Item × List Token)
  | [] => .error ⟨last, .unexpectedEnd⟩
  | ⟨.openParen, _⟩ :: [] => .error ⟨last, .unexpectedEnd⟩
  | ⟨.openParen, _⟩ :: ⟨.atom kind, _⟩ :: rest => read last (⟨field, kind, []⟩ :: stack) none rest
  | ⟨.openParen, _⟩ :: t :: _ => .error ⟨t.offset, .kindExpected⟩
  | ⟨.closeParen, offset⟩ :: rest =>
    match field, stack with
    | none, frame :: outer =>
      match deliver frame.close outer with
      | some stack => read last stack none rest
      | none => .ok (frame.close, rest)
    | _, _ => .error ⟨offset, .unbalanced⟩
  | ⟨.atom a, _⟩ :: rest =>
    match fieldOfAtom? a with
    | some name => read last stack (some (field.getD name)) rest
    | none =>
      match deliver (.token field a) stack with
      | some stack => read last stack none rest
      | none => .ok (.token field a, rest)
  | ⟨.string s, _⟩ :: rest =>
    match deliver (.token field s) stack with
    | some stack => read last stack none rest
    | none => .ok (.token field s, rest)

/-- The first item that a token sequence spells, and the tokens after it. -/
def readFirst (tokens : List Token) : Except Error (Item × List Token) :=
  read ((tokens.getLast?.map Token.offset).getD 0) [] none tokens

/-- The item that a whole token sequence spells. It has to be a list with nothing after it. -/
def readItem (tokens : List Token) : Except Error Item := do
  match ← readFirst tokens with
  | (_, t :: _) => .error ⟨t.offset, .trailingInput⟩
  | (.token .., []) => .error ⟨0, .rootNotList⟩
  | (.list field kind items, []) => .ok (.list field kind items)

end DesignFacts.Sexp

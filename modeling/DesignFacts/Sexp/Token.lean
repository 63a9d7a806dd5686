import DesignFacts.Fault
import DesignFacts.Text.Basic

/-!
# Tokens of the s-expression form

The written form of a tree is made of parentheses, strings in double quotes and atoms, with
blanks and line comments (`// ...`) between them. In a string a backslash stands before a
character that is meant as it is. An atom runs to the next blank, parenthesis or quote, except
that the name of a field ends right after its colon.

Reading goes over the bytes of the text. In comments and atoms it moves byte by byte, in strings by
whole characters. What it takes from the text it takes as slices between two byte offsets, and a
slice that cuts a character is a failure. It is the only one besides a string that nothing closes.
-/

namespace DesignFacts.Sexp

open Text

inductive TokenKind where
  | openParen
  | closeParen
  | atom (text : Text)
  | string (text : Text)
  deriving DecidableEq

/-- A token and the byte offset at which it starts. -/
structure Token where
  kind : TokenKind
  offset : Nat
  deriving DecidableEq

/-- Why a written form is refused. -/
inductive Fault where
  /-- A slice of the text begins or ends inside a character. -/
  | cutCharacter
  | unterminatedString
  | unexpectedEnd
  | kindExpected
  | unbalanced
  | trailingInput
  | rootNotList
  deriving DecidableEq

/-- A refused written form: the reason, and the byte offset it is reported at. -/
structure Error where
  offset : Nat
  fault : Fault
  deriving DecidableEq

/-- The wording of a fault. -/
def Fault.wording : Fault → String
  | cutCharacter => "byte index is not a char boundary"
  | unterminatedString => "unterminated string"
  | unexpectedEnd => "unexpected end of input"
  | kindExpected => "expected node kind after '('"
  | unbalanced => "unbalanced ')'"
  | trailingInput => "trailing input after root node"
  | rootNotList => "root must be a list"

def Error.message (e : Error) : String :=
  s!"s-expression error at byte {e.offset}: " ++ e.fault.wording

/-! ## Character classes -/

/-- The blanks of the written form. -/
def isSpace (c : Char) : Bool := c == ' ' || c == '\t' || c == '\r' || c == '\n'

/-- Whether a character ends an atom. -/
def isDelimiter (c : Char) : Bool := isSpace c || c == '(' || c == ')' || c == '"'

/-- Whether a text can be the name of a field: a letter or underscore, then letters, digits and
underscores. -/
def isFieldName : Text → Bool
  | [] => false
  | c :: cs => (c.isAlpha || c == '_') && cs.all Text.isIdent

/-! ## The scanner -/

/-- A text that is read, and its bytes. -/
structure Input where
  text : Text
  octets : Array UInt8

def Input.ofText (text : Text) : Input := ⟨text, (textBytes text).toArray⟩

namespace Input

variable (input : Input)

/-- There is a byte at an offset, and the character with its number is in the class. -/
def byteIs (p : Char → Bool) (i : Nat) : Bool := input.octets[i]?.any fun b => p (Char.ofUInt8 b)

/-- The piece of the text between two offsets. -/
def slice (start stop : Nat) : Except Error Text :=
  match slice? start stop input.text with
  | some piece => .ok piece
  | none => .error ⟨start, .cutCharacter⟩

/-- The character at an offset, if there is one. -/
def charAt? (i : Nat) : Except Error (Option Char) := do
  return (← input.slice i input.octets.size).head?

/-- Go on to the end of the line. -/
def lineEnd (i : Nat) : Nat :=
  if i < input.octets.size && !input.byteIs (· == '\n') i then lineEnd (i + 1) else i
termination_by input.octets.size - i
decreasing_by simp_all; omega

/-- Read a string that starts at `start` from an offset inside it on. The result is its text, of
which `read` is read already and kept backward, and the offset behind its closing quote. -/
def readString (start i : Nat) (read : Text) : Except Error (Text × Nat) := do
  if i < input.octets.size then
    if input.byteIs (· == '\\') i && i + 1 < input.octets.size then
      match ← input.charAt? (i + 1) with
      | some c => readString start (i + 1 + c.utf8Size) (c :: read)
      | none => throw ⟨start, .unterminatedString⟩
    else if input.byteIs (· == '"') i then return (read.reverse, i + 1)
    else
      match ← input.charAt? i with
      | some c => readString start (i + c.utf8Size) (c :: read)
      | none => throw ⟨start, .unterminatedString⟩
  else throw ⟨start, .unterminatedString⟩
termination_by input.octets.size - i
decreasing_by
  · omega
  · have := c.utf8Size_pos
    omega

/-- Go on to the end of the atom that starts at `start`. -/
def atomEnd (start i : Nat) : Except Error Nat := do
  if i < input.octets.size then
    if input.byteIs isDelimiter i then return i
    else if input.byteIs (· == ':') i && start < i then
      -- The name of a field ends right after its colon.
      if isFieldName (← input.slice start i) then return i + 1 else atomEnd start (i + 1)
    else atomEnd start (i + 1)
  else return i
termination_by input.octets.size - i

/-- Read an atom. The result is its text and the offset behind it. -/
def readAtom (start : Nat) : Except Error (Text × Nat) := do
  let stop ← input.atomEnd start start
  return (← input.slice start stop, stop)

/-! The loops go on, so the scanner comes to an end. -/

theorem byteIs_isDelimiter (i : Nat) :
    input.byteIs isDelimiter i = (input.byteIs isSpace i || input.byteIs (· == '(') i ||
      input.byteIs (· == ')') i || input.byteIs (· == '"') i) := by
  unfold byteIs
  cases input.octets[i]? <;> rfl

theorem le_lineEnd (i : Nat) : i ≤ input.lineEnd i := by
  fun_induction lineEnd input i with
  | case1 i _ ih => exact Nat.le_of_succ_le ih
  | case2 i _ => exact Nat.le_refl i

theorem lt_lineEnd {i : Nat} (hi : i < input.octets.size)
    (hslash : input.byteIs (· == '/') i = true) : i < input.lineEnd i := by
  have hline : input.byteIs (· == '\n') i = false := by
    obtain ⟨b, hb, hc⟩ := (Option.any_eq_true _ _).1 hslash
    rw [byteIs, hb, Option.any_some, beq_iff_eq.1 hc]
    decide
  rw [lineEnd, if_pos (by simp [hi, hline])]
  exact input.le_lineEnd (i + 1)

theorem lt_of_readString {start i next : Nat} {read text : Text}
    (h : input.readString start i read = .ok (text, next)) : i < next := by
  fun_induction readString input start i read with
  | case1 i read _ _ ih =>
    obtain ⟨c?, -, h⟩ := bind_eq_ok_iff.1 h
    cases c? with
    | none => cases h
    | some c => exact Nat.lt_of_le_of_lt (by omega) (ih c h)
  | case2 i read =>
    cases h
    exact Nat.lt_succ_self i
  | case3 i read _ _ _ ih =>
    obtain ⟨c?, -, h⟩ := bind_eq_ok_iff.1 h
    cases c? with
    | none => cases h
    | some c => exact Nat.lt_of_le_of_lt (Nat.le_add_right i _) (ih c h)
  | case4 => cases h

theorem le_of_atomEnd {start i stop : Nat} (h : input.atomEnd start i = .ok stop) : i ≤ stop := by
  fun_induction atomEnd input start i with
  | case1 i => exact Nat.le_of_eq (Except.ok.inj h)
  | case2 i _ _ _ ih =>
    obtain ⟨name, -, h⟩ := bind_eq_ok_iff.1 h
    split at h
    · exact Nat.le_of_succ_le (Nat.le_of_eq (Except.ok.inj h))
    · exact Nat.le_of_succ_le (ih h)
  | case3 i _ _ _ ih => exact Nat.le_of_succ_le (ih h)
  | case4 i => exact Nat.le_of_eq (Except.ok.inj h)

theorem lt_of_readAtom {start next : Nat} {text : Text} (hstart : start < input.octets.size)
    (hdelimiter : ¬ input.byteIs isDelimiter start = true)
    (h : input.readAtom start = .ok (text, next)) : start < next := by
  obtain ⟨stop, hstop, h⟩ := bind_eq_ok_iff.1 h
  obtain ⟨piece, -, h⟩ := bind_eq_ok_iff.1 h
  cases h
  rw [atomEnd, if_pos hstart, if_neg hdelimiter, if_neg (by simp)] at hstop
  exact input.le_of_atomEnd hstop

end Input

/-- The tokens from an offset on, behind those read before, which are kept backward. -/
def scan (input : Input) (i : Nat) (tokens : List Token) : Except Error (List Token) :=
  if i < input.octets.size then
    if input.byteIs isSpace i then scan input (i + 1) tokens
    else if input.byteIs (· == '/') i && input.byteIs (· == '/') (i + 1) then
      scan input (input.lineEnd i) tokens
    else if input.byteIs (· == '(') i then scan input (i + 1) (⟨.openParen, i⟩ :: tokens)
    else if input.byteIs (· == ')') i then scan input (i + 1) (⟨.closeParen, i⟩ :: tokens)
    else if input.byteIs (· == '"') i then
      match _h : input.readString i (i + 1) [] with
      | .error e => .error e
      | .ok (text, next) => scan input next (⟨.string text, i⟩ :: tokens)
    else
      match _h : input.readAtom i with
      | .error e => .error e
      | .ok (text, next) => scan input next (⟨.atom text, i⟩ :: tokens)
  else .ok tokens.reverse
termination_by input.octets.size - i
decreasing_by
  · omega
  -- A comment ends behind its first slash at the earliest.
  · rename_i hi _ hslash
    rw [Bool.and_eq_true] at hslash
    have hlt := input.lt_lineEnd hi hslash.1
    omega
  · omega
  · omega
  · have hlt := input.lt_of_readString _h
    omega
  · rename_i hi hspace _ hopen hclose hquote
    -- An atom has at least one byte, since no delimiter stands here.
    have hdelimiter : ¬ input.byteIs isDelimiter i = true := by
      simp [Input.byteIs_isDelimiter, hspace, hopen, hclose, hquote]
    have hlt := input.lt_of_readAtom hi hdelimiter _h
    omega

theorem scan_eq (input : Input) (i : Nat) (tokens : List Token) :
    scan input i tokens =
      if i < input.octets.size then
        if input.byteIs isSpace i then scan input (i + 1) tokens
        else if input.byteIs (· == '/') i && input.byteIs (· == '/') (i + 1) then
          scan input (input.lineEnd i) tokens
        else if input.byteIs (· == '(') i then scan input (i + 1) (⟨.openParen, i⟩ :: tokens)
        else if input.byteIs (· == ')') i then scan input (i + 1) (⟨.closeParen, i⟩ :: tokens)
        else if input.byteIs (· == '"') i then do
          let (text, next) ← input.readString i (i + 1) []
          scan input next (⟨.string text, i⟩ :: tokens)
        else do
          let (text, next) ← input.readAtom i
          scan input next (⟨.atom text, i⟩ :: tokens)
      else .ok tokens.reverse := by
  rw [scan]
  split
  · split
    · rfl
    · split
      · rfl
      · split
        · rfl
        · split
          · rfl
          · split
            · split <;> rename_i h <;> rw [h] <;> rfl
            · split <;> rename_i h <;> rw [h] <;> rfl
  · rfl

/-- The tokens of a text. -/
def tokenize (text : Text) : Except Error (List Token) := scan (.ofText text) 0 []

end DesignFacts.Sexp

/-!
# Source text

A piece of source text is the list of its characters in reading order. Everything the library
says about spelling is said on this type: letter case is ASCII letter case, as the hardware
language has it, blanks are Unicode's, and offsets into a text count the bytes of its UTF-8 form.

The normal forms are `squash` (words joined by one space) and `compact` (no blanks at all, for
dotted names).
-/

namespace DesignFacts

/-- A piece of source text: its characters in reading order. -/
abbrev Text := List Char

namespace Text

/-! ## Letter case -/

/-- The text with every ASCII capital made small. -/
def lower (t : Text) : Text := t.map Char.toLower

/-- Whether two texts are equal up to ASCII letter case. -/
def same (a b : Text) : Bool := lower a == lower b

/-- Whether the text is the given word up to ASCII letter case. -/
def isWord (t : Text) (word : String) : Bool := same t word.toList

theorem same_iff {a b : Text} : same a b = true ↔ lower a = lower b := by
  simp [same]

/-- Keep the first of all texts that are equal up to letter case. -/
def distinct (ts : List Text) : List Text :=
  ts.foldl (fun kept t => if kept.any (same t) then kept else kept ++ [t]) []

/-! ## Blanks -/

/-- The characters with Unicode's `White_Space` property. -/
def isBlank (c : Char) : Bool :=
  let n := c.toNat
  (0x09 ≤ n && n ≤ 0x0D) || n == 0x20 || n == 0x85 || n == 0xA0 || n == 0x1680
    || (0x2000 ≤ n && n ≤ 0x200A) || n == 0x2028 || n == 0x2029 || n == 0x202F || n == 0x205F
    || n == 0x3000

/-- The text without the characters of `p` at its end. -/
def dropEnd (p : Char → Bool) (t : Text) : Text := (t.reverse.dropWhile p).reverse

/-- The text without blanks at its start. -/
def trimStart (t : Text) : Text := t.dropWhile isBlank

/-- The text without blanks at its end. -/
def trimEnd (t : Text) : Text := dropEnd isBlank t

/-- The text without blanks at both ends. -/
def trim (t : Text) : Text := trimEnd (trimStart t)

/-- The parts of a text between the characters of `p`; there is always at least one part. -/
def splitWith (p : Char → Bool) : Text → List Text
  | [] => [[]]
  | c :: cs =>
    if p c then [] :: splitWith p cs
    else match splitWith p cs with
      | [] => [[c]]
      | part :: parts => (c :: part) :: parts

/-- The parts of a text between occurrences of a character. -/
def splitOn (sep : Char) (t : Text) : List Text := splitWith (· == sep) t

/-- The words of a text: its longest runs of characters that are no blanks. -/
def words (t : Text) : List Text := (splitWith isBlank t).filter fun w => !w.isEmpty

/-- Texts one after another with a separator between them. -/
def join (sep : String) (ts : List Text) : Text := List.intercalate sep.toList ts

/-- The words of a text with one space between them. -/
def squash (t : Text) : Text := join " " (words t)

/-- The text without its blanks. -/
def compact (t : Text) : Text := t.filter fun c => !isBlank c

/-- The part of a text before the first occurrence of a character. -/
def before (c : Char) (t : Text) : Text := t.takeWhile (· != c)

/-- The part of a text after the last occurrence of a character, or all of it. -/
def afterLast (c : Char) (t : Text) : Text := (t.reverse.takeWhile (· != c)).reverse

/-! ## Searching -/

/-- Cut a text at the first occurrence of another one into what stands before and after it. -/
def cut (needle : Text) : Text → Option (Text × Text)
  | [] => if needle.isEmpty then some ([], []) else none
  | c :: cs =>
    if needle.isPrefixOf (c :: cs) then some ([], (c :: cs).drop needle.length)
    else (cut needle cs).map fun (left, right) => (c :: left, right)

/-- Whether the text holds another one. -/
def holds (t : Text) (needle : String) : Bool := (cut needle.toList t).isSome

/-- Whether the text starts with the given one. -/
def startsWith (t : Text) (head : String) : Bool := head.toList.isPrefixOf t

def endsWith (t : Text) (tail : String) : Bool := tail.toList.isSuffixOf t

/-- Whether a character can stand in an identifier. -/
def isIdent (c : Char) : Bool := c.isAlphanum || c == '_'

/-! ## Bytes -/

def bytes (t : Text) : Nat := t.foldr (fun c n => c.utf8Size + n) 0

@[simp] theorem bytes_nil : bytes [] = 0 := rfl

@[simp] theorem bytes_cons (c : Char) (t : Text) : bytes (c :: t) = c.utf8Size + bytes t := rfl

@[simp] theorem bytes_append (a b : Text) : bytes (a ++ b) = bytes a + bytes b := by
  induction a with
  | nil => simp
  | cons c a ih => simp [ih, Nat.add_assoc]

@[simp] theorem bytes_reverse (t : Text) : bytes t.reverse = bytes t := by
  induction t with
  | nil => rfl
  | cons c t ih => simp [ih, Nat.add_comm]

/-- What follows the first `n` bytes of a text, if these are whole characters of it. -/
def dropBytes? : Nat → Text → Option Text
  | 0, t => some t
  | _ + 1, [] => none
  | n + 1, c :: cs => if c.utf8Size ≤ n + 1 then dropBytes? (n + 1 - c.utf8Size) cs else none

/-- The characters of a text that lie wholly in its first `n` bytes. -/
def takeBytes : Nat → Text → Text
  | _, [] => []
  | n, c :: cs => if c.utf8Size ≤ n then c :: takeBytes (n - c.utf8Size) cs else []

/-- The piece of a text between two byte offsets, if these are in order and cut no character. -/
def slice? (start stop : Nat) (t : Text) : Option Text := do
  let ahead ← dropBytes? start t
  if start ≤ stop && (dropBytes? (stop - start) ahead).isSome then
    some (takeBytes (stop - start) ahead)
  else none

def charBytes (c : Char) : List UInt8 := String.utf8EncodeChar c

def textBytes (t : Text) : List UInt8 := t.flatMap charBytes

/-- The text has a byte at the offset, and the character with its number is in the class. -/
def byteIs (p : Char → Bool) (t : Text) (i : Nat) : Bool :=
  (textBytes t)[i]?.any fun b => p (Char.ofUInt8 b)

/-! ## Whole words -/

theorem le_bytes_of_dropBytes? {n : Nat} {t rest : Text} (h : dropBytes? n t = some rest) :
    n ≤ bytes t := by
  fun_induction dropBytes? n t with
  | case1 => exact Nat.zero_le _
  | case2 => cases h
  | case3 n c cs hc ih =>
    have hle := ih h
    rw [bytes_cons]
    omega
  | case4 => cases h

/-- Search a text for a word from a byte offset on, both in small letters. A place counts if no
identifier character touches it; if one does, the search goes on behind the first byte of the
place, which is a character of its own in a word of letters. -/
def findWordFrom (word t : Text) (start : Nat) : Option Nat :=
  match _h : dropBytes? start t with
  | none => none
  | some rest =>
    match cut word rest with
    | none => none
    | some (left, _) =>
      let found := start + bytes left
      let freeBefore := found == 0 || !byteIs isIdent t (found - 1)
      let freeBehind := !byteIs isIdent t (found + bytes word)
      if freeBefore && freeBehind then some found else findWordFrom word t (found + 1)
termination_by bytes t + 1 - start
decreasing_by
  have hle := le_bytes_of_dropBytes? _h
  omega

/-- The byte offset of the first occurrence of a word, ignoring letter case, that no identifier
character touches on either side. -/
def findWord (word : String) (t : Text) : Option Nat :=
  findWordFrom (lower word.toList) (lower t) 0

/-- Cut a text at the first whole-word occurrence of a word into what stands before and after it. -/
def cutWord (word : String) (t : Text) : Option (Text × Text) := do
  let start ← findWord word t
  let before ← slice? 0 start t
  let after ← dropBytes? (start + bytes word.toList) t
  return (before, after)

/-- Whether a text holds a word as a whole word. -/
def holdsWord (t : Text) (word : String) : Bool := (findWord word t).isSome

/-! ## Parentheses -/

/-- Split at `sep` outside parentheses. A closing parenthesis without an opening one counts
negatively, and `sep` is no separator if it is a parenthesis itself. The depth has no bound here. A
counter of 32 bits gives the same for texts of fewer than `2 ^ 31` parentheses. -/
def splitTopLevelAt (sep : Char) (depth : Int) : Text → List Text
  | [] => [[]]
  | c :: cs =>
    let keep (d : Int) : List Text := match splitTopLevelAt sep d cs with
      | [] => [[c]]
      | part :: parts => (c :: part) :: parts
    if c == '(' then keep (depth + 1)
    else if c == ')' then keep (depth - 1)
    else if c == sep && depth == 0 then [] :: splitTopLevelAt sep depth cs
    else keep depth

/-- The parts of a text between separators that stand outside all parentheses. -/
def splitTopLevel (sep : Char) (t : Text) : List Text := splitTopLevelAt sep 0 t

/-! ## Order -/

/-- Whether one text comes before another, character by character in code point order. -/
def precedes : Text → Text → Bool
  | _, [] => false
  | [], _ :: _ => true
  | a :: as, b :: bs => a.val < b.val || (a == b && precedes as bs)

end Text

end DesignFacts

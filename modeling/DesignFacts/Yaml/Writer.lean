import DesignFacts.Yaml.Scalar
import DesignFacts.Yaml.Word

/-!
# Writing scalars

A text is written plain where that reads back as the same text. Otherwise it stands in single
quotes, a text with line feeds below a bar, and a text with characters that cannot stand in either
in double quotes. Line and paragraph separators are line breaks too, and what follows them is
indented.
-/

namespace DesignFacts.Yaml

open Text

/-! ## What a text allows -/

/-- Whether a character can be written as it is. -/
def isPrintable (c : Char) : Bool :=
  let n := c.toNat
  n == 0x0A || (0x20 ≤ n && n ≤ 0x7E)
    || (0xA0 ≤ n && n != 0xFEFF && n != 0xFFFE && n != 0xFFFF)

/-- Whether a later part of a plain text would be taken for a mark: a colon at the end of a word,
or a hash at the start of one. -/
def hasMark (afterGap : Bool) : Text → Bool
  | [] => false
  | c :: t => (c == ':' && endsWord t) || (c == '#' && afterGap) || hasMark (isGap c) t

/-- Whether a text can be written plain. -/
def isPlain (t : Text) : Bool :=
  match t with
  | [] => false
  | c :: rest =>
    t.all (fun c => isPrintable c && !isBreak c)
    && !(isIndicator c || ((c == '?' || c == ':' || c == '-') && endsWord rest) || c == ' '
      || t.getLast? == some ' ' || startsWith t "---" || startsWith t "..." || hasMark false rest)

/-- Whether a space stands right before a line break. -/
def hasSpaceBreak : Text → Bool
  | [] => false
  | c :: t => (c == ' ' && t.head?.any isBreak) || hasSpaceBreak t

/-- Whether a space stands right after a line break. -/
def hasBreakSpace : Text → Bool
  | [] => false
  | c :: t => (isBreak c && t.head? == some ' ') || hasBreakSpace t

/-- Whether a text can stand in single quotes. -/
def isSingle (t : Text) : Bool := t.all isPrintable && !hasSpaceBreak t && !hasBreakSpace t

/-- Whether a text can stand below a bar. -/
def isLiteral (t : Text) : Bool :=
  t.all isPrintable && !hasSpaceBreak t && t.getLast? != some ' '

/-! ## The forms -/

/-- A text with spaces before each line of it. `atStart` says whether a line starts here. -/
def indented (indent : Nat) (atStart : Bool) : Text → Text
  | [] => []
  | c :: t =>
    if isBreak c then c :: indented indent true t
    else (if atStart then List.replicate indent ' ' else []) ++ c :: indented indent false t

/-- A text in single quotes, the closing one included in its last line. -/
def singleQuoted (indent : Nat) (t : Text) : Text :=
  let inner := t.flatMap fun c => if c == '\'' then ['\'', '\''] else [c]
  '\'' :: indented indent false (inner ++ ['\''])

/-- A number in capital hexadecimal digits, padded with zeros. -/
def paddedHex (width n : Nat) : Text :=
  let digits := (Nat.toDigits 16 n).map Char.toUpper
  List.replicate (width - digits.length) '0' ++ digits

/-- The letter that stands for a character after a backslash. -/
def escapeLetter? (c : Char) : Option Char :=
  [(0, '0'), (7, 'a'), (8, 'b'), (9, 't'), (10, 'n'), (11, 'v'), (12, 'f'), (13, 'r'), (27, 'e'),
    (34, '"'), (92, '\\'), (0x85, 'N'), (0x2028, 'L'), (0x2029, 'P')].findSome? fun (n, letter) =>
      if c.toNat == n then some letter else none

/-- A character inside double quotes. -/
def escapedChar (c : Char) : Text :=
  match escapeLetter? c with
  | some letter => ['\\', letter]
  | none =>
    let n := c.toNat
    if isPrintable c then [c]
    else if n ≤ 0xFF then '\\' :: 'x' :: paddedHex 2 n
    else if n ≤ 0xFFFF then '\\' :: 'u' :: paddedHex 4 n
    else '\\' :: 'U' :: paddedHex 8 n

def doubleQuoted (t : Text) : Text := '"' :: t.flatMap escapedChar ++ ['"']

/-- The sign behind the bar for the line breaks at the end of a text: a minus if there is none, and
a plus if there are several or nothing else. -/
def chompSign (t : Text) : Text :=
  match t.reverse with
  | [] => ['-']
  | c :: rest =>
    if !isBreak c then ['-']
    else if rest.head?.all isBreak then ['+']
    else []

/-- A text of several lines below a bar. The indentation is said if the text starts with a space or
a line break. -/
def literal (indent : Nat) (t : Text) : Text :=
  let hint := if t.head?.any fun c => c == ' ' || isBreak c then ['2'] else []
  '|' :: hint ++ chompSign t ++ '\n' :: indented indent true t

/-- A text as a scalar; its further lines are indented by `indent`. -/
def scalarText (indent : Nat) (t : Text) : Text :=
  if t.contains '\n' then if isLiteral t then literal indent t else doubleQuoted t
  else if !isSpecialWord t && isPlain t then t
  else if isSingle t then singleQuoted indent t
  else doubleQuoted t

/-- A text with a line feed, unless a line break ends it already. -/
def endLine (t : Text) : Text := if t.getLast?.any isBreak then t else t ++ ['\n']

end DesignFacts.Yaml

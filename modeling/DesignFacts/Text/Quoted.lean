import DesignFacts.Text.Basic
import DesignFacts.Text.Hidden

/-!
# Quoted texts in messages

Messages show texts in double quotes. Quotes and backslashes are escaped, and every hidden character
is written by its number.
-/

namespace DesignFacts.Text

/-- A character inside a quoted text. -/
def showChar (c : Char) : Text :=
  if c == '"' then ['\\', '"']
  else if c == '\\' then ['\\', '\\']
  else if c == '\t' then ['\\', 't']
  else if c == '\r' then ['\\', 'r']
  else if c == '\n' then ['\\', 'n']
  else if c.toNat == 0 then ['\\', '0']
  else if isHidden c then "\\u\x7b".toList ++ Nat.toDigits 16 c.toNat ++ ['\x7d']
  else [c]

/-- A text in quotes, for a message. -/
def quoted (t : Text) : Text := '"' :: t.flatMap showChar ++ ['"']

end DesignFacts.Text

import DesignFacts.Text.Basic

/-!
# Bytes to text

Files are bytes; their text is what the bytes spell in UTF-8. Decoding goes byte by byte: inside
a character, `Partial` says how many bytes are still to come and between which bounds the next
one lies. A byte outside them, or one that starts no character, makes the sequence invalid; an
end inside a character makes it incomplete.
-/

namespace DesignFacts.Utf8

/-- Bytes that are no text, from the first byte of the first character that fails. -/
inductive Error where
  /-- The bytes up to a wrong one start no character; `length` counts them. -/
  | invalid (index length : Nat)
  /-- The bytes end inside a character. -/
  | incomplete (index : Nat)
  deriving DecidableEq

def Error.message : Error → String
  | invalid index length => s!"invalid utf-8 sequence of {length} bytes from index {index}"
  | incomplete index => s!"incomplete utf-8 byte sequence from index {index}"

/-- A character that is not complete yet: how many of its bytes are read and how many are to come,
the bounds of the next one, and the bits read so far. -/
structure Partial where
  read : Nat
  left : Nat
  low : Nat
  high : Nat
  bits : Nat

/-- What a byte does between characters: it is a character, it starts one, or neither. -/
inductive First where
  | whole (c : Char)
  | starts (p : Partial)
  | wrong

/-- The first byte of a character. Overlong forms, surrogates and numbers past the last character
are excluded by the bounds of the second byte. -/
def first (b : Nat) : First :=
  if b < 0x80 then .whole (Char.ofNat b)
  else if 0xC2 ≤ b ∧ b ≤ 0xDF then .starts ⟨1, 1, 0x80, 0xBF, b - 0xC0⟩
  else if b = 0xE0 then .starts ⟨1, 2, 0xA0, 0xBF, b - 0xE0⟩
  else if b = 0xED then .starts ⟨1, 2, 0x80, 0x9F, b - 0xE0⟩
  else if 0xE1 ≤ b ∧ b ≤ 0xEF then .starts ⟨1, 2, 0x80, 0xBF, b - 0xE0⟩
  else if b = 0xF0 then .starts ⟨1, 3, 0x90, 0xBF, b - 0xF0⟩
  else if 0xF1 ≤ b ∧ b ≤ 0xF3 then .starts ⟨1, 3, 0x80, 0xBF, b - 0xF0⟩
  else if b = 0xF4 then .starts ⟨1, 3, 0x80, 0x8F, b - 0xF0⟩
  else .wrong

/-- Decode the bytes from `index` on, the characters before them being `done`, last first. -/
def decodeFrom (index : Nat) (pending : Option Partial) (done : Text) :
    List UInt8 → Except Error Text
  | [] =>
    match pending with
    | none => .ok done.reverse
    | some p => .error (.incomplete (index - p.read))
  | b :: rest =>
    match pending with
    | none =>
      match first b.toNat with
      | .whole c => decodeFrom (index + 1) none (c :: done) rest
      | .starts p => decodeFrom (index + 1) (some p) done rest
      | .wrong => .error (.invalid index 1)
    | some p =>
      if p.low ≤ b.toNat ∧ b.toNat ≤ p.high then
        let bits := p.bits * 64 + (b.toNat - 0x80)
        if p.left ≤ 1 then decodeFrom (index + 1) none (Char.ofNat bits :: done) rest
        else decodeFrom (index + 1) (some ⟨p.read + 1, p.left - 1, 0x80, 0xBF, bits⟩) done rest
      else .error (.invalid (index - p.read) p.read)

/-- The text that bytes spell. -/
def decode (bytes : List UInt8) : Except Error Text := decodeFrom 0 none [] bytes

end DesignFacts.Utf8

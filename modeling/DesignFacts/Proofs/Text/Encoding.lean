import DesignFacts.Proofs.Text.Bytes

/-!
# The bytes of a text

Offsets count bytes, so a place of a text may lie inside a character. What stands there is a byte
and no character, and searches and scanners ask which byte it is.

**ASCII.** A character below 128 is one byte, and all bytes of the others are 128 or more. So a byte
belongs to a class of ASCII characters just as the character does that it is part of (`byteIs_eq`),
and an ASCII byte is found nowhere but at its character (`exists_of_getElem?_textBytes`).

**Pieces.** Hence the bytes of an ASCII text stand in the bytes of another text only where the text
itself stands, and there they cut no character (`textBytes_prefix_drop_iff`).
-/

namespace DesignFacts.Text

variable {s t u pre post : Text} {c : Char} {b : UInt8} {i k : Nat} {p : Char → Bool}

/-! ## Bytes and characters -/

theorem textBytes_cons (c : Char) (t : Text) : textBytes (c :: t) = charBytes c ++ textBytes t :=
  List.flatMap_cons

theorem textBytes_append (s t : Text) : textBytes (s ++ t) = textBytes s ++ textBytes t :=
  List.flatMap_append

theorem length_charBytes (c : Char) : (charBytes c).length = c.utf8Size :=
  String.length_utf8EncodeChar c

theorem length_textBytes (t : Text) : (textBytes t).length = bytes t := by
  induction t with
  | nil => rfl
  | cons c t ih => rw [textBytes_cons, List.length_append, length_charBytes, ih, bytes_cons]

/-- A byte belongs to a character. -/
theorem exists_char_of_lt (h : i < bytes t) :
    ∃ pre c post, t = pre ++ c :: post ∧ bytes pre ≤ i ∧ i < bytes pre + c.utf8Size := by
  induction t generalizing i with
  | nil => exact absurd h (Nat.not_lt_zero i)
  | cons c t ih =>
    by_cases hc : i < c.utf8Size
    · exact ⟨[], c, t, rfl, Nat.zero_le i, by simpa using hc⟩
    · rw [bytes_cons] at h
      obtain ⟨pre, d, post, rfl, hle, hlt⟩ := ih (i := i - c.utf8Size) (by omega)
      exact ⟨c :: pre, d, post, rfl, by rw [bytes_cons]; omega, by rw [bytes_cons]; omega⟩

theorem getElem?_textBytes_eq (post : Text) (hle : bytes pre ≤ i)
    (hlt : i < bytes pre + c.utf8Size) :
    (textBytes (pre ++ c :: post))[i]? = (charBytes c)[i - bytes pre]? := by
  rw [textBytes_append, textBytes_cons,
    List.getElem?_append_right (by rw [length_textBytes]; exact hle), length_textBytes,
    List.getElem?_append_left (by rw [length_charBytes]; omega)]

theorem drop_textBytes (pre post : Text) :
    (textBytes (pre ++ post)).drop (bytes pre) = textBytes post := by
  rw [textBytes_append, ← length_textBytes, List.drop_left]

/-! ## ASCII -/

theorem utf8Size_eq_one (hc : c.toNat < 128) : c.utf8Size = 1 :=
  Char.utf8Size_eq_one_iff.2 (UInt32.le_iff_toNat_le.2 (Nat.le_of_lt_succ hc))

theorem charBytes_of_lt (hc : c.toNat < 128) : charBytes c = [c.toUInt8] :=
  String.utf8EncodeChar_eq_singleton (utf8Size_eq_one hc)

theorem toNat_toUInt8 (hc : c.toNat < 128) : c.toUInt8.toNat = c.toNat := by
  show c.val.toUInt8.toNat = c.val.toNat
  rw [UInt32.toNat_toUInt8]
  have hval : c.val.toNat < 128 := hc
  omega

theorem ofUInt8_toUInt8 (hc : c.toNat < 128) : Char.ofUInt8 c.toUInt8 = c := by
  apply Char.ext
  apply UInt32.toNat_inj.1
  show c.toUInt8.toUInt32.toNat = c.val.toNat
  rw [UInt8.toNat_toUInt32, toNat_toUInt8 hc]
  rfl

/-- The bytes of a character beyond ASCII are beyond ASCII. -/
theorem le_of_mem_charBytes (hc : 128 ≤ c.toNat) (hb : b ∈ charBytes c) : 128 ≤ b.toNat := by
  have hval : ¬ c.val.toNat ≤ 127 := by
    have : c.val.toNat = c.toNat := rfl
    omega
  rw [charBytes, String.utf8EncodeChar, if_neg hval] at hb
  have hhigh (n : Nat) (hn : 128 ≤ n) (hlt : n < 256) : 128 ≤ (UInt8.ofNat n).toNat := by
    rw [UInt8.toNat_ofNat', Nat.mod_eq_of_lt hlt]
    exact hn
  split at hb
  · simp only [List.mem_cons, List.not_mem_nil, or_false] at hb
    rcases hb with rfl | rfl <;> exact hhigh _ (by omega) (by omega)
  · split at hb
    · simp only [List.mem_cons, List.not_mem_nil, or_false] at hb
      rcases hb with rfl | rfl | rfl <;> exact hhigh _ (by omega) (by omega)
    · simp only [List.mem_cons, List.not_mem_nil, or_false] at hb
      rcases hb with rfl | rfl | rfl | rfl <;> exact hhigh _ (by omega) (by omega)

/-- A byte below 128 is the whole of its character. -/
theorem eq_ofUInt8_of_mem_charBytes (hb : b ∈ charBytes c) (hlt : b.toNat < 128) :
    c.toNat < 128 ∧ c = Char.ofUInt8 b := by
  have hc : c.toNat < 128 := by
    by_contra hhigh
    have hle := le_of_mem_charBytes (by omega) hb
    omega
  rw [charBytes_of_lt hc, List.mem_singleton] at hb
  exact ⟨hc, by rw [hb, ofUInt8_toUInt8 hc]⟩

/-! ## Classes -/

/-- A class of ASCII characters. -/
def AsciiOnly (p : Char → Bool) : Prop := ∀ c, p c = true → c.toNat < 128

theorem asciiOnly_beq (hc : c.toNat < 128) : AsciiOnly (· == c) := by
  rintro d hd
  rwa [beq_iff_eq.1 hd]

/-- All bytes of a character are in the classes of the character. -/
theorem AsciiOnly.ofUInt8 (hp : AsciiOnly p) (hb : b ∈ charBytes c) :
    p (Char.ofUInt8 b) = p c := by
  by_cases hc : c.toNat < 128
  · rw [charBytes_of_lt hc, List.mem_singleton] at hb
    rw [hb, ofUInt8_toUInt8 hc]
  · have hno : p c = false := Bool.eq_false_iff.2 fun h => hc (hp c h)
    have hhigh := le_of_mem_charBytes (by omega) hb
    rw [hno, Bool.eq_false_iff]
    intro h
    have hlow : b.toUInt32.toNat < 128 := hp _ h
    rw [UInt8.toNat_toUInt32] at hlow
    omega

/-- A byte is in a class if its character is. -/
theorem byteIs_eq (hp : AsciiOnly p) (post : Text) (hle : bytes pre ≤ i)
    (hlt : i < bytes pre + c.utf8Size) : byteIs p (pre ++ c :: post) i = p c := by
  have hlength : i - bytes pre < (charBytes c).length := by
    rw [length_charBytes]
    omega
  rw [byteIs, getElem?_textBytes_eq post hle hlt, List.getElem?_eq_getElem hlength,
    Option.any_some]
  exact hp.ofUInt8 (List.getElem_mem hlength)

theorem byteIs_of_le (h : bytes t ≤ i) : byteIs p t i = false := by
  rw [byteIs, List.getElem?_eq_none (by rw [length_textBytes]; exact h)]
  rfl

/-! ## Pieces -/

/-- An ASCII byte is found at its character only. -/
theorem exists_of_getElem?_textBytes (hc : c.toNat < 128)
    (h : (textBytes t)[k]? = some c.toUInt8) :
    ∃ pre post, t = pre ++ c :: post ∧ bytes pre = k := by
  have hk : k < bytes t := by
    rw [← length_textBytes]
    exact (List.getElem?_eq_some_iff.1 h).1
  obtain ⟨pre, d, post, rfl, hle, hlt⟩ := exists_char_of_lt hk
  rw [getElem?_textBytes_eq post hle hlt] at h
  obtain ⟨hd, rfl⟩ := eq_ofUInt8_of_mem_charBytes (List.mem_of_getElem? h)
    (by rw [toNat_toUInt8 hc]; exact hc)
  rw [utf8Size_eq_one hd] at hlt
  exact ⟨pre, post, by rw [ofUInt8_toUInt8 hc], by omega⟩

theorem prefix_of_textBytes_prefix (hs : ∀ c ∈ s, c.toNat < 128)
    (h : textBytes s <+: textBytes u) : s <+: u := by
  induction s generalizing u with
  | nil => exact List.nil_prefix
  | cons c s ih =>
    have hc : c.toNat < 128 := hs c List.mem_cons_self
    rw [textBytes_cons, charBytes_of_lt hc, List.singleton_append] at h
    obtain ⟨more, hmore⟩ := h
    obtain ⟨pre, post, rfl, hpre⟩ := exists_of_getElem?_textBytes (t := u) (k := 0) hc
      (by rw [← hmore]; rfl)
    obtain rfl := bytes_eq_zero_iff.1 hpre
    rw [List.nil_append, textBytes_cons, charBytes_of_lt hc, List.cons_append,
      List.singleton_append] at hmore
    rw [List.nil_append, List.cons_prefix_cons]
    exact ⟨rfl, ih (fun d hd => hs d (List.mem_cons_of_mem c hd)) ⟨more, (List.cons.inj hmore).2⟩⟩

/-- The bytes of an ASCII text stand where the text stands. -/
theorem textBytes_prefix_drop_iff (hs : ∀ c ∈ s, c.toNat < 128) (hne : s ≠ []) :
    textBytes s <+: (textBytes t).drop k ↔ ∃ pre post, t = pre ++ (s ++ post) ∧ bytes pre = k := by
  constructor
  · intro h
    obtain ⟨c, s, rfl⟩ := List.exists_cons_of_ne_nil hne
    have hc : c.toNat < 128 := hs c List.mem_cons_self
    have hfirst : (textBytes t)[k]? = some c.toUInt8 := by
      obtain ⟨more, hmore⟩ := h
      rw [← Nat.add_zero k, ← List.getElem?_drop, ← hmore, textBytes_cons, charBytes_of_lt hc]
      rfl
    obtain ⟨pre, post, rfl, rfl⟩ := exists_of_getElem?_textBytes hc hfirst
    rw [drop_textBytes] at h
    obtain ⟨rest, hrest⟩ := prefix_of_textBytes_prefix hs h
    exact ⟨pre, rest, by rw [hrest], rfl⟩
  · rintro ⟨pre, post, rfl, rfl⟩
    rw [drop_textBytes, textBytes_append]
    exact List.prefix_append _ _

end DesignFacts.Text

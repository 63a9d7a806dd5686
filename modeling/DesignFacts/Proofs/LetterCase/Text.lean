import DesignFacts.Text.Numeral
import Mathlib.Data.List.Basic

/-!
# Letter case of texts

What becomes of the functions on texts if the text is written in small letters first?

**Characters.** Only a capital changes, and it becomes a letter of the same size. So blanks, digits
and identifier characters stay what they are, and so does every character that is no letter.

**Normal forms and parts.** A function that cuts a text at such characters or at whole words gives
the parts of the text in small letters.

**Numbers.** A numeral has the same value in small letters.

The lemmas are tagged for simplification in this direction: small letters move outward over the
functions on texts, and inward over appending and selecting.
-/

namespace DesignFacts

namespace Text

/-! ## Characters -/

/-- A capital becomes the letter 32 places on, and every other character stays. -/
theorem toLower_eq_or (c : Char) :
    c.toLower = c ∨ (65 ≤ c.toNat ∧ c.toNat ≤ 90) ∧ c.toLower.toNat = c.toNat + 32 := by
  by_cases h : c.val ≥ 'A'.val ∧ c.val ≤ 'Z'.val
  · have hlow : 65 ≤ c.toNat := h.1
    have hhigh : c.toNat ≤ 90 := h.2
    refine .inr ⟨⟨hlow, hhigh⟩, ?_⟩
    have hlower : c.toLower.val = c.val + 32 := congrArg Char.val (dif_pos h)
    show c.toLower.val.toNat = c.toNat + 32
    rw [hlower, UInt32.toNat_add]
    exact Nat.mod_eq_of_lt (show c.toNat + 32 < 4294967296 by omega)
  · exact .inl (dif_neg h)

theorem isDigit_iff (c : Char) : c.isDigit = true ↔ 48 ≤ c.toNat ∧ c.toNat ≤ 57 := by
  simp only [Char.isDigit, Bool.and_eq_true, decide_eq_true_eq]
  rfl

theorem isAlpha_iff (c : Char) :
    c.isAlpha = true ↔ (65 ≤ c.toNat ∧ c.toNat ≤ 90) ∨ (97 ≤ c.toNat ∧ c.toNat ≤ 122) := by
  have hupper : c.isUpper = true ↔ 65 ≤ c.toNat ∧ c.toNat ≤ 90 := decide_eq_true_iff
  have hlower : c.isLower = true ↔ 97 ≤ c.toNat ∧ c.toNat ≤ 122 :=
    Bool.and_eq_true_iff.trans (and_congr decide_eq_true_iff decide_eq_true_iff)
  rw [← hupper, ← hlower]
  exact Bool.or_eq_true_iff

@[simp] theorem isDigit_toLower (c : Char) : c.toLower.isDigit = c.isDigit := by
  rcases toLower_eq_or c with h | h
  · rw [h]
  · rw [Bool.eq_iff_iff, isDigit_iff, isDigit_iff]
    omega

@[simp] theorem isAlpha_toLower (c : Char) : c.toLower.isAlpha = c.isAlpha := by
  rcases toLower_eq_or c with h | h
  · rw [h]
  · rw [Bool.eq_iff_iff, isAlpha_iff, isAlpha_iff]
    omega

theorem toLower_toLower (c : Char) : c.toLower.toLower = c.toLower := by
  rcases toLower_eq_or c with h | h
  · rw [h, h]
  · rcases toLower_eq_or c.toLower with h' | h'
    · exact h'
    · omega

@[simp] theorem utf8Size_toLower (c : Char) : c.toLower.utf8Size = c.utf8Size := by
  have hone (d : Char) (hd : d.toNat ≤ 127) : d.utf8Size = 1 := Char.utf8Size_eq_one_iff.2 hd
  rcases toLower_eq_or c with h | h
  · rw [h]
  · rw [hone c (by omega), hone c.toLower (by omega)]

/-- A character that is no letter is the small letter of itself only. -/
theorem toLower_eq_iff {d : Char} (hd : d.isAlpha = false) (c : Char) : c.toLower = d ↔ c = d := by
  rcases toLower_eq_or c with h | h
  · rw [h]
  · rw [← Bool.not_eq_true, isAlpha_iff] at hd
    constructor
    · rintro rfl
      omega
    · rintro rfl
      omega

theorem toNat_toLower_lt (c : Char) : c.toLower.toNat < 0x80 ↔ c.toNat < 0x80 := by
  rcases toLower_eq_or c with h | h
  · rw [h]
  · omega

@[simp] theorem toLower_beq {d : Char} (hd : d.isAlpha = false) (c : Char) :
    (c.toLower == d) = (c == d) := by
  rw [Bool.eq_iff_iff, beq_iff_eq, beq_iff_eq, toLower_eq_iff hd]

@[simp] theorem toLower_bne {d : Char} (hd : d.isAlpha = false) (c : Char) :
    (c.toLower != d) = (c != d) := by
  rw [bne, bne, toLower_beq hd]

@[simp] theorem map_toLower_beq {d : Char} (hd : d.isAlpha = false) (o : Option Char) :
    (o.map Char.toLower == some d) = (o == some d) := by
  cases o <;> simp [hd]

@[simp] theorem map_toLower_bne {d : Char} (hd : d.isAlpha = false) (o : Option Char) :
    (o.map Char.toLower != some d) = (o != some d) := by
  rw [bne, bne, map_toLower_beq hd]

theorem contains_toLower {ds : List Char} (hds : ds.all (!·.isAlpha) = true) (c : Char) :
    ds.contains c.toLower = ds.contains c := by
  induction ds with
  | nil => rfl
  | cons d ds ih =>
    obtain ⟨hd, hds⟩ : d.isAlpha = false ∧ ds.all (!·.isAlpha) = true := by simpa using hds
    rw [List.contains_cons, List.contains_cons, toLower_beq hd, ih hds]

@[simp] theorem isBlank_toLower (c : Char) : isBlank c.toLower = isBlank c := by
  rcases toLower_eq_or c with h | h
  · rw [h]
  · have hblank (d : Char) (hd : 65 ≤ d.toNat ∧ d.toNat ≤ 122) : isBlank d = false := by
      simp only [isBlank]
      grind
    rw [hblank c (by omega), hblank c.toLower (by omega)]

@[simp] theorem isIdent_toLower (c : Char) : isIdent c.toLower = isIdent c := by
  simp [isIdent, Char.isAlphanum]

/-! ## Lists of characters -/

variable (p : Char → Bool) (t : Text)

@[simp] theorem lower_nil : lower [] = [] := rfl

@[simp] theorem lower_cons (c : Char) : lower (c :: t) = c.toLower :: lower t := rfl

@[simp] theorem lower_append (u : Text) : lower (t ++ u) = lower t ++ lower u := List.map_append

@[simp] theorem lower_lower : lower (lower t) = lower t := by
  rw [lower, lower, List.map_map]
  exact List.map_congr_left fun c _ => toLower_toLower c

@[simp] theorem lower_comp_lower : lower ∘ lower = lower := funext lower_lower

@[simp] theorem isEmpty_lower : (lower t).isEmpty = t.isEmpty := List.isEmpty_map

@[simp] theorem length_lower : (lower t).length = t.length := List.length_map ..

@[simp] theorem reverse_lower : (lower t).reverse = lower t.reverse := List.map_reverse.symm

@[simp] theorem head?_lower : (lower t).head? = t.head?.map Char.toLower := List.head?_map

@[simp] theorem getLast?_lower : (lower t).getLast? = t.getLast?.map Char.toLower :=
  List.getLast?_map

@[simp] theorem drop_lower (k : Nat) : (lower t).drop k = lower (t.drop k) := List.map_drop.symm

@[simp] theorem take_lower (k : Nat) : (lower t).take k = lower (t.take k) := List.map_take.symm

@[simp] theorem dropLast_lower : (lower t).dropLast = lower t.dropLast := List.map_dropLast.symm

@[simp] theorem filter_lower : (lower t).filter p = lower (t.filter (p ∘ Char.toLower)) :=
  List.filter_map

@[simp] theorem takeWhile_lower :
    (lower t).takeWhile p = lower (t.takeWhile (p ∘ Char.toLower)) := List.takeWhile_map

@[simp] theorem dropWhile_lower :
    (lower t).dropWhile p = lower (t.dropWhile (p ∘ Char.toLower)) := List.dropWhile_map

@[simp] theorem all_lower : (lower t).all p = t.all (p ∘ Char.toLower) := List.all_map

@[simp] theorem mem_lower {d : Char} (hd : d.isAlpha = false) : d ∈ lower t ↔ d ∈ t := by
  simp [lower, toLower_eq_iff hd]

@[simp] theorem lower_getD (o : Option Text) :
    lower (o.getD t) = (o.map lower).getD (lower t) := (Option.getD_map lower t o).symm

theorem lower_eq_cons {d : Char} (hd : d.isAlpha = false) {t u : Text} (h : lower t = d :: u) :
    ∃ t', t = d :: t' ∧ lower t' = u := by
  simpa [lower, List.map_eq_cons_iff, toLower_eq_iff hd] using h

/-- A text without letters is the small form of itself only. -/
theorem lower_eq_iff {u : Text} (hu : u.all (!·.isAlpha) = true) : lower t = u ↔ t = u := by
  induction u generalizing t with
  | nil => simp [lower]
  | cons d u ih =>
    obtain ⟨hd, hu⟩ : d.isAlpha = false ∧ u.all (!·.isAlpha) = true := by simpa using hu
    cases t with
    | nil => simp
    | cons c t => simp [toLower_eq_iff hd, ih t hu]

/-! ## Comparing -/

@[simp] theorem same_lower_left (u : Text) : same (lower t) u = same t u := by simp [same]

@[simp] theorem same_lower_right (u : Text) : same t (lower u) = same t u := by simp [same]

@[simp] theorem isWord_lower (word : String) : isWord (lower t) word = isWord t word :=
  same_lower_left t word.toList

/-- The texts that are kept do not depend on letter case. -/
@[simp] theorem distinct_lower (ts : List Text) :
    distinct (ts.map lower) = (distinct ts).map lower := by
  have hkept (kept : List Text) :
      (ts.map lower).foldl (fun kept t => if kept.any (same t) then kept else kept ++ [t])
          (kept.map lower) =
        (ts.foldl (fun kept t => if kept.any (same t) then kept else kept ++ [t]) kept).map
          lower := by
    induction ts generalizing kept with
    | nil => rfl
    | cons t ts ih =>
      rw [List.map_cons, List.foldl_cons, List.foldl_cons, ← ih]
      congr 1
      by_cases hany : kept.any (same t) <;> simp [Function.comp_def, hany]
  exact hkept []

/-! ## Blanks and separators -/

@[simp] theorem dropEnd_lower : dropEnd p (lower t) = lower (dropEnd (p ∘ Char.toLower) t) := by
  simp [dropEnd]

@[simp] theorem trimStart_lower : trimStart (lower t) = lower (trimStart t) := by
  simp [trimStart, Function.comp_def]

@[simp] theorem trimEnd_lower : trimEnd (lower t) = lower (trimEnd t) := by
  simp [trimEnd, Function.comp_def]

@[simp] theorem trim_lower : trim (lower t) = lower (trim t) := by simp [trim]

@[simp] theorem splitWith_lower :
    splitWith p (lower t) = (splitWith (p ∘ Char.toLower) t).map lower := by
  induction t with
  | nil => rfl
  | cons c t ih =>
    rw [lower_cons, splitWith, splitWith, ih]
    by_cases hc : p c.toLower
    · simp [hc]
    · cases hsplit : splitWith (p ∘ Char.toLower) t <;> simp [hc]

@[simp] theorem splitOn_lower {sep : Char} (hsep : sep.isAlpha = false) :
    splitOn sep (lower t) = (splitOn sep t).map lower := by
  simp [splitOn, Function.comp_def, hsep]

@[simp] theorem words_lower : words (lower t) = (words t).map lower := by
  simp [words, List.filter_map, Function.comp_def]

theorem join_lower {sep : String} (hsep : lower sep.toList = sep.toList) (ts : List Text) :
    join sep (ts.map lower) = lower (join sep ts) := by
  induction ts with
  | nil => rfl
  | cons u us ih =>
    cases us with
    | nil => simp [join, List.intercalate]
    | cons v vs => simpa [join, List.intercalate, hsep] using ih

@[simp] theorem squash_lower : squash (lower t) = lower (squash t) := by
  rw [squash, words_lower, join_lower rfl, squash]

@[simp] theorem compact_lower : compact (lower t) = lower (compact t) := by
  simp [compact, Function.comp_def]

@[simp] theorem before_lower {d : Char} (hd : d.isAlpha = false) :
    before d (lower t) = lower (before d t) := by
  simp [before, Function.comp_def, hd]

@[simp] theorem afterLast_lower {d : Char} (hd : d.isAlpha = false) :
    afterLast d (lower t) = lower (afterLast d t) := by
  simp [afterLast, Function.comp_def, hd]

/-! ## Searching -/

theorem isPrefixOf_lower {needle : Text} (h : needle.all (!·.isAlpha) = true) :
    needle.isPrefixOf (lower t) = needle.isPrefixOf t := by
  induction needle generalizing t with
  | nil => simp
  | cons d needle ih =>
    obtain ⟨hd, hneedle⟩ : d.isAlpha = false ∧ needle.all (!·.isAlpha) = true := by simpa using h
    cases t with
    | nil => rfl
    | cons c t => simp [List.isPrefixOf_cons_cons, Bool.beq_comm (a := d), hd, ih t hneedle]

@[simp] theorem cut_lower {needle : Text} (h : needle.all (!·.isAlpha) = true) :
    cut needle (lower t) = (cut needle t).map (Prod.map lower lower) := by
  induction t with
  | nil => by_cases hempty : needle.isEmpty <;> simp [cut, hempty]
  | cons c t ih =>
    have hprefix := isPrefixOf_lower (c :: t) h
    rw [lower_cons] at hprefix ⊢
    rw [cut, cut, hprefix]
    by_cases hhere : needle.isPrefixOf (c :: t)
    · simp [hhere, ← lower_cons]
    · simp [hhere, ih, Function.comp_def]

theorem splitTopLevelAt_lower {sep : Char} (hsep : sep.isAlpha = false) (depth : Int) :
    splitTopLevelAt sep depth (lower t) = (splitTopLevelAt sep depth t).map lower := by
  induction t generalizing depth with
  | nil => rfl
  | cons c t ih =>
    simp only [lower_cons, splitTopLevelAt, ih, toLower_beq (d := '(') (by decide),
      toLower_beq (d := ')') (by decide), toLower_beq hsep]
    -- Wherever the character is kept, the first part of the rest begins with it.
    split
    · cases splitTopLevelAt sep (depth + 1) t <;> rfl
    · split
      · cases splitTopLevelAt sep (depth - 1) t <;> rfl
      · split
        · rfl
        · cases splitTopLevelAt sep depth t <;> rfl

@[simp] theorem splitTopLevel_lower {sep : Char} (hsep : sep.isAlpha = false) :
    splitTopLevel sep (lower t) = (splitTopLevel sep t).map lower :=
  splitTopLevelAt_lower t hsep 0

/-! ## Bytes -/

@[simp] theorem bytes_lower : bytes (lower t) = bytes t := by
  induction t with
  | nil => rfl
  | cons c t ih => simp [ih]

@[simp] theorem takeBytes_lower (k : Nat) : takeBytes k (lower t) = lower (takeBytes k t) := by
  induction t generalizing k with
  | nil => rfl
  | cons c t ih =>
    rw [lower_cons, takeBytes, takeBytes, utf8Size_toLower, ih]
    split <;> rfl

@[simp] theorem dropBytes?_lower (k : Nat) :
    dropBytes? k (lower t) = (dropBytes? k t).map lower := by
  fun_induction dropBytes? k t with
  | case1 t => simp [dropBytes?]
  | case2 k => rfl
  | case3 k c t hle ih => simp [dropBytes?, hle, ih]
  | case4 k c t hle => simp [dropBytes?, hle]

@[simp] theorem slice?_lower (start stop : Nat) :
    slice? start stop (lower t) = (slice? start stop t).map lower := by
  rw [slice?, slice?, dropBytes?_lower]
  cases dropBytes? start t with
  | none => rfl
  | some ahead =>
    simp only [Option.map_some, Option.bind_eq_bind, Option.bind_some, dropBytes?_lower,
      Option.isSome_map, takeBytes_lower]
    split <;> rfl

/-! ## Whole words -/

@[simp] theorem findWord_lower (word : String) : findWord word (lower t) = findWord word t := by
  rw [findWord, findWord, lower_lower]

@[simp] theorem cutWord_lower (word : String) :
    cutWord word (lower t) = (cutWord word t).map (Prod.map lower lower) := by
  rw [cutWord, cutWord, findWord_lower]
  cases findWord word t with
  | none => rfl
  | some start =>
    simp only [Option.bind_eq_bind, Option.bind_some, slice?_lower, dropBytes?_lower]
    cases slice? 0 start t with
    | none => rfl
    | some before => cases dropBytes? (start + bytes word.toList) t <;> rfl

end Text

/-! ## Numbers -/

namespace Numeral

open Text

@[simp] theorem digitValue_toLower (c : Char) : digitValue c.toLower = digitValue c := by
  by_cases hdigit : c.isDigit
  · rcases toLower_eq_or c with h | h
    · rw [h]
    · rw [isDigit_iff] at hdigit
      omega
  · rw [digitValue, digitValue, isDigit_toLower, if_neg hdigit, if_neg hdigit, isAlpha_toLower,
      toLower_toLower]

theorem digitsFrom?_lower (base acc : Nat) (t : Text) :
    digitsFrom? base acc (lower t) = digitsFrom? base acc t := by
  induction t generalizing acc with
  | nil => rfl
  | cons c t ih => simp [digitsFrom?, digit?, ih]

@[simp] theorem digits?_lower (base : Nat) (t : Text) :
    digits? base (lower t) = digits? base t := by
  simp [digits?, digitsFrom?_lower]

@[simp] theorem unsigned?_lower (base bound : Nat) (t : Text) :
    unsigned? base bound (lower t) = unsigned? base bound t := by
  have hplain {c : Char} (hc : c ≠ '+') (t : Text) :
      unsigned? base bound (c :: t) = (digits? base (c :: t)).filter (· < bound) := by
    simp [unsigned?, hc]
  cases t with
  | nil => rfl
  | cons c t =>
    by_cases hc : c = '+'
    · subst hc
      simp [unsigned?]
    · have hc' : c.toLower ≠ '+' := by simpa [toLower_eq_iff] using hc
      rw [lower_cons, hplain hc', hplain hc, ← lower_cons, digits?_lower]

@[simp] theorem signed?_lower (t : Text) : signed? (lower t) = signed? t := by
  have hplain {c : Char} (hplus : c ≠ '+') (hminus : c ≠ '-') (t : Text) :
      signed? (c :: t) = (digits? 10 (c :: t)).bind fun n => checked n := by
    simp [signed?, hplus, hminus]
  cases t with
  | nil => rfl
  | cons c t =>
    by_cases hplus : c = '+'
    · subst hplus
      simp [signed?]
    · by_cases hminus : c = '-'
      · subst hminus
        simp [signed?]
      · have hplus' : c.toLower ≠ '+' := by simpa [toLower_eq_iff] using hplus
        have hminus' : c.toLower ≠ '-' := by simpa [toLower_eq_iff] using hminus
        rw [lower_cons, hplain hplus' hminus', hplain hplus hminus, ← lower_cons, digits?_lower]

/-- Decimal digits have no capitals. -/
@[simp] theorem lower_decimal (k : Nat) : lower (decimal k) = decimal k := by
  have hdigit (c : Char) (hc : c.isDigit = true) : c.toLower = c := by
    rcases toLower_eq_or c with h | h
    · exact h
    · rw [isDigit_iff] at hc
      omega
  refine (List.map_congr_left fun c hc => ?_).trans (List.map_id _)
  exact hdigit c (Nat.isDigit_of_mem_toDigits (by decide) (by decide) hc)

end Numeral

end DesignFacts

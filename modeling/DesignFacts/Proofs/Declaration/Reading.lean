import DesignFacts.Declaration.Object
import DesignFacts.Proofs.Text.WholeWord

/-!
# How the text of a declaration is cut

The text of an object declaration is closed at its end, opened word by word, cut at its first colon
and split at commas. What each of these steps does to a text is said here, whatever the text is.

**Colons.** `cutColon` cuts at the first colon that belongs to no assignment sign
(`cutColon_eq_some_iff`).

**Semicolons.** `close` drops blanks and semicolons at the end. It takes nothing of the words unless
they end with a semicolon (`squash_close_eq_iff`).

**Words.** The words that open a declaration and the mode are taken from the front if a blank
follows them (`openingWords_class`, `modeAndType_mode`).

**Names.** The names that a text lists hold all its characters but blanks and commas
(`flatMap_compact_listed`).
-/

namespace DesignFacts.ObjectDeclaration

open Text

variable {s t u : Text}

/-! ## Colons -/

/-- Every colon of a text belongs to an assignment sign. -/
def ColonsAssign (t : Text) : Prop := ∀ a b, t = a ++ ':' :: b → b.head? = some '='

theorem ColonsAssign.of_notMem (h : ':' ∉ t) : ColonsAssign t := by
  rintro a b rfl
  exact absurd (by simp) h

theorem colonsAssign_cons_iff {c : Char} :
    ColonsAssign (c :: t) ↔ (c = ':' → t.head? = some '=') ∧ ColonsAssign t := by
  constructor
  · intro h
    exact ⟨fun hc => h [] t (by rw [hc]; rfl), fun a b hab => h (c :: a) b (congrArg (c :: ·) hab)⟩
  · rintro ⟨hc, ht⟩ a b hab
    cases a with
    | nil =>
      obtain ⟨rfl, rfl⟩ := List.cons.inj hab
      exact hc rfl
    | cons d a => exact ht a b (List.cons.inj hab).2

instance decidableColonsAssign : DecidablePred ColonsAssign
  | [] => isTrue (.of_notMem List.not_mem_nil)
  | _ :: t =>
    have := decidableColonsAssign t
    decidable_of_iff' _ colonsAssign_cons_iff

theorem ColonsAssign.append (hs : ColonsAssign s) (ht : ColonsAssign t) :
    ColonsAssign (s ++ t) := by
  intro a b hab
  rcases List.append_eq_append_iff.1 hab with ⟨x, rfl, hx⟩ | ⟨x, rfl, hx⟩
  · exact ht x b hx
  · cases x with
    | nil => exact ht [] b hx.symm
    | cons c x =>
      obtain ⟨rfl, rfl⟩ := List.cons.inj hx
      have hhead := hs a x rfl
      cases x with
      | nil => cases hhead
      | cons d x => exact hhead

/-- A part of a text of which every colon assigns is such a text too, if it ends with no colon. -/
theorem ColonsAssign.of_infix {v : Text} (h : ColonsAssign (s ++ (t ++ v)))
    (hlast : t.getLast? ≠ some ':') : ColonsAssign t := by
  rintro a b rfl
  have hhead := h (s ++ a) (b ++ v) (by simp)
  cases b with
  | nil => simp at hlast
  | cons c b => exact hhead

/-- A text is cut at its first colon that assigns nothing. -/
theorem cutColon_eq_some_iff {l r : Text} :
    cutColon t = some (l, r) ↔ t = l ++ ':' :: r ∧ ColonsAssign l ∧ r.head? ≠ some '=' := by
  induction t generalizing l with
  | nil => simp [cutColon]
  | cons c t ih =>
    rw [cutColon]
    split
    · rename_i hc
      rw [Bool.and_eq_true, beq_iff_eq, bne_iff_ne] at hc
      obtain ⟨rfl, hhead⟩ := hc
      constructor
      · rintro ⟨⟩
        exact ⟨rfl, .of_notMem List.not_mem_nil, hhead⟩
      · rintro ⟨ht, hl, -⟩
        cases l with
        | nil =>
          obtain ⟨-, rfl⟩ := List.cons.inj ht
          rfl
        | cons d l =>
          obtain ⟨rfl, rfl⟩ := List.cons.inj ht
          -- A colon before the cut would have to assign, and this one does not.
          have hassign := hl [] l rfl
          cases l with
          | nil => cases hassign
          | cons e l => exact absurd hassign hhead
    · rename_i hc
      rw [Bool.and_eq_true, beq_iff_eq, bne_iff_ne, not_and_not_right] at hc
      rw [Option.map_eq_some_iff]
      constructor
      · rintro ⟨⟨l', r'⟩, hcut, hsides⟩
        obtain ⟨rfl, rfl⟩ := Prod.mk.inj hsides
        obtain ⟨rfl, hl, hr⟩ := ih.1 hcut
        refine ⟨rfl, colonsAssign_cons_iff.2 ⟨fun hcolon => ?_, hl⟩, hr⟩
        -- The colon assigns here because of the character behind it, which is on the left side too.
        have hassign := hc hcolon
        cases l' with
        | nil => simp at hassign
        | cons d l' => exact hassign
      · rintro ⟨ht, hl, hr⟩
        cases l with
        | nil =>
          obtain ⟨rfl, rfl⟩ := List.cons.inj ht
          exact absurd (hc rfl) hr
        | cons d l =>
          obtain ⟨rfl, rfl⟩ := List.cons.inj ht
          exact ⟨(l, r), ih.2 ⟨rfl, (colonsAssign_cons_iff.1 hl).2, hr⟩, rfl⟩

/-! ## Semicolons -/

/-- A text without blanks and semicolons at its end, as they come behind a declaration. -/
def close (t : Text) : Text := trimEnd (dropEnd (· == ';') (trimEnd t))

theorem close_append_cons {c : Char} (hblank : isBlank c = false) (hc : c ≠ ';') (s t : Text) :
    close (s ++ c :: t) = s ++ c :: close t := by
  rw [close, trimEnd_append_cons hblank, dropEnd_append_cons (by simpa using hc),
    trimEnd_append_cons hblank, close]

theorem close_append_blanks {b : Text} (hb : IsBlanks b) (t : Text) : close (t ++ b) = close t := by
  rw [close, trimEnd_append_blanks hb, close]

/-- What is closed begins as the text does. -/
theorem head?_close {c : Char} (h : (close t).head? = some c) : t.head? = some c := by
  obtain ⟨b, -, hb⟩ := exists_eq_trimEnd_append t
  obtain ⟨u, -, hu⟩ := exists_eq_dropEnd_append (· == ';') (trimEnd t)
  obtain ⟨b', -, hb'⟩ := exists_eq_trimEnd_append (dropEnd (· == ';') (trimEnd t))
  rw [hb, hu, hb', List.append_assoc, List.append_assoc, List.head?_append, ← close, h]
  rfl

/-- Behind a text that does not end with a semicolon, one semicolon is dropped. -/
theorem close_semicolon {b b' : Text} (ht : t.getLast? ≠ some ';') (hb : IsBlanks b)
    (hb' : IsBlanks b') : close (t ++ (b ++ ';' :: b')) = trimEnd t := by
  have hlast : ∀ c ∈ (t ++ b).getLast?, (c == ';') = false := by
    intro c hc
    rw [beq_eq_false_iff_ne]
    rintro rfl
    rw [List.getLast?_append] at hc
    cases hblanks : b.getLast? with
    | none =>
      rw [hblanks] at hc
      exact ht hc
    | some d =>
      rw [hblanks] at hc
      obtain rfl : d = ';' := Option.some.inj hc
      exact hb.notMem (by decide) (List.mem_of_getLast? hblanks)
  have htrim : trimEnd ((t ++ b) ++ ';' :: b') = (t ++ b) ++ [';'] := by
    rw [trimEnd_append_cons (by decide), ← List.nil_append b', trimEnd_append_blanks hb']
    rfl
  rw [← List.append_assoc, close, htrim, dropEnd_append_of_pos (by simp), dropEnd_eq_self hlast,
    trimEnd_append_blanks hb]

theorem close_eq_trimEnd (h : (trimEnd t).getLast? ≠ some ';') : close t = trimEnd t := by
  rw [close, dropEnd_eq_self, trimEnd_trimEnd]
  intro c hc
  rw [beq_eq_false_iff_ne]
  rintro rfl
  exact h hc

/-- Closing a text takes nothing of its words if and only if they do not end with a semicolon. -/
theorem squash_close_eq_iff : squash (close t) = squash t ↔ (trimEnd t).getLast? ≠ some ';' := by
  constructor
  · intro h hlast
    obtain ⟨u, hu, hsplit⟩ := exists_eq_dropEnd_append (· == ';') (trimEnd t)
    have hcompact : compact (close t) = compact t := by
      rw [← compact_squash, h, compact_squash]
    have hnil : compact u = [] := by
      rw [close, compact_trimEnd, ← compact_trimEnd t] at hcompact
      conv_rhs at hcompact => rw [hsplit, compact_append]
      exact List.self_eq_append_right.1 hcompact
    have hblanks := isBlanks_of_compact_eq_nil hnil
    have hne : u ≠ [] := by
      rintro rfl
      rw [hsplit, List.append_nil] at hlast
      exact absurd (not_of_mem_getLast?_dropEnd hlast) (by decide)
    obtain ⟨c, u, rfl⟩ := List.exists_cons_of_ne_nil hne
    have hc := hu c List.mem_cons_self
    rw [beq_iff_eq] at hc
    have hblank := hblanks c List.mem_cons_self
    rw [hc] at hblank
    exact absurd hblank (by decide)
  · intro h
    rw [close_eq_trimEnd h, squash_trimEnd]

/-- What is left of a text with a colon in it once it is closed. -/
theorem trim_dropEnd_colon (s t : Text) :
    trim (dropEnd (· == ';') (trim (s ++ ':' :: t))) = trimStart (s ++ ':' :: close t) := by
  have htrim : trim (s ++ ':' :: t) = trimStart s ++ ':' :: trimEnd t := by
    rw [trim, trimStart_append_cons (by decide), trimEnd_append_cons (by decide)]
  rw [htrim, dropEnd_append_cons (by decide), trim, trimStart_append_cons (by decide),
    trimEnd_append_cons (by decide), trimStart_append_cons (by decide), ← close,
    trimStart_trimStart]

/-! ## Words -/

/-- The words that open a declaration. -/
def openers : List String := "shared" :: classes

theorem oneOf_iff {ws : List String} : oneOf ws t = true ↔ ∃ w ∈ ws, w.toList = t := by
  simp [oneOf]

/-- The words of a declaration consist of letters. -/
theorem isAlpha_of_oneOf {ws : List String}
    (hws : (ws.all fun w => !w.toList.isEmpty && w.toList.all Char.isAlpha) = true)
    (h : oneOf ws (lower t) = true) : t ≠ [] ∧ ∀ c ∈ t, c.isAlpha = true := by
  obtain ⟨w, hw, hlower⟩ := oneOf_iff.1 h
  have hw := List.all_eq_true.1 hws w hw
  rw [hlower] at hw
  simpa [lower] using hw

theorem isToken_of_oneOf {ws : List String}
    (hws : (ws.all fun w => !w.toList.isEmpty && w.toList.all Char.isAlpha) = true)
    (h : oneOf ws (lower t) = true) : IsToken t := by
  obtain ⟨hne, halpha⟩ := isAlpha_of_oneOf hws h
  refine ⟨hne, fun c hc => isBlank_of_isIdent ?_⟩
  simp [isIdent, Char.isAlphanum, halpha c hc]

theorem firstWord_append {w : Text} (hw : IsToken w) (hu : ∀ c ∈ u.head?, isBlank c = true) :
    firstWord (w ++ u) = (w, u) := by
  have hw' : ∀ c ∈ w, (!isBlank c) = true := fun c hc => by simp [hw.not_blank c hc]
  rw [firstWord, List.takeWhile_append_of_pos hw', List.dropWhile_append_of_pos hw']
  cases u with
  | nil => simp
  | cons c u =>
    have hc := hu c rfl
    rw [List.takeWhile_cons_of_neg (by simp [hc]), List.dropWhile_cons_of_neg (by simp [hc]),
      List.append_nil]

theorem isToken_shared {w : Text} (hw : isWord w "shared" = true) : IsToken w := by
  have hlower : lower w = "shared".toList := same_iff.1 hw
  have hopener : oneOf openers (lower w) = true := oneOf_iff.2 ⟨"shared", by decide, hlower.symm⟩
  exact isToken_of_oneOf (by decide) hopener

theorem openingWords_shared {w : Text} (hw : isWord w "shared" = true)
    (hu : ∀ c ∈ u.head?, isBlank c = true) (known : Opening) :
    openingWords known (w ++ u) = openingWords { known with shared := true } (trimStart u) := by
  have hlower : lower w = "shared".toList := same_iff.1 hw
  have htoken := isToken_shared hw
  rw [openingWords, firstWord_append htoken hu, dif_neg htoken.ne_nil, if_pos (by simp [hlower])]

theorem openingWords_class {w : Text} (hw : oneOf classes (lower w) = true)
    (hu : ∀ c ∈ u.head?, isBlank c = true) (known : Opening) :
    openingWords known (w ++ u) =
      openingWords { known with objectClass := some (lower w) } (trimStart u) := by
  have htoken : IsToken w := isToken_of_oneOf (by decide) hw
  have hshared : lower w ≠ "shared".toList := by
    intro hlower
    rw [hlower] at hw
    exact absurd hw (by decide)
  rw [openingWords, firstWord_append htoken hu, dif_neg htoken.ne_nil,
    if_neg (by simpa using hshared), if_pos hw]

/-- The first word of a text that begins with a name opens no declaration. -/
theorem openingWords_name {b : Text} {m : Char} (ht : IsIdentifier t)
    (hname : oneOf openers (lower t) = false) (hb : IsBlanks b) (hm : m ∈ [',', ':'])
    (known : Opening) : openingWords known (t ++ (b ++ m :: u)) = (known, t ++ (b ++ m :: u)) := by
  have hfirst : oneOf openers (lower (firstWord (t ++ (b ++ m :: u))).1) = false := by
    rw [Bool.eq_false_iff]
    intro hopener
    obtain ⟨-, halpha⟩ := isAlpha_of_oneOf (by decide) hopener
    cases ht with
    | basic hne hchars hdigit =>
      have htoken : IsToken t := ⟨hne, fun c hc => isBlank_of_isNameChar (hchars c hc)⟩
      cases b with
      | nil =>
        -- The mark right behind the name belongs to the word.
        have hm' : isBlank m = false ∧ m.isAlpha = false := by
          simp only [List.mem_cons, List.not_mem_nil, or_false] at hm
          rcases hm with rfl | rfl <;> decide
        have hnot : ∀ c ∈ t, (!isBlank c) = true := fun c hc => by simp [htoken.not_blank c hc]
        have hmem : m ∈ (firstWord (t ++ ([] ++ m :: u))).1 := by
          rw [firstWord, List.takeWhile_append_of_pos hnot, List.nil_append,
            List.takeWhile_cons_of_pos (by simp [hm'])]
          simp
        exact absurd (halpha m hmem) (by simp [hm'])
      | cons c b =>
        rw [firstWord_append htoken (hb.head?_append (List.cons_ne_nil c b) _), hname] at hopener
        cases hopener
    | extended body =>
      have hmem : '\\' ∈ (firstWord (('\\' :: (body ++ ['\\'])) ++ (b ++ m :: u))).1 := by
        rw [firstWord, List.cons_append, List.takeWhile_cons_of_pos (by decide)]
        exact List.mem_cons_self
      exact absurd (halpha _ hmem) (by decide)
  obtain ⟨hshared, hclass⟩ : lower (firstWord (t ++ (b ++ m :: u))).1 ≠ "shared".toList ∧
      oneOf classes (lower (firstWord (t ++ (b ++ m :: u))).1) = false := by
    rw [openers, oneOf, List.any_cons, Bool.or_eq_false_iff, beq_eq_false_iff_ne] at hfirst
    exact ⟨hfirst.1.symm, hfirst.2⟩
  rw [openingWords]
  split
  · rfl
  · rw [if_neg (by simpa using hshared), if_neg (by simp [hclass])]

/-- A type with no mode before it. -/
theorem modeAndType_type (hblank : ¬ IsBlanks t)
    (hfirst : ∀ w ∈ (words t).head?, oneOf modes (lower w) = false) :
    modeAndType (trim t) = (none, squash t) := by
  cases hwords : words t with
  | nil => exact absurd (isBlanks_of_words_eq_nil hwords) hblank
  | cons w ws =>
    have hw : IsToken w := isToken_of_mem_words (by rw [hwords]; exact List.mem_cons_self)
    obtain ⟨b, u, hb, ht, hu, -⟩ := exists_of_words_eq_cons hwords
    have htrim : trim t = w ++ trimEnd u := by
      rw [ht, trim_blanks_append hb, trim, trimStart_eq_self (hw.head? u), hw.trimEnd_append]
    have hhead : ∀ c ∈ (trimEnd u).head?, isBlank c = true := by
      intro c hc
      obtain ⟨b', -, hsplit⟩ := exists_eq_trimEnd_append u
      exact hu c (by rw [hsplit, List.head?_append, hc]; rfl)
    have hmode := hfirst w (by rw [hwords]; rfl)
    rw [modeAndType, htrim, firstWord_append hw hhead]
    dsimp only
    rw [if_neg (by simp [hmode]), ← htrim, squash_trim]

/-- A type behind a mode. -/
theorem modeAndType_mode {m b : Text} (hm : oneOf modes (lower m) = true) (hb : IsBlanks b)
    (hne : b ≠ []) (hblank : ¬ IsBlanks t) :
    modeAndType (trim (m ++ (b ++ t))) = (some (lower m), squash t) := by
  have htoken : IsToken m := isToken_of_oneOf (by decide) hm
  obtain ⟨c, hc, hcblank⟩ := exists_mem_of_not_isBlanks hblank
  have htrim : trim (m ++ (b ++ t)) = m ++ (b ++ trimEnd t) := by
    rw [trim, trimStart_eq_self (htoken.head? _), htoken.trimEnd_append,
      trimEnd_append_of_mem hc hcblank]
  rw [htrim, modeAndType, firstWord_append htoken (hb.head?_append hne _)]
  dsimp only
  rw [if_pos hm, squash_blanks_append hb, squash_trimEnd]

/-! ## Names -/

/-- The names that a text lists. -/
def listed (t : Text) : List Text := ((splitOn ',' t).map trim).filter fun n => !n.isEmpty

theorem splitOn_of_notMem {c : Char} (h : c ∉ t) : splitOn c t = [t] := by
  have hnot : ∀ x ∈ t, (x == c) = false := fun x hx => beq_eq_false_iff_ne.2 fun heq => h (heq ▸ hx)
  have hsplit := splitWith_append_of_not hnot (rfl : splitWith (· == c) [] = [[]])
  rwa [List.append_nil] at hsplit

theorem comma_notMem_of_mem_listed {n : Text} (h : n ∈ listed t) : ',' ∉ n := by
  intro hcomma
  obtain ⟨w, hw, rfl⟩ := List.mem_map.1 (List.mem_filter.1 h).1
  exact absurd (not_of_mem_splitWith hw ',' (mem_of_mem_trim hcomma)) (by decide)

/-- The characters of the names that a text lists. -/
theorem flatMap_compact_listed (t : Text) :
    (listed t).flatMap compact = compact (t.filter (· != ',')) := by
  have hfilter (ws : List Text) :
      (ws.filter fun w => !w.isEmpty).flatMap compact = ws.flatMap compact := by
    induction ws with
    | nil => rfl
    | cons w ws ih => cases w <;> simp [ih, compact]
  have hmap (ws : List Text) : (ws.map trim).flatMap compact = compact ws.flatten := by
    induction ws with
    | nil => rfl
    | cons w ws ih =>
      rw [List.map_cons, List.flatMap_cons, ih, compact_trim, List.flatten_cons, compact_append]
  rw [listed, hfilter, hmap, splitOn, flatten_splitWith]
  rfl

/-- A colon and what follows it add characters to a list of names. -/
theorem compact_append_colon_ne (s t : Text) :
    compact (s.filter (· != ',')) ≠ compact ((s ++ ':' :: t).filter (· != ',')) := by
  intro h
  rw [List.filter_append, compact_append] at h
  have hnil := List.self_eq_append_right.1 h
  rw [List.filter_cons_of_pos (by decide), compact, List.filter_cons_of_pos (by decide)] at hnil
  cases hnil

/-- Two texts before colons that list the same characters are equal. -/
theorem eq_of_flatMap_compact_listed {s' v v' : Text} (h : s ++ ':' :: v = s' ++ ':' :: v')
    (hlisted : listed s = listed s') : s = s' := by
  have hcompact : compact (s.filter (· != ',')) = compact (s'.filter (· != ',')) := by
    rw [← flatMap_compact_listed, hlisted, flatMap_compact_listed]
  rcases List.append_eq_append_iff.1 h with ⟨x, rfl, hx⟩ | ⟨x, rfl, hx⟩
  · cases x with
    | nil => exact (List.append_nil s).symm
    | cons c x =>
      obtain ⟨rfl, -⟩ := List.cons.inj hx
      exact absurd hcompact (compact_append_colon_ne s x)
  · cases x with
    | nil => exact List.append_nil s'
    | cons c x =>
      obtain ⟨rfl, -⟩ := List.cons.inj hx
      exact absurd hcompact.symm (compact_append_colon_ne s' x)

end DesignFacts.ObjectDeclaration

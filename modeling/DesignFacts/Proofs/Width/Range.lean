import DesignFacts.Declaration.Width
import DesignFacts.Proofs.Text.Blank
import DesignFacts.Proofs.Text.Numeral

/-!
# Literal ranges in type texts

The bounds of a type are read from its text by small readers, each of which takes something from the
front and leaves the rest. A literal range is three words: a number, a direction and a number
(`IsRange`), where a text can spell a number in several ways (`Spells`).

Each reader has one lemma that says what it takes. Together they say that the bounds of a vector are
read exactly if a literal range stands in its last parentheses and nothing follows
(`vectorBounds?_eq_some_iff`), and that those of an integer type are the literal range behind its
first two words (`integerBounds?_eq_some_iff`).
-/

namespace DesignFacts.Width

open Text Numeral

variable {signed : Bool} {a b t u d l r x : Text} {v : Int}

/-! ## Numbers -/

/-- Decimal digits, at least one. -/
structure IsDigits (t : Text) : Prop where
  ne_nil : t ≠ []
  digit : ∀ c ∈ t, c.isDigit = true

instance (t : Text) : Decidable (IsDigits t) :=
  @decidable_of_iff _ _ ⟨fun h => ⟨h.1, h.2⟩, fun h => ⟨h.ne_nil, h.digit⟩⟩
    (@instDecidableAnd _ _ _ (List.decidableBAll _ t))

/-- A text spells a number in decimal; a minus sign can stand in front only where signs are read. -/
inductive Spells : Bool → Text → Int → Prop
  | plain {signed : Bool} {d : Text} (h : IsDigits d) : Spells signed d (valueOf 10 d)
  | minus {d : Text} (h : IsDigits d) : Spells true ('-' :: d) (-valueOf 10 d)

theorem isBlank_of_isDigit {c : Char} (h : c.isDigit = true) : isBlank c = false :=
  isBlank_of_isIdent (by simp [isIdent, Char.isAlphanum, h])

theorem Spells.isToken (h : Spells signed t v) : IsToken t := by
  cases h with
  | plain h => exact ⟨h.ne_nil, fun c hc => isBlank_of_isDigit (h.digit c hc)⟩
  | minus h =>
    refine ⟨List.cons_ne_nil _ _, fun c hc => ?_⟩
    rcases List.mem_cons.1 hc with rfl | hc
    · decide
    · exact isBlank_of_isDigit (h.digit c hc)

/-- A number has digits and minus signs only. -/
theorem Spells.mem (h : Spells signed t v) : ∀ c ∈ t, c.isDigit = true ∨ c = '-' := by
  intro c hc
  cases h with
  | plain h => exact .inl (h.digit c hc)
  | minus h =>
    rcases List.mem_cons.1 hc with rfl | hc
    · exact .inr rfl
    · exact .inl (h.digit c hc)

theorem Spells.lower_eq (h : Spells signed t v) : lower t = t := by
  refine (List.map_congr_left fun c hc => ?_).trans (List.map_id t)
  rcases h.mem c hc with hdigit | rfl
  · rcases toLower_eq_or c with heq | hcapital
    · exact heq
    · rw [isDigit_iff] at hdigit
      omega
  · rfl

theorem Spells.nonneg (h : Spells false t v) : 0 ≤ v := by
  cases h with
  | plain h => exact Int.natCast_nonneg _

theorem IsDigits.isNumeral (h : IsDigits t) : IsNumeral 10 t := by
  have hvalue : ∀ c ∈ t, ∃ d ∈ digitValue c, d < 10 := by
    intro c hc
    have hdigit := h.digit c hc
    refine ⟨c.toNat - 48, by rw [digitValue, hdigit]; rfl, ?_⟩
    rw [isDigit_iff] at hdigit
    omega
  obtain ⟨c, hc⟩ := List.exists_mem_of_ne_nil t h.ne_nil
  refine ⟨fun c hc => .inr (hvalue c hc), c, hc, ?_⟩
  rintro rfl
  exact absurd (h.digit _ hc) (by decide)

theorem IsDigits.underscore_notMem (h : IsDigits t) : '_' ∉ t := fun hc =>
  absurd (h.digit _ hc) (by decide)

theorem IsDigits.digits?_eq (h : IsDigits t) : digits? 10 t = some (valueOf 10 t) := by
  rw [← digits?_of_isNumeral h.isNumeral, List.filter_eq_self.2]
  intro c hc
  exact bne_iff_ne.2 fun heq => h.underscore_notMem (heq ▸ hc)

theorem Spells.unsigned?_eq (h : Spells false t v) (hlt : v < 2 ^ 64) :
    unsigned? 10 word64 t = some v.toNat := by
  cases h with
  | plain h =>
    refine unsigned?_of_isNumeral h.isNumeral h.underscore_notMem ?_
    rw [word64]
    omega

theorem Spells.signed?_eq (h : Spells true t v) (hword : IsWord v) : signed? t = some v := by
  cases h with
  | plain h =>
    have hhead : ∀ c ∈ t.head?, c ≠ '-' ∧ c ≠ '+' := by
      intro c hc
      have hdigit := h.digit c (List.mem_of_head? hc)
      constructor <;> (rintro rfl; revert hdigit; decide)
    rw [signed?_of_unsigned hhead, h.digits?_eq, Option.bind_some, checked_eq, if_pos hword]
  | minus h =>
    rw [signed?]
    simp only [h.digits?_eq, Option.bind_some, checked_eq]
    rw [if_pos hword]

/-- Digits in front of a text end where something else stands. -/
theorem span_digits (h : IsDigits d) (hu : ∀ c ∈ u.head?, c.isDigit = false) :
    (d ++ u).takeWhile Char.isDigit = d ∧ (d ++ u).dropWhile Char.isDigit = u := by
  have hrest : u.takeWhile Char.isDigit = [] ∧ u.dropWhile Char.isDigit = u := by
    cases u with
    | nil => exact ⟨rfl, rfl⟩
    | cons c u => simp [hu c rfl]
  rw [List.takeWhile_append_of_pos h.digit, List.dropWhile_append_of_pos h.digit, hrest.1, hrest.2,
    List.append_nil]
  exact ⟨rfl, rfl⟩

theorem isDigits_takeWhile (h : (t.takeWhile Char.isDigit).isEmpty = false) :
    IsDigits (t.takeWhile Char.isDigit) :=
  ⟨List.isEmpty_eq_false_iff.1 h, List.all_eq_true.1 List.all_takeWhile⟩

theorem isDigit_head?_dropWhile : ∀ c ∈ (t.dropWhile Char.isDigit).head?, c.isDigit = false := by
  intro c hc
  have hhead := List.head?_dropWhile_not Char.isDigit t
  rw [Option.mem_def] at hc
  rw [hc] at hhead
  exact hhead

theorem number?_minus (t : Text) :
    number? true ('-' :: t) = if (t.takeWhile Char.isDigit).isEmpty then none
      else some ('-' :: t.takeWhile Char.isDigit, t.dropWhile Char.isDigit) := rfl

/-- Without a sign to read, a number is the digits in front of a text. -/
theorem number?_plain (h : ∀ rest, t = '-' :: rest → signed = false) :
    number? signed t = if (t.takeWhile Char.isDigit).isEmpty then none
      else some (t.takeWhile Char.isDigit, t.dropWhile Char.isDigit) := by
  unfold number?
  split
  rename_i sign body hsign
  split at hsign
  · rw [h _ rfl, if_neg Bool.false_ne_true] at hsign
    cases hsign
    rfl
  · cases hsign
    rfl

theorem number?_eq_some_iff :
    number? signed t = some (d, u) ↔
      t = d ++ u ∧ (∃ v, Spells signed d v) ∧ ∀ c ∈ u.head?, c.isDigit = false := by
  constructor
  · intro h
    -- A minus sign is read only where numbers may be negative.
    by_cases hminus : ∃ rest, t = '-' :: rest ∧ signed = true
    · obtain ⟨rest, rfl, rfl⟩ := hminus
      rw [number?_minus] at h
      split at h
      · cases h
      · rename_i hne
        cases h
        have hdigits := isDigits_takeWhile (Bool.eq_false_iff.2 hne)
        refine ⟨?_, ⟨_, .minus hdigits⟩, isDigit_head?_dropWhile⟩
        rw [List.cons_append, List.takeWhile_append_dropWhile]
    · have hplain : ∀ rest, t = '-' :: rest → signed = false := fun rest ht =>
        Bool.eq_false_iff.2 fun hsigned => hminus ⟨rest, ht, hsigned⟩
      rw [number?_plain hplain] at h
      split at h
      · cases h
      · rename_i hne
        cases h
        have hdigits := isDigits_takeWhile (Bool.eq_false_iff.2 hne)
        exact ⟨List.takeWhile_append_dropWhile.symm, ⟨_, .plain hdigits⟩, isDigit_head?_dropWhile⟩
  · rintro ⟨rfl, ⟨v, h⟩, hu⟩
    cases h with
    | plain h =>
      have hplain : ∀ rest, d ++ u = '-' :: rest → signed = false := by
        intro rest heq
        obtain ⟨c, d, rfl⟩ := List.exists_cons_of_ne_nil h.ne_nil
        have hc := h.digit c (by simp)
        rw [(List.cons.inj heq).1] at hc
        cases hc
      obtain ⟨htake, hdrop⟩ := span_digits h hu
      rw [number?_plain hplain, htake, hdrop, if_neg (by simpa using h.ne_nil)]
    | minus h =>
      obtain ⟨htake, hdrop⟩ := span_digits h hu
      rw [List.cons_append, number?_minus, htake, hdrop, if_neg (by simpa using h.ne_nil)]

/-! ## Blanks and words -/

/-- Blanks, at least one. -/
structure IsGap (a : Text) : Prop where
  ne_nil : a ≠ []
  blanks : IsBlanks a

instance (a : Text) : Decidable (IsGap a) :=
  decidable_of_iff (a ≠ [] ∧ IsBlanks a) ⟨fun h => ⟨h.1, h.2⟩, fun h => ⟨h.ne_nil, h.blanks⟩⟩

theorem IsGap.lower (h : IsGap a) : IsGap (lower a) :=
  ⟨by simpa [Text.lower] using h.ne_nil, h.blanks.lower⟩

theorem IsGap.isDigit_head? (h : IsGap a) (t : Text) :
    ∀ c ∈ (a ++ t).head?, c.isDigit = false := by
  intro c hc
  obtain ⟨x, a, rfl⟩ := List.exists_cons_of_ne_nil h.ne_nil
  obtain rfl : x = c := Option.some.inj hc
  have hx : isBlank x = true := h.blanks x (by simp)
  by_contra hdigit
  rw [isBlank_of_isDigit (Bool.not_eq_false _ ▸ hdigit)] at hx
  cases hx

def directions : List String := ["downto", "to"]

/-- A direction, in small letters. -/
def IsDirection (d : Text) : Prop := ∃ word ∈ directions, d = word.toList

theorem blanks?_eq_some_iff :
    blanks? t = some u ↔ ∃ a, IsGap a ∧ t = a ++ u ∧ ∀ c ∈ u.head?, isBlank c = false := by
  constructor
  · intro h
    rw [blanks?] at h
    split at h
    · rename_i hblank
      cases h
      obtain ⟨a, ha, hsplit⟩ := exists_eq_append_trimStart t
      have hhead : ∀ c ∈ (trimStart t).head?, isBlank c = false := by
        intro c hc
        have hnot := List.head?_dropWhile_not isBlank t
        rw [← trimStart, hc] at hnot
        exact hnot
      refine ⟨a, ⟨?_, ha⟩, hsplit, hhead⟩
      rintro rfl
      rw [hsplit] at hblank
      obtain ⟨c, hc, hc'⟩ := (Option.any_eq_true ..).1 hblank
      rw [hhead c hc] at hc'
      cases hc'
    · cases h
  · rintro ⟨a, ha, rfl, hu⟩
    obtain ⟨c, a, rfl⟩ := List.exists_cons_of_ne_nil ha.ne_nil
    have hc : isBlank c = true := ha.blanks c (by simp)
    rw [blanks?, trimStart_blanks_append ha.blanks, trimStart_eq_self hu]
    simp [hc]

theorem word?_eq_some_iff {word : String} : word? word t = some u ↔ t = word.toList ++ u := by
  rw [word?, startsWith, ← String.length_toList]
  constructor
  · intro h
    split at h
    · rename_i hstart
      obtain ⟨rest, rfl⟩ := List.isPrefixOf_iff_prefix.1 hstart
      rw [List.drop_left] at h
      cases h
      rfl
    · cases h
  · rintro rfl
    rw [if_pos (List.isPrefixOf_iff_prefix.2 (List.prefix_append ..)), List.drop_left]

theorem direction?_eq_some_iff : direction? t = some u ↔ ∃ d, IsDirection d ∧ t = d ++ u := by
  rw [direction?, Option.or_eq_some_iff]
  constructor
  · rintro (h | ⟨-, h⟩)
    · exact ⟨_, ⟨"downto", by simp [directions], rfl⟩, word?_eq_some_iff.1 h⟩
    · exact ⟨_, ⟨"to", by simp [directions], rfl⟩, word?_eq_some_iff.1 h⟩
  · rintro ⟨_, ⟨word, hword, rfl⟩, rfl⟩
    simp only [directions, List.mem_cons, List.not_mem_nil, or_false] at hword
    rcases hword with rfl | rfl
    · exact .inl (word?_eq_some_iff.2 rfl)
    · exact .inr ⟨rfl, word?_eq_some_iff.2 rfl⟩

theorem IsDirection.isToken (h : IsDirection d) : IsToken d := by
  obtain ⟨word, hword, rfl⟩ := h
  simp only [directions, List.mem_cons, List.not_mem_nil, or_false] at hword
  rcases hword with rfl | rfl <;> decide

/-! ## Ranges -/

/-- A literal range: three words, a direction between two numbers. -/
def IsRange (signed : Bool) (x l r : Text) : Prop :=
  ∃ d v w, words x = [l, d, r] ∧ IsDirection d ∧ Spells signed l v ∧ Spells signed r w

theorem bounds?_eq_some_iff :
    bounds? signed t = some (l, r, u) ↔
      ∃ a d b v w, t = l ++ (a ++ (d ++ (b ++ (r ++ u)))) ∧ IsGap a ∧ IsDirection d ∧ IsGap b ∧
        Spells signed l v ∧ Spells signed r w ∧ ∀ c ∈ u.head?, c.isDigit = false := by
  constructor
  · intro h
    simp only [bounds?, Option.bind_eq_bind, Option.bind_eq_some_iff] at h
    obtain ⟨⟨_, _⟩, hleft, _, hgap, _, hdirection, _, hgap', ⟨_, _⟩, hright, heq⟩ := h
    cases heq
    obtain ⟨rfl, ⟨v, hv⟩, -⟩ := number?_eq_some_iff.1 hleft
    obtain ⟨a, ha, rfl, -⟩ := blanks?_eq_some_iff.1 hgap
    obtain ⟨d, hd, rfl⟩ := direction?_eq_some_iff.1 hdirection
    obtain ⟨b, hb, rfl, -⟩ := blanks?_eq_some_iff.1 hgap'
    obtain ⟨rfl, ⟨w, hw⟩, hu⟩ := number?_eq_some_iff.1 hright
    exact ⟨a, d, b, v, w, rfl, ha, hd, hb, hv, hw, hu⟩
  · rintro ⟨a, d, b, v, w, rfl, ha, hd, hb, hv, hw, hu⟩
    -- Each reader stops where the next one starts: a number at a blank, blanks at a word.
    have hleft := number?_eq_some_iff.2 ⟨rfl, ⟨v, hv⟩, ha.isDigit_head? (d ++ (b ++ (r ++ u)))⟩
    have hgap := blanks?_eq_some_iff.2 ⟨a, ha, rfl, hd.isToken.head? (b ++ (r ++ u))⟩
    have hdirection := direction?_eq_some_iff.2 ⟨d, hd, (rfl : d ++ (b ++ (r ++ u)) = _)⟩
    have hgap' := blanks?_eq_some_iff.2 ⟨b, hb, rfl, hw.isToken.head? u⟩
    have hright := number?_eq_some_iff.2 ⟨rfl, ⟨w, hw⟩, hu⟩
    simp only [bounds?, Option.bind_eq_bind, hleft, hgap, hdirection, hgap', hright,
      Option.bind_some]
    rfl

/-- The words of a range are those of its bounds, with the direction between them. -/
theorem words_range (ha : IsBlanks a) {g g' : Text} (hg : IsGap g) (hd : IsToken d)
    (hg' : IsGap g') (hb : IsBlanks b) (l r : Text) :
    words (a ++ (l ++ (g ++ (d ++ (g' ++ (r ++ b)))))) = words l ++ d :: words r := by
  rw [words_blanks_append ha, words_append_blanks_append hg.blanks hg.ne_nil,
    words_append_blanks_append hg'.blanks hg'.ne_nil, words_append_blanks hb, hd.words_eq]
  rfl

/-- Blanks that end at a word and begin what follows another one are a gap. -/
theorem isGap_of_head? {w : Text} (ha : IsBlanks a) (hw : IsToken w)
    (hhead : ∀ c ∈ (a ++ (w ++ u)).head?, isBlank c = true) : IsGap a := by
  refine ⟨?_, ha⟩
  rintro rfl
  obtain ⟨c, w, rfl⟩ := List.exists_cons_of_ne_nil hw.ne_nil
  have hc : isBlank c = true := hhead c rfl
  rw [hw.not_blank c (by simp)] at hc
  cases hc

theorem isRange_iff :
    IsRange signed x l r ↔
      ∃ a g d g' b v w, x = a ++ (l ++ (g ++ (d ++ (g' ++ (r ++ b))))) ∧ IsBlanks a ∧ IsGap g ∧
        IsDirection d ∧ IsGap g' ∧ IsBlanks b ∧ Spells signed l v ∧ Spells signed r w := by
  constructor
  · rintro ⟨d, v, w, hwords, hd, hv, hw⟩
    obtain ⟨a, u, ha, rfl, hhead, hwords⟩ := exists_of_words_eq_cons hwords
    obtain ⟨g, u, hg, rfl, hhead', hwords⟩ := exists_of_words_eq_cons hwords
    obtain ⟨g', b, hg', rfl, -, hwords⟩ := exists_of_words_eq_cons hwords
    exact ⟨a, g, d, g', b, v, w, rfl, ha, isGap_of_head? hg hd.isToken hhead, hd,
      isGap_of_head? hg' hw.isToken hhead', isBlanks_of_words_eq_nil hwords, hv, hw⟩
  · rintro ⟨a, g, d, g', b, v, w, rfl, ha, hg, hd, hg', hb, hv, hw⟩
    refine ⟨d, v, w, ?_, hd, hv, hw⟩
    rw [words_range ha hg hd.isToken hg' hb, hv.isToken.words_eq, hw.isToken.words_eq]
    rfl

/-- A range has blanks, numbers and a direction in it. -/
theorem IsRange.mem (h : IsRange signed x l r) {c : Char} (hc : c ∈ x)
    (hblank : isBlank c = false) : c.isDigit = true ∨ c ∈ '-' :: "downto".toList := by
  obtain ⟨d, v, w, hwords, ⟨word, hword, rfl⟩, hv, hw⟩ := h
  obtain ⟨y, hy, hmem⟩ := exists_mem_words hc hblank
  have hnumber {t : Text} {n : Int} (ht : Spells signed t n) (hmem : c ∈ t) :
      c.isDigit = true ∨ c ∈ '-' :: "downto".toList := by
    rcases ht.mem c hmem with hdigit | rfl
    · exact .inl hdigit
    · exact .inr List.mem_cons_self
  rw [hwords] at hy
  simp only [List.mem_cons, List.not_mem_nil, or_false] at hy
  rcases hy with rfl | rfl | rfl
  · exact hnumber hv hmem
  · refine .inr (List.mem_cons_of_mem _ ?_)
    simp only [directions, List.mem_cons, List.not_mem_nil, or_false] at hword
    rcases hword with rfl | rfl
    · exact hmem
    · exact List.mem_of_mem_drop (i := 4) hmem
  · exact hnumber hw hmem

theorem IsRange.notMem (h : IsRange signed x l r) {c : Char}
    (hc : (isBlank c || c.isDigit || ('-' :: "downto".toList).contains c) = false) : c ∉ x := by
  intro hmem
  rw [Bool.or_eq_false_iff, Bool.or_eq_false_iff] at hc
  rcases h.mem hmem hc.1.1 with hdigit | hother
  · rw [hc.1.2] at hdigit
    cases hdigit
  · rw [List.contains_iff_mem.2 hother] at hc
    cases hc.2

theorem isRange_of_bounds? (h : bounds? signed x = some (l, r, [])) : IsRange signed x l r := by
  obtain ⟨g, d, g', v, w, rfl, hg, hd, hg', hv, hw, -⟩ := bounds?_eq_some_iff.1 h
  exact isRange_iff.2 ⟨[], g, d, g', [], v, w, rfl, isBlanks_nil, hg, hd, hg', isBlanks_nil, hv, hw⟩

/-- A range in front of something else is read up to the blanks behind it. -/
theorem IsRange.exists_bounds? (h : IsRange signed x l r) {c : Char} (hc : c.isDigit = false)
    (t : Text) :
    ∃ b, IsBlanks b ∧ bounds? signed (trimStart (x ++ c :: t)) = some (l, r, b ++ c :: t) := by
  obtain ⟨a, g, d, g', b, v, w, rfl, ha, hg, hd, hg', hb, hv, hw⟩ := isRange_iff.1 h
  have hstart : trimStart (a ++ (l ++ (g ++ (d ++ (g' ++ (r ++ b))))) ++ c :: t) =
      l ++ (g ++ (d ++ (g' ++ (r ++ (b ++ c :: t))))) := by
    simp only [List.append_assoc]
    rw [trimStart_blanks_append ha, trimStart_eq_self (hv.isToken.head? _)]
  have hhead : ∀ x ∈ (b ++ c :: t).head?, x.isDigit = false := by
    cases b with
    | nil => simpa using hc
    | cons y b => exact IsGap.isDigit_head? ⟨List.cons_ne_nil y b, hb⟩ _
  refine ⟨b, hb, ?_⟩
  rw [hstart]
  exact bounds?_eq_some_iff.2 ⟨g, d, g', v, w, rfl, hg, hd, hg', hv, hw, hhead⟩

/-! ## Vectors -/

/-- No parenthesis is opened in a range or behind it. -/
theorem IsRange.open_notMem (h : IsRange signed x l r) {post : Text} (hpost : IsBlanks post) :
    '(' ∉ x ++ ')' :: post := by
  have hx : '(' ∉ x := h.notMem (by decide)
  have hpost' : '(' ∉ post := hpost.notMem (by decide)
  simp [hx, hpost']

/-- The bounds of a vector are read exactly if its last parentheses hold a literal range and nothing
follows them. -/
theorem vectorBounds?_eq_some_iff :
    vectorBounds? t = some (l, r) ↔
      ∃ pre x post, t = pre ++ '(' :: (x ++ ')' :: post) ∧ IsBlanks post ∧ IsRange false x l r := by
  constructor
  · intro h
    simp only [vectorBounds?, Option.bind_eq_bind, Option.bind_eq_some_iff] at h
    obtain ⟨_, hopen, ⟨_, _, rest⟩, hbounds, hclose⟩ := h
    have hmem : '(' ∈ t := by simpa using hopen
    obtain ⟨pre, ht, -⟩ := exists_eq_append_afterLast hmem
    obtain ⟨a, ha, hstart⟩ := exists_eq_append_trimStart (afterLast '(' t)
    obtain ⟨b, hb, hend⟩ := exists_eq_append_trimStart rest
    dsimp only at hclose
    split at hclose
    · rename_i post hpost
      split at hclose
      · rename_i hblank
        cases hclose
        obtain ⟨g, d, g', v, w, hrange, hg, hd, hg', hv, hw, -⟩ := bounds?_eq_some_iff.1 hbounds
        refine ⟨pre, a ++ (l ++ (g ++ (d ++ (g' ++ (r ++ b))))), post, ?_,
          List.all_eq_true.1 hblank,
          isRange_iff.2 ⟨a, g, d, g', b, v, w, rfl, ha, hg, hd, hg', hb, hv, hw⟩⟩
        rw [ht, hstart, hrange, hend, hpost]
        simp only [List.append_assoc]
      · cases hclose
    · cases hclose
  · rintro ⟨pre, x, post, rfl, hpost, hrange⟩
    obtain ⟨b, hb, hbounds⟩ := hrange.exists_bounds? (c := ')') rfl post
    have hrest : trimStart (b ++ ')' :: post) = ')' :: post := by
      rw [trimStart_blanks_append hb, trimStart_cons (by decide)]
    have hcontains : (pre ++ '(' :: (x ++ ')' :: post)).contains '(' = true := by simp
    have hblank : post.all isBlank = true := List.all_eq_true.2 hpost
    simp only [vectorBounds?, hcontains, afterLast_append_cons (hrange.open_notMem hpost), hbounds,
      hrest, hblank, guard, Option.pure_def, Option.bind_eq_bind, Option.bind_some, if_true]

/-- In a text that ends with its last parentheses, they hold the range. -/
theorem vectorBounds?_closed {pre : Text} (hx : '(' ∉ x) :
    vectorBounds? (pre ++ '(' :: (x ++ [')'])) = some (l, r) ↔ IsRange false x l r := by
  rw [vectorBounds?_eq_some_iff]
  constructor
  · rintro ⟨pre', x', post, heq, hpost, hrange⟩
    have hafter := congrArg (afterLast '(') heq
    rw [afterLast_append_cons (by simpa using hx), afterLast_append_cons (hrange.open_notMem hpost)]
      at hafter
    -- The last character is no blank, so nothing follows the parenthesis that closes the range.
    rcases List.eq_nil_or_concat post with rfl | ⟨post, c, rfl⟩
    · rw [(List.append_inj' hafter rfl).1]
      exact hrange
    · rw [List.concat_eq_append, ← List.cons_append, ← List.append_assoc] at hafter
      obtain rfl : ')' = c := by simpa using (List.append_inj' hafter rfl).2
      exact absurd (hpost ')' (by simp)) (by decide)
  · intro hrange
    exact ⟨pre, x, [], rfl, isBlanks_nil, hrange⟩

/-! ## Integer types -/

/-- Only a long s stands for something else, and only an s can be one. -/
theorem map_foldLongS_eq_iff (hs : 's' ∉ u) (hlong : 'ſ' ∉ u) : t.map foldLongS = u ↔ t = u := by
  have hfold {c : Char} (hc : c ≠ 'ſ') : foldLongS c = c := if_neg (by simpa using hc)
  have hself (h : 'ſ' ∉ t) : t.map foldLongS = t :=
    (List.map_congr_left fun c hc => hfold fun heq => h (heq ▸ hc)).trans (List.map_id t)
  constructor
  · intro h
    refine (hself fun hmem => hs ?_).symm.trans h
    rw [← h]
    exact List.mem_map_of_mem hmem
  · rintro rfl
    exact hself hlong

/-- The mark of an integer type is found in front of a text whichever of the marks it is. -/
theorem findSome?_integerMarks :
    (integerMarks.findSome? fun mark => word? mark t) = some u ↔
      ∃ mark ∈ integerMarks, t = mark.toList ++ u := by
  constructor
  · intro h
    obtain ⟨mark, hmark, hword⟩ := List.exists_of_findSome?_eq_some h
    exact ⟨mark, hmark, word?_eq_some_iff.1 hword⟩
  · rintro ⟨mark, hmark, rfl⟩
    -- The marks begin with different letters, so the readers before this one fail.
    simp only [integerMarks, List.mem_cons, List.not_mem_nil, or_false] at hmark
    rcases hmark with rfl | rfl | rfl <;> rfl

/-- Behind the mark of an integer type with a literal range, every letter stands for itself. -/
theorem map_foldLongS_range {g g' : Text} (hg : IsGap g) (hg' : IsGap g')
    (hx : IsRange true x l r) :
    t.map foldLongS = g ++ ("range".toList ++ (g' ++ x)) ↔
      t = g ++ ("range".toList ++ (g' ++ x)) := by
  have hplain {c : Char} (hblank : isBlank c = false) (hword : c ∉ "range".toList) (hc : c ∉ x) :
      c ∉ g ++ ("range".toList ++ (g' ++ x)) := by
    simp only [List.mem_append, not_or]
    exact ⟨hg.blanks.notMem hblank, hword, hg'.blanks.notMem hblank, hc⟩
  apply map_foldLongS_eq_iff
  · exact hplain (by decide) (by decide) (hx.notMem (by decide))
  · exact hplain (by decide) (by decide) (hx.notMem (by decide))

/-- The bounds of an integer type are the literal range behind its mark and the word range. -/
theorem integerBounds?_eq_some_iff :
    integerBounds? t = some (l, r) ↔
      ∃ m g g' x, t = m ++ (g ++ ("range".toList ++ (g' ++ x))) ∧
        (∃ mark ∈ integerMarks, m.map foldLongS = mark.toList) ∧ IsGap g ∧ IsGap g' ∧
        bounds? true x = some (l, r, []) := by
  constructor
  · intro h
    simp only [integerBounds?, Option.bind_eq_bind, Option.bind_eq_some_iff] at h
    obtain ⟨_, hmark, _, hgap, _, hrange, x, hgap', ⟨_, _, rest⟩, hbounds, hrest⟩ := h
    split at hrest
    · rename_i hempty
      cases hrest
      obtain rfl : rest = [] := List.isEmpty_iff.1 hempty
      obtain ⟨mark, hmem, hmark⟩ := findSome?_integerMarks.1 hmark
      obtain ⟨g, hg, rfl, -⟩ := blanks?_eq_some_iff.1 hgap
      obtain rfl := word?_eq_some_iff.1 hrange
      obtain ⟨g', hg', rfl, -⟩ := blanks?_eq_some_iff.1 hgap'
      -- The marks are compared in a folded text. Only the mark itself can hold a character that is
      -- folded.
      obtain ⟨m, rest, rfl, hm, hfold⟩ := List.map_eq_append_iff.1 hmark
      rw [map_foldLongS_range hg hg' (isRange_of_bounds? hbounds)] at hfold
      exact ⟨m, g, g', x, by rw [hfold], ⟨mark, hmem, hm⟩, hg, hg', hbounds⟩
    · cases hrest
  · rintro ⟨m, g, g', x, rfl, ⟨mark, hmem, hm⟩, hg, hg', hx⟩
    obtain ⟨_, _, _, _, _, hleft, _, _, _, hv, -, -⟩ := bounds?_eq_some_iff.1 hx
    have hword : IsToken "range".toList := by decide
    have hfold : (m ++ (g ++ ("range".toList ++ (g' ++ x)))).map foldLongS =
        mark.toList ++ (g ++ ("range".toList ++ (g' ++ x))) := by
      rw [List.map_append, hm, (map_foldLongS_range hg hg' (isRange_of_bounds? hx)).2 rfl]
    have hmark := findSome?_integerMarks.2
      ⟨mark, hmem, (rfl : _ = mark.toList ++ (g ++ ("range".toList ++ (g' ++ x))))⟩
    have hgap := blanks?_eq_some_iff.2 ⟨g, hg, rfl, hword.head? (g' ++ x)⟩
    have hrange := word?_eq_some_iff.2 (rfl : "range".toList ++ (g' ++ x) = _)
    have hgap' := blanks?_eq_some_iff.2 ⟨g', hg', rfl, hleft ▸ hv.isToken.head? _⟩
    simp only [integerBounds?, hfold, hmark, hgap, hrange, hgap', hx, Option.bind_eq_bind,
      Option.bind_some]
    rfl

/-- The characters of the mark of an integer type. -/
theorem isIdent_of_integerMark {m : Text} (h : ∃ mark ∈ integerMarks, m.map foldLongS = mark.toList)
    {c : Char} (hc : c ∈ m) : isIdent c = true ∨ c = 'ſ' := by
  obtain ⟨mark, hmark, hfold⟩ := h
  have hmem : foldLongS c ∈ mark.toList := hfold ▸ List.mem_map_of_mem hc
  have hident : integerMarks.all (fun mark => mark.toList.all isIdent) = true := by decide
  by_cases hlong : c = 'ſ'
  · exact .inr hlong
  · rw [foldLongS, if_neg (by simpa using hlong)] at hmem
    exact .inl (List.all_eq_true.1 (List.all_eq_true.1 hident mark hmark) c hmem)

/-- The words of an integer type with a literal range. -/
theorem words_of_integerBounds? (h : integerBounds? t = some (l, r)) :
    ∃ m x, words t = m :: "range".toList :: words x ∧ IsRange true x l r ∧
      ∀ c ∈ m, isIdent c = true ∨ c = 'ſ' := by
  obtain ⟨m, g, g', x, rfl, hm, hg, hg', hx⟩ := integerBounds?_eq_some_iff.1 h
  have hident : ∀ c ∈ m, isIdent c = true ∨ c = 'ſ' := fun c hc => isIdent_of_integerMark hm hc
  have htoken : IsToken m := by
    obtain ⟨mark, hmark, hfold⟩ := hm
    refine ⟨?_, fun c hc => ?_⟩
    · rintro rfl
      simp only [integerMarks, List.mem_cons, List.not_mem_nil, or_false] at hmark
      rcases hmark with rfl | rfl | rfl <;> cases hfold
    · rcases hident c hc with hc | rfl
      · exact isBlank_of_isIdent hc
      · decide
  have hword : IsToken "range".toList := by decide
  refine ⟨m, x, ?_, isRange_of_bounds? hx, hident⟩
  rw [words_append_blanks_append hg.blanks hg.ne_nil, words_append_blanks_append hg'.blanks
    hg'.ne_nil, htoken.words_eq, hword.words_eq]
  rfl

/-- An integer type with a literal range has letters, digits, blanks and minus signs only. -/
theorem mem_of_integerBounds? (h : integerBounds? t = some (l, r)) {c : Char} (hc : c ∈ t)
    (hblank : isBlank c = false) : isIdent c = true ∨ c = 'ſ' ∨ c = '-' := by
  obtain ⟨m, g, g', x, rfl, hm, hg, hg', hx⟩ := integerBounds?_eq_some_iff.1 h
  simp only [List.mem_append, hg.blanks.notMem hblank, hg'.blanks.notMem hblank, false_or] at hc
  rcases hc with hc | hc | hc
  · rcases isIdent_of_integerMark hm hc with hident | hlong
    · exact .inl hident
    · exact .inr (.inl hlong)
  · have hword : "range".toList.all isIdent = true := by decide
    exact .inl (List.all_eq_true.1 hword c hc)
  · rcases (isRange_of_bounds? hx).mem hc hblank with hdigit | hother
    · exact .inl (by simp [isIdent, Char.isAlphanum, hdigit])
    · rcases List.mem_cons.1 hother with hminus | hdirection
      · exact .inr (.inr hminus)
      · have hword : "downto".toList.all isIdent = true := by decide
        exact .inl (List.all_eq_true.1 hword c hdirection)

end DesignFacts.Width

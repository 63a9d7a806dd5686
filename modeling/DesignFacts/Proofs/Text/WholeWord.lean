import DesignFacts.Proofs.Text.Blank

/-!
# Whole words

A word stands in a text as a whole word where it is spelled in some letter case and no identifier
character touches it (`WordAt`). Character by character, the first such place is found by asking at
each one whether the word begins there (`cutWordFrom`).

**Blanks.** Neither a word nor what touches it reaches over a blank. So the text before some blanks
and the text behind them are searched each by itself (`cutWordFrom_append_blanks`), and blanks at
the ends of a text do not matter.

**Identifiers.** In a text of identifier characters only the whole of it can be found
(`cutWordFrom_of_isIdent`).
-/

namespace DesignFacts.Text

variable {word s t b left right : Text} {inside : Bool}

/-- A word stands at a place of a text as a whole word. -/
structure WordAt (word t : Text) (k : Nat) : Prop where
  spelled : same ((t.drop k).take word.length) word = true
  free_before : (t.take k).getLast?.any isIdent = false
  free_behind : (t.drop (k + word.length)).head?.any isIdent = false

instance (word t : Text) (k : Nat) : Decidable (WordAt word t k) :=
  decidable_of_iff (_ ∧ _ ∧ _) ⟨fun h => ⟨h.1, h.2.1, h.2.2⟩, fun h => ⟨h.1, h.2, h.3⟩⟩

/-- Cut a text at the first whole-word occurrence of a word, letter case apart, into what stands
before and behind it. `inside` says whether the character just before the text belongs to an
identifier. -/
def cutWordFrom (word : Text) (inside : Bool) : Text → Option (Text × Text)
  | [] => none
  | c :: cs =>
    let rest := (c :: cs).drop word.length
    if !inside && same ((c :: cs).take word.length) word && !(rest.head?.any isIdent) then
      some ([], rest)
    else (cutWordFrom word (isIdent c) cs).map fun (left, right) => (c :: left, right)

/-! ## Where the search ends -/

theorem length_eq_of_same {v w : Text} (h : same v w = true) : v.length = w.length := by
  rw [← length_lower, same_iff.1 h, length_lower]

theorem not_same_of_mem_isBlank {v w : Text} {c : Char} (hc : c ∈ v) (hblank : isBlank c = true)
    (hw : ∀ d ∈ w, isBlank d = false) : same v w = false := by
  rw [Bool.eq_false_iff]
  intro hsame
  have hmem : c.toLower ∈ lower w := same_iff.1 hsame ▸ List.mem_map_of_mem hc
  obtain ⟨d, hd, hlower⟩ := List.mem_map.1 hmem
  have hd' := hw d hd
  rw [← isBlank_toLower, hlower, isBlank_toLower, hblank] at hd'
  cases hd'

/-- The character before a place is the one passed over last. -/
theorem isIdent_before_cons (c : Char) (pre : Text) (inside : Bool) :
    ((c :: pre).getLast?.map isIdent).getD inside =
      (pre.getLast?.map isIdent).getD (isIdent c) := by
  rw [List.getLast?_cons, Option.map_some, Option.getD_some]
  cases pre.getLast? <;> rfl

/-- What the search for a whole word finds is the word with nothing touching it. -/
theorem exists_of_cutWordFrom (h : cutWordFrom word inside t = some (left, right)) :
    ∃ w, t = left ++ (w ++ right) ∧ same w word = true ∧
      (left.getLast?.map isIdent).getD inside = false ∧ right.head?.any isIdent = false := by
  induction t generalizing inside left with
  | nil => cases h
  | cons c t ih =>
    rw [cutWordFrom] at h
    split at h
    · rename_i hfound
      simp only [Bool.and_eq_true, Bool.not_eq_true'] at hfound
      obtain ⟨⟨hinside, hsame⟩, hbehind⟩ := hfound
      cases h
      exact ⟨_, (List.take_append_drop word.length (c :: t)).symm, hsame, hinside, hbehind⟩
    · obtain ⟨⟨rest, right'⟩, hrest, heq⟩ := Option.map_eq_some_iff.1 h
      cases heq
      obtain ⟨w, rfl, hsame, hbefore, hbehind⟩ := ih hrest
      exact ⟨w, rfl, hsame, (isIdent_before_cons c rest inside).trans hbefore, hbehind⟩

/-! ## Blanks -/

theorem isIdent_of_isBlank {c : Char} (hc : isBlank c = true) : isIdent c = false := by
  rw [Bool.eq_false_iff]
  intro hident
  rw [isBlank_of_isIdent hident] at hc
  cases hc

theorem cutWordFrom_cons_blank (hword : IsToken word) {c : Char} (hc : isBlank c = true)
    (t : Text) :
    cutWordFrom word inside (c :: t) =
      (cutWordFrom word false t).map (Prod.map (c :: ·) id) := by
  obtain ⟨d, word, rfl⟩ := List.exists_cons_of_ne_nil hword.ne_nil
  have hsame : same ((c :: t).take (d :: word).length) (d :: word) = false :=
    not_same_of_mem_isBlank (by simp) hc hword.not_blank
  rw [cutWordFrom, hsame, isIdent_of_isBlank hc, Bool.and_false, Bool.false_and,
    if_neg Bool.false_ne_true]
  rfl

theorem cutWordFrom_blanks_append (hword : IsToken word) (hb : IsBlanks b) (t : Text) :
    cutWordFrom word false (b ++ t) = (cutWordFrom word false t).map (Prod.map (b ++ ·) id) := by
  induction b with
  | nil => exact Option.map_id'.symm
  | cons c b ih =>
    rw [List.cons_append, cutWordFrom_cons_blank hword (hb c (by simp)),
      ih fun x hx => hb x (by simp [hx]), Option.map_map]
    rfl

/-- A word at the front of a text that ends in front of blanks stands there with the blanks as
well as without them. -/
theorem stands_append_blanks (hword : IsToken word) (hb : IsBlanks b) (hne : b ≠ []) (s t : Text) :
    (same ((s ++ (b ++ t)).take word.length) word &&
        !((s ++ (b ++ t)).drop word.length).head?.any isIdent) =
      (same (s.take word.length) word && !(s.drop word.length).head?.any isIdent) := by
  obtain ⟨c, b, rfl⟩ := List.exists_cons_of_ne_nil hne
  have hc : isBlank c = true := hb c (by simp)
  by_cases hfits : word.length ≤ s.length
  · rw [List.take_append_of_le_length hfits, List.drop_append_of_le_length hfits]
    cases s.drop word.length with
    | nil => simp [isIdent_of_isBlank hc]
    | cons d u => rfl
  · -- A longer word would reach over the blank.
    have hlong : same ((s ++ (c :: b ++ t)).take word.length) word = false := by
      refine not_same_of_mem_isBlank ?_ hc hword.not_blank
      rw [List.take_append, List.mem_append]
      obtain ⟨k, hk⟩ : ∃ k, word.length - s.length = k + 1 := ⟨_, (Nat.succ_pred (by omega)).symm⟩
      exact .inr (by simp [hk])
    have hshort : same (s.take word.length) word = false := by
      rw [Bool.eq_false_iff]
      intro hsame
      have hlength := length_eq_of_same hsame
      rw [List.length_take] at hlength
      omega
    rw [hlong, hshort, Bool.false_and, Bool.false_and]

theorem cutWordFrom_append_blanks (hword : IsToken word) (hb : IsBlanks b) (hne : b ≠ [])
    (inside : Bool) (s t : Text) :
    cutWordFrom word inside (s ++ (b ++ t)) =
      ((cutWordFrom word inside s).map (Prod.map id (· ++ (b ++ t)))).or
        ((cutWordFrom word false t).map (Prod.map ((s ++ b) ++ ·) id)) := by
  induction s generalizing inside with
  | nil =>
    obtain ⟨c, b, rfl⟩ := List.exists_cons_of_ne_nil hne
    rw [List.nil_append, List.cons_append, cutWordFrom_cons_blank hword (hb c (by simp)),
      cutWordFrom_blanks_append hword fun x hx => hb x (by simp [hx]), Option.map_map]
    rfl
  | cons c s ih =>
    have hstands := stands_append_blanks hword hb hne (c :: s) t
    rw [List.cons_append] at hstands ⊢
    rw [cutWordFrom, cutWordFrom, Bool.and_assoc, hstands, ← Bool.and_assoc, ih]
    split
    · rename_i hfound
      simp only [Bool.and_eq_true] at hfound
      have hlength := length_eq_of_same hfound.1.2
      have hfits : word.length ≤ (c :: s).length := by
        rw [List.length_take] at hlength
        omega
      rw [← List.cons_append, List.drop_append_of_le_length hfits]
      rfl
    · cases cutWordFrom word (isIdent c) s with
      | none =>
        rw [Option.map_none, Option.none_or, Option.map_none, Option.map_none, Option.none_or,
          Option.map_map]
        rfl
      | some sides => rfl

/-! ## Identifiers -/

/-- Inside an identifier no word is found. -/
theorem cutWordFrom_inside (h : ∀ c ∈ t, isIdent c = true) : cutWordFrom word true t = none := by
  induction t with
  | nil => rfl
  | cons c t ih =>
    rw [cutWordFrom, Bool.not_true, Bool.false_and, Bool.false_and, if_neg Bool.false_ne_true,
      h c (by simp), ih fun x hx => h x (by simp [hx])]
    rfl

theorem cutWordFrom_of_isIdent (hword : word ≠ []) (h : ∀ c ∈ t, isIdent c = true) :
    cutWordFrom word false t = if same t word then some ([], []) else none := by
  cases t with
  | nil =>
    have hno : same [] word = false := by
      rw [Bool.eq_false_iff]
      intro hsame
      exact hword (List.length_eq_zero_iff.1 (length_eq_of_same hsame).symm)
    rw [hno, if_neg Bool.false_ne_true]
    rfl
  | cons c t =>
    have hinside : cutWordFrom word (isIdent c) t = none := by
      rw [h c (by simp)]
      exact cutWordFrom_inside fun x hx => h x (by simp [hx])
    rw [cutWordFrom, hinside]
    by_cases hsame : same (c :: t) word = true
    · rw [← length_eq_of_same hsame, List.take_length, List.drop_length, if_pos hsame, if_pos]
      rw [Bool.and_eq_true, Bool.and_eq_true]
      exact ⟨⟨rfl, hsame⟩, rfl⟩
    · rw [if_neg hsame, if_neg, Option.map_none]
      intro hfound
      simp only [Bool.and_eq_true, Bool.not_eq_true'] at hfound
      -- Were it found at the front, all identifier characters would have to belong to it.
      have hnil : (c :: t).drop word.length = [] := by
        cases hdrop : (c :: t).drop word.length with
        | nil => rfl
        | cons d u =>
          have hd : isIdent d = true := by
            refine h d (List.mem_of_mem_drop (i := word.length) ?_)
            rw [hdrop]
            exact List.mem_cons_self
          rw [hdrop] at hfound
          simp [hd] at hfound
      have htake := List.take_append_drop word.length (c :: t)
      rw [hnil, List.append_nil] at htake
      rw [htake] at hfound
      exact hsame hfound.1.2

/-- The characters of basic identifiers. Beyond ASCII, everything but a blank counts as a letter. -/
def isNameChar (c : Char) : Bool := isIdent c || (0x80 ≤ c.toNat && !isBlank c)

/-- The texts of identifiers: basic ones, which do not begin with a digit, and extended ones, with
any characters between two backslashes. -/
inductive IsIdentifier : Text → Prop
  | basic {t : Text} (hne : t ≠ []) (hchars : ∀ c ∈ t, isNameChar c = true)
      (hdigit : ∀ c ∈ t.head?, c.isDigit = false) : IsIdentifier t
  | extended (body : Text) : IsIdentifier ('\\' :: (body ++ ['\\']))

theorem isBlank_of_isNameChar {c : Char} (h : isNameChar c = true) : isBlank c = false := by
  rw [isNameChar, Bool.or_eq_true, Bool.and_eq_true, Bool.not_eq_true'] at h
  rcases h with h | h
  · exact isBlank_of_isIdent h
  · exact h.2

namespace IsIdentifier

/-- A basic identifier, by tests that can be run. -/
theorem of_all (hne : t.isEmpty = false) (hchars : t.all isNameChar = true)
    (hdigit : t.head?.all (!·.isDigit) = true) : IsIdentifier t := by
  refine .basic (List.isEmpty_eq_false_iff.1 hne) (List.all_eq_true.1 hchars) fun c hc => ?_
  rw [Option.mem_def.1 hc, Option.all_some, Bool.not_eq_true'] at hdigit
  exact hdigit

theorem ne_nil (h : IsIdentifier t) : t ≠ [] := by
  cases h with
  | basic hne _ _ => exact hne
  | extended body => exact List.cons_ne_nil _ _

/-- An identifier begins with a character that is no blank, no digit, and no mark of a literal or
an operator. -/
theorem exists_head (h : IsIdentifier t) :
    ∃ c u, t = c :: u ∧ isBlank c = false ∧ c.isDigit = false ∧
      (isNameChar c = true ∨ c = '\\') := by
  cases h with
  | basic hne hchars hdigit =>
    obtain ⟨c, u, rfl⟩ := List.exists_cons_of_ne_nil hne
    have hc := hchars c List.mem_cons_self
    exact ⟨c, u, rfl, isBlank_of_isNameChar hc, hdigit c rfl, .inl hc⟩
  | extended body => exact ⟨_, _, rfl, by decide, by decide, .inr rfl⟩

theorem words_ne_nil (h : IsIdentifier t) : words t ≠ [] := by
  obtain ⟨c, u, rfl, hblank, -⟩ := h.exists_head
  obtain ⟨w, ws, hwords⟩ := words_cons hblank u
  rw [hwords]
  exact List.cons_ne_nil _ _

theorem getLast?_ne (h : IsIdentifier t) {c : Char} (hname : isNameChar c = false) (hc : c ≠ '\\') :
    t.getLast? ≠ some c := by
  intro hlast
  cases h with
  | basic hne hchars hdigit =>
    rw [hchars c (List.mem_of_getLast? hlast)] at hname
    cases hname
  | extended body =>
    rw [← List.cons_append, List.getLast?_concat] at hlast
    exact hc (Option.some.inj hlast).symm

theorem trim_eq (h : IsIdentifier t) : trim t = t := by
  cases h with
  | basic hne hchars hdigit => exact trim_eq_self fun c hc => isBlank_of_isNameChar (hchars c hc)
  | extended body =>
    have hback : IsToken ['\\'] := by decide
    exact trim_tokens hback hback body

end IsIdentifier

end DesignFacts.Text

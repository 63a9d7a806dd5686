import DesignFacts.Proofs.Text.Words

/-!
# Blanks around a text

Blanks in front of a text separate it from what stands before. Most functions on texts do not see
them (`SkipsBlanks`): such a function has the same value on the text without them
(`SkipsBlanks.trimStart_eq`).

Blanks at both ends are what `trim` takes away: it gives the same for a text with more of them
(`trim_pad`), and leaves texts alone that begin and end with something else.

Between its blanks, a text has its words: each is preceded by blanks and ends where the next blank
stands (`exists_of_words_eq_cons`).
-/

namespace DesignFacts.Text

/-- A function does not see blanks at the start of a text. -/
def SkipsBlanks {α : Type} (f : Text → α) : Prop :=
  ∀ (c : Char) (t : Text), isBlank c = true → f (c :: t) = f t

variable {α β : Type} {f : Text → α}

theorem SkipsBlanks.trimStart_eq (h : SkipsBlanks f) (t : Text) : f (trimStart t) = f t := by
  induction t with
  | nil => rfl
  | cons c t ih =>
    by_cases hc : isBlank c = true
    · rw [trimStart, List.dropWhile_cons_of_pos hc, h c t hc]
      exact ih
    · rw [trimStart, List.dropWhile_cons_of_neg hc]

theorem SkipsBlanks.comp (h : SkipsBlanks f) (g : α → β) : SkipsBlanks (g ∘ f) := by
  intro c t hc
  exact congrArg g (h c t hc)

theorem skipsBlanks_trim : SkipsBlanks trim := by
  intro c t hc
  rw [trim, trimStart, List.dropWhile_cons_of_pos hc]
  rfl

theorem skipsBlanks_compact : SkipsBlanks compact := by
  intro c t hc
  rw [compact, List.filter_cons_of_neg (by simp [hc])]
  rfl

theorem skipsBlanks_squash : SkipsBlanks squash := by
  intro c t hc
  rw [squash, ← List.nil_append (c :: t), words_append_cons hc]
  rfl

theorem isBlank_ne {c d : Char} (hc : isBlank c = true) (hd : isBlank d = false) : c ≠ d := by
  rintro rfl
  rw [hc] at hd
  cases hd

/-- Up to a character, the text is cut as without its blanks. -/
theorem skipsBlanks_trim_before {d : Char} (hd : isBlank d = false) :
    SkipsBlanks fun t => trim (before d t) := by
  intro c t hc
  show trim (before d (c :: t)) = trim (before d t)
  rw [before, List.takeWhile_cons_of_pos (by simp [isBlank_ne hc hd])]
  exact skipsBlanks_trim c _ hc

/-- Behind the last occurrence of a character, or if there is none, the text is the one without its
blanks. -/
theorem skipsBlanks_trim_afterLast {d : Char} (hd : isBlank d = false) :
    SkipsBlanks fun t => trim (afterLast d t) := by
  intro c t hc
  show trim (afterLast d (c :: t)) = trim (afterLast d t)
  rw [afterLast, afterLast, List.reverse_cons, List.takeWhile_append]
  split
  · rename_i hall
    have hwhole : t.reverse.takeWhile (· != d) = t.reverse :=
      (List.takeWhile_prefix _).eq_of_length hall
    rw [List.takeWhile_cons_of_pos (by simp [isBlank_ne hc hd]), List.takeWhile_nil, hwhole,
      List.reverse_append, List.reverse_reverse]
    exact skipsBlanks_trim c t hc
  · rfl

/-! ## Both ends -/

/-- A text of blanks only. -/
def IsBlanks (t : Text) : Prop := ∀ c ∈ t, isBlank c = true

instance (t : Text) : Decidable (IsBlanks t) := List.decidableBAll _ t

theorem isBlanks_nil : IsBlanks [] := fun _ hc => absurd hc List.not_mem_nil

theorem IsBlanks.notMem {t : Text} (h : IsBlanks t) {c : Char} (hc : isBlank c = false) :
    c ∉ t := by
  intro hmem
  rw [h c hmem] at hc
  cases hc

theorem IsBlanks.head?_append {b : Text} (hb : IsBlanks b) (hne : b ≠ [])
    (t : Text) : ∀ c ∈ (b ++ t).head?, isBlank c = true := by
  obtain ⟨c, b, rfl⟩ := List.exists_cons_of_ne_nil hne
  rintro x ⟨⟩
  exact hb _ List.mem_cons_self

theorem IsBlanks.lower {t : Text} (h : IsBlanks t) : IsBlanks (lower t) := by
  intro c hc
  obtain ⟨x, hx, rfl⟩ := List.mem_map.1 hc
  rw [isBlank_toLower]
  exact h x hx

variable {a b s t : Text}

theorem exists_eq_append_trimStart (t : Text) : ∃ a, IsBlanks a ∧ t = a ++ trimStart t :=
  ⟨t.takeWhile isBlank, List.all_eq_true.1 List.all_takeWhile, List.takeWhile_append_dropWhile.symm⟩

theorem trimEnd_eq_reverse (t : Text) : trimEnd t = (trimStart t.reverse).reverse := rfl

theorem exists_eq_trimEnd_append (t : Text) : ∃ b, IsBlanks b ∧ t = trimEnd t ++ b := by
  obtain ⟨a, ha, hsplit⟩ := exists_eq_append_trimStart t.reverse
  refine ⟨a.reverse, fun c hc => ha c (List.mem_reverse.1 hc), ?_⟩
  rw [trimEnd_eq_reverse, ← List.reverse_append, ← hsplit, List.reverse_reverse]

theorem trimStart_blanks_append (ha : IsBlanks a) (t : Text) : trimStart (a ++ t) = trimStart t :=
  List.dropWhile_append_of_pos ha

theorem trimEnd_append_blanks (hb : IsBlanks b) (t : Text) : trimEnd (t ++ b) = trimEnd t := by
  rw [trimEnd_eq_reverse, List.reverse_append,
    trimStart_blanks_append fun c hc => hb c (List.mem_reverse.1 hc)]
  rfl

theorem trimStart_append_of_mem {c : Char} (hc : c ∈ s) (hblank : isBlank c = false) (t : Text) :
    trimStart (s ++ t) = trimStart s ++ t := by
  have hmem : c ∈ trimStart s := mem_dropWhile_of_not hblank hc
  rw [trimStart, List.dropWhile_append, if_neg]
  · rfl
  · rw [Bool.not_eq_true, List.isEmpty_eq_false_iff_exists_mem]
    exact ⟨c, hmem⟩

theorem trimEnd_append_of_mem {c : Char} (hc : c ∈ t) (hblank : isBlank c = false) (s : Text) :
    trimEnd (s ++ t) = s ++ trimEnd t := by
  rw [trimEnd_eq_reverse, List.reverse_append,
    trimStart_append_of_mem (List.mem_reverse.2 hc) hblank, List.reverse_append,
    List.reverse_reverse]
  rfl

theorem trimStart_cons {c : Char} (hc : isBlank c = false) (t : Text) :
    trimStart (c :: t) = c :: t :=
  List.dropWhile_cons_of_neg (by simp [hc])

theorem trimEnd_concat {c : Char} (hc : isBlank c = false) (t : Text) :
    trimEnd (t ++ [c]) = t ++ [c] := by
  rw [trimEnd_append_of_mem (List.mem_singleton.2 rfl) hc, trimEnd_eq_reverse,
    List.reverse_singleton, trimStart_cons hc]
  rfl

/-- Trimming the end of a text leaves its first character, unless this is a blank. -/
theorem exists_trimEnd_cons {c : Char} (hc : isBlank c = false) (t : Text) :
    ∃ rest, trimEnd (c :: t) = c :: rest := by
  obtain ⟨b, -, hsplit⟩ := exists_eq_trimEnd_append (c :: t)
  have hmem : c ∈ trimEnd (c :: t) := mem_dropEnd_of_not hc (by simp)
  obtain ⟨x, rest, hcons⟩ := List.exists_cons_of_ne_nil (List.ne_nil_of_mem hmem)
  rw [hcons] at hsplit
  exact ⟨rest, by rw [hcons, (List.cons.inj hsplit).1]⟩

theorem trim_blanks_append (ha : IsBlanks a) (t : Text) : trim (a ++ t) = trim t := by
  rw [trim, trimStart_blanks_append ha, trim]

theorem trim_append_blanks (hb : IsBlanks b) (t : Text) : trim (t ++ b) = trim t := by
  by_cases ht : IsBlanks t
  · rw [trim_blanks_append ht, ← List.append_nil b, trim_blanks_append hb,
      ← List.append_nil t, trim_blanks_append ht]
  · obtain ⟨c, hc, hblank⟩ : ∃ c ∈ t, isBlank c = false := by
      simpa [IsBlanks] using ht
    rw [trim, trimStart_append_of_mem hc hblank, trimEnd_append_blanks hb, trim]

theorem trim_pad (ha : IsBlanks a) (hb : IsBlanks b) (t : Text) :
    trim (a ++ t ++ b) = trim t := by
  rw [trim_append_blanks hb, trim_blanks_append ha]

theorem trim_trimStart (t : Text) : trim (trimStart t) = trim t := by
  obtain ⟨a, ha, hsplit⟩ := exists_eq_append_trimStart t
  rw [← trim_blanks_append ha, ← hsplit]

theorem trim_trimEnd (t : Text) : trim (trimEnd t) = trim t := by
  obtain ⟨b, hb, hsplit⟩ := exists_eq_trimEnd_append t
  rw [← trim_append_blanks hb, ← hsplit]

theorem trimStart_trimStart (t : Text) : trimStart (trimStart t) = trimStart t := by
  obtain ⟨a, ha, hsplit⟩ := exists_eq_append_trimStart t
  rw [← trimStart_blanks_append ha (trimStart t), ← hsplit]

theorem trimEnd_trimEnd (t : Text) : trimEnd (trimEnd t) = trimEnd t := by
  obtain ⟨b, hb, hsplit⟩ := exists_eq_trimEnd_append t
  rw [← trimEnd_append_blanks hb (trimEnd t), ← hsplit]

theorem mem_of_mem_trimEnd {c : Char} (h : c ∈ trimEnd t) : c ∈ t := by
  rw [trimEnd_eq_reverse, List.mem_reverse] at h
  exact List.mem_reverse.1 ((List.dropWhile_sublist _).subset h)

theorem mem_of_mem_trim {c : Char} (h : c ∈ trim t) : c ∈ t :=
  (List.dropWhile_sublist _).subset (mem_of_mem_trimEnd h)

/-- What stands behind a character that is no blank is not trimmed at its start. -/
theorem trimStart_append_cons {c : Char} (hc : isBlank c = false) (s t : Text) :
    trimStart (s ++ c :: t) = trimStart s ++ c :: t := by
  by_cases hs : IsBlanks s
  · have hnil : trimStart s = [] := by
      rw [← List.append_nil s, trimStart_blanks_append hs]
      rfl
    rw [trimStart_blanks_append hs, trimStart_cons hc, hnil, List.nil_append]
  · obtain ⟨x, hx, hblank⟩ : ∃ x ∈ s, isBlank x = false := by
      simpa [IsBlanks] using hs
    exact trimStart_append_of_mem hx hblank _

/-- What stands in front of a character that is no blank is not trimmed at its end. -/
theorem trimEnd_append_cons {c : Char} (hc : isBlank c = false) (s t : Text) :
    trimEnd (s ++ c :: t) = s ++ c :: trimEnd t := by
  by_cases ht : IsBlanks t
  · have hnil : trimEnd t = [] := trimEnd_append_blanks ht []
    have happend := trimEnd_append_blanks ht (s ++ [c])
    rw [List.append_assoc, List.singleton_append, trimEnd_concat hc] at happend
    rw [happend, hnil]
  · obtain ⟨x, hx, hblank⟩ : ∃ x ∈ t, isBlank x = false := by
      simpa [IsBlanks] using ht
    have happend := trimEnd_append_of_mem hx hblank (s ++ [c])
    simpa using happend

/-- Two texts that are not blank are trimmed each at its own end. -/
theorem trim_append_cons {x y : Char} (hx : x ∈ s) (hxblank : isBlank x = false) (c : Char)
    (hy : y ∈ t) (hyblank : isBlank y = false) :
    trim (s ++ c :: t) = trimStart s ++ c :: trimEnd t := by
  rw [trim, trimStart_append_of_mem hx hxblank,
    trimEnd_append_of_mem (List.mem_cons_of_mem c hy) hyblank]
  exact congrArg (trimStart s ++ ·) (trimEnd_append_of_mem hy hyblank [c])

theorem trimStart_eq_self (h : ∀ c ∈ t.head?, isBlank c = false) : trimStart t = t := by
  cases t with
  | nil => rfl
  | cons c t => exact trimStart_cons (h c rfl) t

/-- A text that neither begins nor ends with a blank is trimmed. -/
theorem trim_eq_self_of_ends (hhead : ∀ c ∈ t.head?, isBlank c = false)
    (hlast : ∀ c ∈ t.getLast?, isBlank c = false) : trim t = t := by
  have hend : ∀ c ∈ t.reverse.head?, isBlank c = false := by
    rw [List.head?_reverse]
    exact hlast
  rw [trim, trimStart_eq_self hhead, trimEnd_eq_reverse, trimStart_eq_self hend,
    List.reverse_reverse]

/-- A text without blanks is trimmed. -/
theorem trim_eq_self (h : ∀ c ∈ t, isBlank c = false) : trim t = t :=
  trim_eq_self_of_ends (fun c hc => h c (List.mem_of_head? hc))
    fun c hc => h c (List.mem_of_getLast? hc)

theorem trim_trim (t : Text) : trim (trim t) = trim t :=
  (trim_trimEnd (trimStart t)).trans (trim_trimStart t)

theorem compact_append (s t : Text) : compact (s ++ t) = compact s ++ compact t :=
  List.filter_append ..

theorem compact_blanks (ha : IsBlanks a) : compact a = [] :=
  List.filter_eq_nil_iff.2 fun c hc => by simp [ha c hc]

theorem compact_trimEnd (t : Text) : compact (trimEnd t) = compact t := by
  obtain ⟨b, hb, hsplit⟩ := exists_eq_trimEnd_append t
  conv_rhs => rw [hsplit, compact_append, compact_blanks hb, List.append_nil]

theorem compact_trim (t : Text) : compact (trim t) = compact t := by
  rw [trim, compact_trimEnd, skipsBlanks_compact.trimStart_eq]

theorem isBlanks_of_compact_eq_nil (h : compact t = []) : IsBlanks t := by
  intro c hc
  have hnot := List.filter_eq_nil_iff.1 h c hc
  simpa using hnot

/-- Two fronts of a text with the same characters apart from blanks differ by blanks at the end. -/
theorem exists_blanks_of_compact_eq {s s' v v' : Text} (h : s ++ v = s' ++ v')
    (hcompact : compact s = compact s') (hlast : ∀ c ∈ s.getLast?, isBlank c = false) :
    ∃ g, IsBlanks g ∧ s' = s ++ g := by
  rcases List.append_eq_append_iff.1 h with ⟨g, rfl, -⟩ | ⟨g, rfl, -⟩
  · rw [compact_append] at hcompact
    exact ⟨g, isBlanks_of_compact_eq_nil (List.self_eq_append_right.1 hcompact), rfl⟩
  · rw [compact_append] at hcompact
    have hg := isBlanks_of_compact_eq_nil (List.append_right_eq_self.1 hcompact)
    cases hlast' : g.getLast? with
    | none =>
      obtain rfl := List.getLast?_eq_none_iff.1 hlast'
      exact ⟨[], isBlanks_nil, by simp⟩
    | some c =>
      have hc := hlast c (by rw [List.getLast?_append, hlast']; rfl)
      exact absurd (hg c (List.mem_of_getLast? hlast')) (by simp [hc])

/-- A text without blanks is compact. -/
theorem compact_eq_self (h : ∀ c ∈ t, isBlank c = false) : compact t = t :=
  List.filter_eq_self.2 fun c hc => by simp [h c hc]

/-! ## Words between blanks -/

/-- A word: something without blanks. -/
structure IsToken (w : Text) : Prop where
  ne_nil : w ≠ []
  not_blank : ∀ c ∈ w, isBlank c = false

instance (w : Text) : Decidable (IsToken w) :=
  @decidable_of_iff _ _ ⟨fun h => ⟨h.1, h.2⟩, fun h => ⟨h.ne_nil, h.not_blank⟩⟩
    (@instDecidableAnd _ _ _ (List.decidableBAll _ w))

variable {w : Text} {ws : List Text}

theorem IsToken.head? (h : IsToken w) (t : Text) : ∀ c ∈ (w ++ t).head?, isBlank c = false := by
  intro c hc
  obtain ⟨x, w, rfl⟩ := List.exists_cons_of_ne_nil h.ne_nil
  obtain rfl : x = c := Option.some.inj hc
  exact h.not_blank x (by simp)

theorem words_blanks_append (ha : IsBlanks a) (t : Text) : words (a ++ t) = words t := by
  induction a with
  | nil => rfl
  | cons c a ih =>
    have hskip := words_append_cons (ha c (by simp)) [] (a ++ t)
    exact hskip.trans (ih fun x hx => ha x (by simp [hx]))

/-- Blanks separate the words before them from those after them. -/
theorem words_append_blanks_append (ha : IsBlanks a) (hne : a ≠ []) (s t : Text) :
    words (s ++ (a ++ t)) = words s ++ words t := by
  obtain ⟨c, a, rfl⟩ := List.exists_cons_of_ne_nil hne
  rw [List.cons_append, words_append_cons (ha c (by simp)),
    words_blanks_append fun x hx => ha x (by simp [hx])]

theorem words_append_blanks (hb : IsBlanks b) (t : Text) : words (t ++ b) = words t := by
  cases b with
  | nil => rw [List.append_nil]
  | cons c b =>
    have hsplit := words_append_blanks_append hb (List.cons_ne_nil c b) t []
    rw [List.append_nil] at hsplit
    exact hsplit.trans (List.append_nil _)

theorem IsToken.lower (h : IsToken w) : IsToken (lower w) where
  ne_nil := by simpa [Text.lower] using h.ne_nil
  not_blank := by
    intro c hc
    obtain ⟨x, hx, rfl⟩ := List.mem_map.1 hc
    rw [isBlank_toLower]
    exact h.not_blank x hx

theorem IsToken.append (hw : IsToken w) (hs : ∀ c ∈ s, isBlank c = false) : IsToken (s ++ w) where
  ne_nil := by simp [hw.ne_nil]
  not_blank := by
    intro c hc
    rcases List.mem_append.1 hc with hc | hc
    · exact hs c hc
    · exact hw.not_blank c hc

theorem IsToken.trimEnd_append (hw : IsToken w) (t : Text) : trimEnd (w ++ t) = w ++ trimEnd t := by
  rcases w.eq_nil_or_concat with rfl | ⟨v, c, rfl⟩
  · exact absurd rfl hw.ne_nil
  · rw [List.concat_eq_append, List.append_assoc, List.singleton_append,
      trimEnd_append_cons (hw.not_blank c (by simp)), List.append_assoc]
    rfl

/-- A text between two words is trimmed with them. -/
theorem trim_tokens {v : Text} (hv : IsToken v) (hw : IsToken w) (t : Text) :
    trim (v ++ (t ++ w)) = v ++ (t ++ w) := by
  refine trim_eq_self_of_ends (hv.head? _) fun c hc => ?_
  rw [List.getLast?_append_of_ne_nil _ (by simp [hw.ne_nil]),
    List.getLast?_append_of_ne_nil _ hw.ne_nil] at hc
  exact hw.not_blank c (List.mem_of_getLast? hc)

theorem IsToken.words_eq (h : IsToken w) : words w = [w] := by
  have hsplit := splitWith_append_of_not h.not_blank (rfl : splitWith isBlank [] = [[]])
  rw [List.append_nil] at hsplit
  rw [words, hsplit, List.filter_singleton, List.isEmpty_eq_false_iff.2 h.ne_nil]
  rfl

/-- What follows the first word of a text begins with a blank. -/
theorem exists_of_words_eq_cons (h : words t = w :: ws) :
    ∃ a u, IsBlanks a ∧ t = a ++ (w ++ u) ∧ (∀ c ∈ u.head?, isBlank c = true) ∧ words u = ws := by
  obtain ⟨a, ha, hsplit⟩ := exists_eq_append_trimStart t
  rw [hsplit, words_blanks_append ha] at h
  cases hstart : trimStart t with
  | nil =>
    rw [hstart] at h
    cases h
  | cons c rest =>
    have hc : isBlank c = false := by
      have hhead := List.head?_dropWhile_not isBlank t
      rw [← trimStart, hstart] at hhead
      exact hhead
    -- The first word ends where the next blank stands.
    let v := (c :: rest).takeWhile (!isBlank ·)
    let u := (c :: rest).dropWhile (!isBlank ·)
    have hv : IsToken v := by
      refine ⟨by simp [v, hc], fun x hx => ?_⟩
      simpa using List.all_eq_true.1 List.all_takeWhile x hx
    have hu : ∀ x ∈ u.head?, isBlank x = true := by
      intro x hx
      have hhead := List.head?_dropWhile_not (!isBlank ·) (c :: rest)
      rw [show (c :: rest).dropWhile (!isBlank ·) = u from rfl, hx] at hhead
      simpa using hhead
    have happend : c :: rest = v ++ u := List.takeWhile_append_dropWhile.symm
    have hwords : words (v ++ u) = v :: words u := by
      cases hu' : u with
      | nil => rw [List.append_nil, hv.words_eq]; rfl
      | cons x u' =>
        have hx : isBlank x = true := hu x (by rw [hu']; rfl)
        rw [words_append_cons hx, hv.words_eq, ← List.nil_append (x :: u'), words_append_cons hx]
        rfl
    rw [hstart, happend, hwords] at h
    obtain ⟨rfl, rfl⟩ := List.cons.inj h
    exact ⟨a, u, ha, by rw [← happend, ← hstart, ← hsplit], hu, rfl⟩

theorem words_trim (t : Text) : words (trim t) = words t := by
  obtain ⟨a, ha, hstart⟩ := exists_eq_append_trimStart t
  obtain ⟨b, hb, hend⟩ := exists_eq_trimEnd_append (trimStart t)
  rw [hstart, words_blanks_append ha, hend, words_append_blanks hb, ← hend, ← hstart]
  rfl

/-- A character at which a text is not split stands in one of the parts. -/
theorem exists_mem_splitWith {p : Char → Bool} {c : Char} (hc : c ∈ t) (hp : p c = false) :
    ∃ part ∈ splitWith p t, c ∈ part := by
  induction t with
  | nil => simp at hc
  | cons d t ih =>
    rw [splitWith]
    rcases List.mem_cons.1 hc with rfl | hc
    · rw [if_neg (by simp [hp])]
      cases splitWith p t <;> simp
    · obtain ⟨part, hpart, hmem⟩ := ih hc
      split
      · exact ⟨part, List.mem_cons_of_mem _ hpart, hmem⟩
      · cases hparts : splitWith p t with
        | nil => simp [hparts] at hpart
        | cons first parts =>
          rw [hparts] at hpart
          rcases List.mem_cons.1 hpart with rfl | hpart
          · exact ⟨d :: part, List.mem_cons_self, List.mem_cons_of_mem d hmem⟩
          · exact ⟨part, List.mem_cons_of_mem _ hpart, hmem⟩

theorem exists_mem_words {c : Char} (hc : c ∈ t) (hblank : isBlank c = false) :
    ∃ w ∈ words t, c ∈ w := by
  obtain ⟨w, hw, hmem⟩ := exists_mem_splitWith hc hblank
  exact ⟨w, List.mem_filter.2 ⟨hw, by simp [List.ne_nil_of_mem hmem]⟩, hmem⟩

theorem isBlanks_of_words_eq_nil (h : words t = []) : IsBlanks t := by
  intro c hc
  by_contra hblank
  obtain ⟨w, hw, -⟩ := exists_mem_words hc (Bool.eq_false_iff.2 hblank)
  rw [h] at hw
  cases hw

theorem isToken_of_mem_words {t w : Text} (hw : w ∈ words t) : IsToken w where
  ne_nil := by
    have hne := (List.mem_filter.1 hw).2
    simpa using hne
  not_blank := not_isBlank_of_mem_words hw

/-- Words with a space between them are the words of the text they make. -/
theorem words_join (h : ∀ w ∈ ws, IsToken w) : words (join " " ws) = ws := by
  induction ws with
  | nil => rfl
  | cons w ws ih =>
    cases ws with
    | nil => simpa [join, List.intercalate] using (h w (by simp)).words_eq
    | cons v vs =>
      have hstep : join " " (w :: v :: vs) = w ++ ' ' :: join " " (v :: vs) := by
        simp [join, List.intercalate]
      rw [hstep, words_append_cons (by decide), (h w (by simp)).words_eq,
        ih fun x hx => h x (by simp [hx])]
      rfl

theorem IsToken.squash_eq (h : IsToken w) : squash w = w := by
  rw [squash, h.words_eq]
  simp [join, List.intercalate]

theorem words_squash (t : Text) : words (squash t) = words t :=
  words_join fun _ => isToken_of_mem_words

/-- A text without its blanks is made up of its words. -/
theorem flatten_words (t : Text) : (words t).flatten = compact t := by
  rw [compact, ← flatten_splitWith, words]
  induction splitWith isBlank t with
  | nil => rfl
  | cons w ws ih => cases w <;> simp [ih]

theorem compact_squash (t : Text) : compact (squash t) = compact t := by
  rw [← flatten_words, words_squash, flatten_words]

theorem squash_squash (t : Text) : squash (squash t) = squash t :=
  congrArg (join " ") (words_squash t)

theorem squash_blanks_append (ha : IsBlanks a) (t : Text) : squash (a ++ t) = squash t := by
  rw [squash, words_blanks_append ha, squash]

theorem squash_append_blanks (hb : IsBlanks b) (t : Text) : squash (t ++ b) = squash t := by
  rw [squash, words_append_blanks hb, squash]

theorem squash_trim (t : Text) : squash (trim t) = squash t := by
  rw [squash, words_trim, squash]

/-- A text that does not begin with a blank begins as before when it is squashed. -/
theorem exists_squash_cons {c : Char} (hc : isBlank c = false) (t : Text) :
    ∃ u, squash (c :: t) = c :: u := by
  obtain ⟨w, ws, hwords⟩ := words_cons hc t
  rw [squash, hwords]
  cases ws with
  | nil => exact ⟨w, by simp [join, List.intercalate]⟩
  | cons v vs => exact ⟨_, by simp [join, List.intercalate]; rfl⟩

theorem trim_squash (t : Text) : trim (squash t) = squash t := by
  rcases (words t).eq_nil_or_concat with hnil | ⟨vs, v, hconcat⟩
  · rw [squash, hnil]
    rfl
  · rw [List.concat_eq_append] at hconcat
    have hv : IsToken v := isToken_of_mem_words (by rw [hconcat]; simp)
    have hsquash : squash t = glue vs [] ++ v := by
      rw [squash, hconcat, join_append (by simp), glue_eq_append]
      simp [join, List.intercalate]
    refine trim_eq_self_of_ends ?_ ?_
    · cases vs with
      | nil =>
        rw [hsquash]
        exact fun c hc => hv.not_blank c (List.mem_of_head? hc)
      | cons w vs =>
        have hw : IsToken w := isToken_of_mem_words (by rw [hconcat]; simp)
        rw [hsquash, glue, List.foldr_cons, List.append_assoc]
        exact hw.head? _
    · rw [hsquash, List.getLast?_append_of_ne_nil _ hv.ne_nil]
      exact fun c hc => hv.not_blank c (List.mem_of_getLast? hc)

theorem squash_trimEnd (t : Text) : squash (trimEnd t) = squash t := by
  obtain ⟨b, hb, hsplit⟩ := exists_eq_trimEnd_append t
  rw [← squash_append_blanks hb, ← hsplit]

/-- A text that is not blank has a character that is none. -/
theorem exists_mem_of_not_isBlanks (h : ¬ IsBlanks t) : ∃ c ∈ t, isBlank c = false := by
  simpa [IsBlanks] using h

/-- Squashing leaves nothing of blanks only. -/
theorem squash_eq_nil_iff : squash t = [] ↔ IsBlanks t := by
  constructor
  · intro h
    refine isBlanks_of_words_eq_nil ?_
    rw [← words_squash, h]
    rfl
  · intro h
    rw [← List.append_nil t, squash_blanks_append h]
    rfl

theorem isEmpty_squash_of_mem {c : Char} (hc : c ∈ t) (hblank : isBlank c = false) :
    (squash t).isEmpty = false := by
  rw [List.isEmpty_eq_false_iff, ne_eq, squash_eq_nil_iff]
  intro hblanks
  exact hblanks.notMem hblank hc

theorem toNat_of_isIdent {c : Char} (h : isIdent c = true) : 48 ≤ c.toNat ∧ c.toNat ≤ 122 := by
  simp only [isIdent, Char.isAlphanum, Bool.or_eq_true, isAlpha_iff, isDigit_iff, beq_iff_eq] at h
  rcases h with (h | h) | rfl
  · omega
  · omega
  · decide

/-- Letters, digits and the underscore lie between the blanks of ASCII and the others. -/
theorem isBlank_of_isIdent {c : Char} (h : isIdent c = true) : isBlank c = false := by
  have hrange := toNat_of_isIdent h
  simp only [isBlank, Bool.or_eq_false_iff, Bool.and_eq_false_iff, decide_eq_false_iff_not,
    beq_eq_false_iff_ne]
  omega

end DesignFacts.Text

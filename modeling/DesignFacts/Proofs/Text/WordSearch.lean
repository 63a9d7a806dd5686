import DesignFacts.Proofs.Text.Encoding
import DesignFacts.Proofs.Text.WholeWord
import Mathlib.Order.Bounds.Defs

/-!
# The offset of a whole word

The search for a word gives a byte offset. Which offset that is can be said on bytes alone: the
least one at which the bytes of the word stand, letter case apart, with no letter, digit or
underscore directly before or behind them (`StandsAt`).

**Places.** The letters of a word are ASCII, so the bytes of the word stand only where its
characters do. What is beside them in bytes is an identifier character just if it is one in
characters, also where it is the last byte of a longer character (`standsAt_iff`).

**The loop.** The search looks for the bytes of the word, tests what is beside them, and goes on one
byte behind the place if that fails. The byte is a letter of the word, so no turn of the loop starts
inside a character, and the places it passes over are those at which a search character by character
finds nothing (`findWordFrom_eq`).

**First places.** The search tries one character after another and stops no later than at any place
where the word stands (`exists_cutWordFrom`).

**Cutting.** So the text is cut where that search cuts it (`cutWord_eq`), and what holds of the one
cut holds of the other.

Main result: `findWord_isLeast`.
-/

namespace DesignFacts.Text

variable {word w s t b pre post left right rest : Text} {inside : Bool} {k start : Nat}

/-- A word stands at a byte offset of a text as a whole word, letter case apart. -/
structure StandsAt (word t : Text) (k : Nat) : Prop where
  spelled : textBytes (lower word) <+: (textBytes (lower t)).drop k
  free_before : ∀ j, j + 1 = k → byteIs isIdent t j = false
  free_behind : byteIs isIdent t (k + bytes word) = false

theorem asciiOnly_isIdent : AsciiOnly isIdent := fun _ h =>
  Nat.lt_of_le_of_lt (toNat_of_isIdent h).2 (by decide)

/-! ## What is beside a place -/

theorem getD_map_isIdent (o : Option Char) : (o.map isIdent).getD false = o.any isIdent := by
  cases o <;> rfl

/-- The byte before an offset belongs to an identifier if the last character before it does. -/
theorem free_before_eq (pre post : Text) :
    (bytes pre == 0 || !byteIs isIdent (pre ++ post) (bytes pre - 1)) =
      !pre.getLast?.any isIdent := by
  rcases pre.eq_nil_or_concat with rfl | ⟨init, c, rfl⟩
  · rfl
  · have hpos := c.utf8Size_pos
    have hbytes : bytes (init ++ [c]) = bytes init + c.utf8Size := by simp
    have hlast : byteIs isIdent (init ++ c :: post) (bytes init + c.utf8Size - 1) = isIdent c :=
      byteIs_eq asciiOnly_isIdent post (by omega) (by omega)
    have hsome : (bytes init + c.utf8Size == 0) = false := by simp; omega
    rw [List.concat_eq_append, hbytes, hsome, Bool.false_or, List.append_assoc,
      List.singleton_append, hlast, List.getLast?_concat, Option.any_some]

theorem byteIs_before_iff (pre post : Text) :
    (∀ j, j + 1 = bytes pre → byteIs isIdent (pre ++ post) j = false) ↔
      pre.getLast?.any isIdent = false := by
  rw [← Bool.not_eq_true', ← free_before_eq pre post, Bool.or_eq_true, beq_iff_eq,
    Bool.not_eq_true']
  constructor
  · intro h
    rcases Nat.eq_zero_or_pos (bytes pre) with hzero | hpos
    · exact .inl hzero
    · exact .inr (h _ (Nat.sub_add_cancel hpos))
  · rintro h j hj
    obtain rfl : j = bytes pre - 1 := by omega
    exact h.resolve_left (by omega)

/-- The byte at an offset belongs to an identifier if the character there does. -/
theorem byteIs_behind (pre post : Text) :
    byteIs isIdent (pre ++ post) (bytes pre) = post.head?.any isIdent := by
  cases post with
  | nil => rw [List.append_nil, byteIs_of_le (Nat.le_refl _), List.head?_nil, Option.any_none]
  | cons c post =>
    have hpos := c.utf8Size_pos
    rw [byteIs_eq asciiOnly_isIdent post (Nat.le_refl _) (by omega)]
    rfl

/-! ## Places -/

theorem bytes_eq_of_same {v w : Text} (h : same v w = true) : bytes v = bytes w := by
  rw [← bytes_lower, same_iff.1 h, bytes_lower]

/-- The words that are searched for: they have letters, and nothing else. -/
structure IsKeyword (word : Text) : Prop where
  ne_nil : word ≠ []
  letters : ∀ c ∈ word, c.isAlpha = true

theorem IsKeyword.isIdent (h : IsKeyword word) : ∀ c ∈ word, isIdent c = true := by
  intro c hc
  simp [Text.isIdent, Char.isAlphanum, h.letters c hc]

theorem IsKeyword.isToken (h : IsKeyword word) : IsToken word where
  ne_nil := h.ne_nil
  not_blank c hc := isBlank_of_isIdent (h.isIdent c hc)

/-- A keyword, by a test that can be run. -/
theorem IsKeyword.of_all (h : (!word.isEmpty && word.all (·.isAlpha)) = true) : IsKeyword word := by
  rw [Bool.and_eq_true, Bool.not_eq_true'] at h
  exact ⟨List.isEmpty_eq_false_iff.1 h.1, List.all_eq_true.1 h.2⟩

theorem IsKeyword.toNat_lt (h : IsKeyword word) : ∀ c ∈ lower word, c.toNat < 128 := by
  intro c hc
  obtain ⟨d, hd, rfl⟩ := List.mem_map.1 hc
  have halpha : d.toLower.isAlpha = true := by
    rw [isAlpha_toLower]
    exact h.letters d hd
  rw [isAlpha_iff] at halpha
  omega

/-- The bytes beside a word are free if the characters beside it are. -/
theorem free_iff (hsame : same w word = true) (pre post : Text) :
    ((∀ j, j + 1 = bytes pre → byteIs isIdent (pre ++ (w ++ post)) j = false) ∧
      byteIs isIdent (pre ++ (w ++ post)) (bytes pre + bytes word) = false) ↔
    pre.getLast?.any isIdent = false ∧ post.head?.any isIdent = false := by
  rw [byteIs_before_iff, ← bytes_eq_of_same hsame, ← bytes_append, ← List.append_assoc,
    byteIs_behind]

/-- A word stands where its characters do, and nothing touches them. -/
theorem standsAt_iff (hword : IsKeyword word) :
    StandsAt word t k ↔ ∃ pre w post, t = pre ++ (w ++ post) ∧ bytes pre = k ∧
      same w word = true ∧ pre.getLast?.any isIdent = false ∧ post.head?.any isIdent = false := by
  have hne : lower word ≠ [] := by simpa [lower] using hword.ne_nil
  have hplace := textBytes_prefix_drop_iff (t := lower t) (k := k) hword.toNat_lt hne
  constructor
  · rintro ⟨hspelled, hbefore, hbehind⟩
    obtain ⟨left, right, heq, rfl⟩ := hplace.1 hspelled
    -- The pieces of the text in small letters are those of the text.
    obtain ⟨pre, rest, rfl, rfl, hrest⟩ := List.map_eq_append_iff.1 heq
    obtain ⟨w, post, rfl, hw, rfl⟩ := List.map_eq_append_iff.1 hrest
    have hsame : same w word = true := same_iff.2 hw
    have hpre : bytes (pre.map Char.toLower) = bytes pre := bytes_lower pre
    rw [hpre] at hbefore hbehind
    exact ⟨pre, w, post, rfl, hpre.symm, hsame, (free_iff hsame pre post).1 ⟨hbefore, hbehind⟩⟩
  · rintro ⟨pre, w, post, rfl, rfl, hsame, hfree⟩
    obtain ⟨hbefore, hbehind⟩ := (free_iff hsame pre post).2 hfree
    refine ⟨hplace.2 ⟨lower pre, lower post, ?_, bytes_lower pre⟩, hbefore, hbehind⟩
    rw [lower_append, lower_append, same_iff.1 hsame]

/-! ## The loop -/

theorem isPrefixOf_lower_lower (word t : Text) :
    (lower word).isPrefixOf (lower t) = same (t.take word.length) word := by
  rw [Bool.eq_iff_iff, List.isPrefixOf_iff_prefix, List.prefix_iff_eq_take, length_lower,
    take_lower, same_iff]
  exact eq_comm

/-- Where a word is spelled nowhere, it is found nowhere. -/
theorem cutWordFrom_eq_none (h : cut (lower word) (lower t) = none) :
    cutWordFrom word inside t = none := by
  induction t generalizing inside with
  | nil => rfl
  | cons c t ih =>
    rw [lower_cons, cut, ← lower_cons, isPrefixOf_lower_lower] at h
    split at h
    · cases h
    · rename_i hspelled
      rw [cutWordFrom, Bool.eq_false_iff.2 hspelled, Bool.and_false, Bool.false_and,
        if_neg Bool.false_ne_true, ih (Option.map_eq_none_iff.1 h), Option.map_none]

/-- The search character by character passes over all places before the first one at which the word
is spelled. -/
theorem exists_of_cut (hne : word ≠ []) (h : cut (lower word) (lower t) = some (left, right)) :
    ∃ pre c rest, t = pre ++ c :: rest ∧ left = lower pre ∧
      same ((c :: rest).take word.length) word = true ∧
      ∀ inside, cutWordFrom word inside t =
        (cutWordFrom word ((pre.getLast?.map isIdent).getD inside) (c :: rest)).map
          (Prod.map (pre ++ ·) id) := by
  induction t generalizing left with
  | nil =>
    have hempty : (lower word).isEmpty = false := by
      rw [isEmpty_lower]
      exact List.isEmpty_eq_false_iff.2 hne
    rw [lower_nil, cut, hempty] at h
    cases h
  | cons c t ih =>
    rw [lower_cons, cut, ← lower_cons, isPrefixOf_lower_lower] at h
    split at h
    · rename_i hspelled
      cases h
      exact ⟨[], c, t, rfl, rfl, hspelled, fun inside => Option.map_id'.symm⟩
    · rename_i hspelled
      obtain ⟨⟨left', right'⟩, hcut, heq⟩ := Option.map_eq_some_iff.1 h
      cases heq
      -- The place is further on, and the character passed over is what stands before the next one.
      obtain ⟨pre, d, rest, rfl, rfl, hplace, hskip⟩ := ih hcut
      refine ⟨c :: pre, d, rest, rfl, rfl, hplace, fun inside => ?_⟩
      rw [cutWordFrom, Bool.eq_false_iff.2 hspelled, Bool.and_false, Bool.false_and,
        if_neg Bool.false_ne_true, hskip, Option.map_map, isIdent_before_cons]
      rfl

theorem findWordFrom_of_dropBytes? (h : dropBytes? start t = some rest) :
    findWordFrom word t start =
      match cut word rest with
      | none => none
      | some (left, _) =>
        let found := start + bytes left
        if (found == 0 || !byteIs isIdent t (found - 1)) &&
          !byteIs isIdent t (found + bytes word) then some found
        else findWordFrom word t (found + 1) := by
  rw [findWordFrom]
  split
  · rename_i hnone
    rw [h] at hnone
    cases hnone
  · rename_i rest' hsome
    obtain rfl : rest = rest' := Option.some.inj (h.symm.trans hsome)
    rfl

theorem any_isIdent_toLower (o : Option Char) :
    (o.map Char.toLower).any isIdent = o.any isIdent := by
  cases o <;> simp

/-- The two tests of the loop on a place at which the word is spelled. -/
theorem free_eq (hsame : same w word = true) (pre post : Text) :
    ((bytes pre == 0 || !byteIs isIdent (lower (pre ++ (w ++ post))) (bytes pre - 1)) &&
        !byteIs isIdent (lower (pre ++ (w ++ post))) (bytes pre + bytes word)) =
      (!pre.getLast?.any isIdent && !post.head?.any isIdent) := by
  have hbefore := free_before_eq (lower pre) (lower (w ++ post))
  have hbehind := byteIs_behind (lower (pre ++ w)) (lower post)
  rw [← lower_append, bytes_lower, getLast?_lower, any_isIdent_toLower] at hbefore
  rw [← lower_append, List.append_assoc, bytes_lower, bytes_append, bytes_eq_of_same hsame,
    head?_lower, any_isIdent_toLower] at hbehind
  rw [hbefore, hbehind]

/-- A word of letters begins with one byte. -/
theorem IsKeyword.utf8Size_eq_one (hword : IsKeyword word) {c : Char}
    (hspelled : same ((c :: rest).take word.length) word = true) : c.utf8Size = 1 := by
  obtain ⟨d, word, rfl⟩ := List.exists_cons_of_ne_nil hword.ne_nil
  have hc : c.toLower = d.toLower := (List.cons.inj (same_iff.1 hspelled)).1
  have hd := (isAlpha_iff d).1 (hword.letters d List.mem_cons_self)
  rw [← utf8Size_toLower, hc, utf8Size_toLower]
  exact Text.utf8Size_eq_one (by omega)

/-- **The loop is the search character by character.** Started behind some characters of a text, it
finds the place that the search of the rest does. -/
theorem findWordFrom_eq (hword : IsKeyword word) (pre t : Text) :
    findWordFrom (lower word) (lower (pre ++ t)) (bytes pre) =
      (cutWordFrom word (pre.getLast?.any isIdent) t).map
        fun sides => bytes pre + bytes sides.1 := by
  -- Each turn of the loop leaves a shorter rest.
  induction hn : t.length using Nat.strong_induction_on generalizing pre t with
  | _ n ih =>
    have hrest : dropBytes? (bytes pre) (lower (pre ++ t)) = some (lower t) :=
      dropBytes?_eq_some_iff.2 ⟨lower pre, by simp, by simp⟩
    rw [findWordFrom_of_dropBytes? hrest]
    cases hcut : cut (lower word) (lower t) with
    | none => rw [cutWordFrom_eq_none hcut, Option.map_none]
    | some sides =>
      obtain ⟨gap, c, rest, rfl, hgap, hspelled, hskip⟩ := exists_of_cut hword.ne_nil hcut
      have hfree := free_eq hspelled (pre ++ gap) ((c :: rest).drop word.length)
      rw [List.take_append_drop, List.append_assoc, bytes_append] at hfree
      have hinside : (gap.getLast?.map isIdent).getD (pre.getLast?.any isIdent) =
          (pre ++ gap).getLast?.any isIdent := by
        rw [List.getLast?_append]
        cases gap.getLast? <;> rfl
      simp only [hgap, bytes_lower]
      rw [hfree, hskip, hinside, cutWordFrom, hspelled, Bool.and_true]
      split
      · rw [Option.map_some, Option.map_some, Prod.map_apply, List.append_nil]
      · -- The next turn starts behind the first letter of the word, and that is one byte.
        have hone := hword.utf8Size_eq_one hspelled
        have hnext := ih rest.length (by simp at hn; omega) (pre ++ gap ++ [c]) rest rfl
        rw [List.getLast?_concat, Option.any_some] at hnext
        simp only [List.append_assoc, List.singleton_append, bytes_append, bytes_cons, bytes_nil,
          hone, Nat.add_zero, ← Nat.add_assoc] at hnext
        rw [hnext, Option.map_map, Option.map_map]
        congr 1
        funext sides
        simp [hone, Nat.add_assoc]

/-! ## First places -/

/-- The search for a word stops no later than where the word stands. -/
theorem exists_cutWordFrom (hne : word ≠ []) (hsame : same w word = true)
    (hbefore : (pre.getLast?.map isIdent).getD inside = false)
    (hbehind : post.head?.any isIdent = false) :
    ∃ left right, cutWordFrom word inside (pre ++ (w ++ post)) = some (left, right) ∧
      left <+: pre := by
  induction pre generalizing inside with
  | nil =>
    have hlength := length_eq_of_same hsame
    obtain ⟨c, w, rfl⟩ : ∃ c u, w = c :: u := by
      refine List.exists_cons_of_ne_nil fun hnil => hne ?_
      rw [hnil] at hlength
      exact List.length_eq_zero_iff.1 hlength.symm
    refine ⟨[], post, ?_, List.prefix_refl _⟩
    have hfound : (!inside && same ((c :: (w ++ post)).take word.length) word &&
        !((c :: (w ++ post)).drop word.length).head?.any isIdent) = true := by
      rw [← List.cons_append, ← hlength, List.take_left, List.drop_left, hsame, hbehind]
      simpa using hbefore
    rw [List.nil_append, List.cons_append, cutWordFrom, if_pos hfound, ← List.cons_append,
      ← hlength, List.drop_left]
  | cons c pre ih =>
    -- Either the search stops here already, or the word stands as far into what is left.
    rw [List.cons_append, cutWordFrom]
    split
    · exact ⟨[], _, rfl, List.nil_prefix⟩
    · rw [isIdent_before_cons] at hbefore
      obtain ⟨left, right, hcut, hleft⟩ := ih hbefore
      refine ⟨c :: left, right, ?_, List.cons_prefix_cons.2 ⟨rfl, hleft⟩⟩
      rw [hcut]
      rfl

section Word

variable {word : String} (hword : IsKeyword word.toList)
include hword

theorem findWord_eq (t : Text) :
    findWord word t = (cutWordFrom word.toList false t).map fun sides => bytes sides.1 := by
  have h := findWordFrom_eq hword [] t
  simpa [findWord] using h

theorem standsAt_of_findWord (h : findWord word t = some k) : StandsAt word.toList t k := by
  rw [findWord_eq hword] at h
  obtain ⟨⟨left, right⟩, hcut, rfl⟩ := Option.map_eq_some_iff.1 h
  obtain ⟨w, rfl, hsame, hbefore, hbehind⟩ := exists_of_cutWordFrom hcut
  rw [getD_map_isIdent] at hbefore
  exact (standsAt_iff hword).2 ⟨left, w, right, rfl, rfl, hsame, hbefore, hbehind⟩

theorem exists_findWord_of_standsAt (h : StandsAt word.toList t k) :
    ∃ j ≤ k, findWord word t = some j := by
  obtain ⟨pre, w, post, rfl, rfl, hsame, hbefore, hbehind⟩ := (standsAt_iff hword).1 h
  rw [← getD_map_isIdent] at hbefore
  obtain ⟨left, right, hcut, rest, rfl⟩ := exists_cutWordFrom hword.ne_nil hsame hbefore hbehind
  refine ⟨bytes left, by simp, ?_⟩
  rw [findWord_eq hword, hcut]
  rfl

theorem isBoundary_of_standsAt (h : StandsAt word.toList t k) :
    IsBoundary t k ∧ IsBoundary t (k + bytes word.toList) := by
  obtain ⟨pre, w, post, rfl, rfl, hsame, -⟩ := (standsAt_iff hword).1 h
  refine ⟨⟨pre, w ++ post, rfl, rfl⟩, pre ++ w, post, by simp, ?_⟩
  rw [bytes_append, bytes_eq_of_same hsame]

/-! ## Cutting at a word -/

/-- What the loop cuts out lies on both sides of the word. -/
theorem cutWord_eq (t : Text) : cutWord word t = cutWordFrom word.toList false t := by
  rw [cutWord, findWord_eq hword]
  cases hcut : cutWordFrom word.toList false t with
  | none => rfl
  | some sides =>
    obtain ⟨w, rfl, hsame, -⟩ := exists_of_cutWordFrom hcut
    have hbefore : slice? 0 (bytes sides.1) (sides.1 ++ (w ++ sides.2)) = some sides.1 :=
      slice?_eq_some_iff.2 ⟨[], w ++ sides.2, by simp, rfl, by simp⟩
    have hbehind : dropBytes? (bytes sides.1 + bytes word.toList) (sides.1 ++ (w ++ sides.2)) =
        some sides.2 := by
      refine dropBytes?_eq_some_iff.2 ⟨sides.1 ++ w, by simp, ?_⟩
      rw [bytes_append, bytes_eq_of_same hsame]
    simp only [Option.map_some, Option.bind_eq_bind, Option.bind_some, hbefore, hbehind]
    rfl

theorem holdsWord_eq (t : Text) : holdsWord t word = (cutWord word t).isSome := by
  rw [holdsWord, cutWord_eq hword, findWord_eq hword, Option.isSome_map]

theorem exists_of_cutWord (h : cutWord word t = some (left, right)) :
    ∃ w, t = left ++ (w ++ right) ∧ same w word.toList = true ∧
      WordAt word.toList t left.length := by
  rw [cutWord_eq hword] at h
  obtain ⟨w, rfl, hsame, hbefore, hbehind⟩ := exists_of_cutWordFrom h
  have hlength := length_eq_of_same hsame
  refine ⟨w, rfl, hsame, ?_, ?_, ?_⟩
  · rw [List.drop_left, ← hlength, List.take_left]
    exact hsame
  · rw [List.take_left, ← getD_map_isIdent]
    exact hbefore
  · rw [← List.drop_drop, List.drop_left, ← hlength, List.drop_left]
    exact hbehind

theorem cutWord_blanks_append (hb : IsBlanks b) (t : Text) :
    cutWord word (b ++ t) = (cutWord word t).map (Prod.map (b ++ ·) id) := by
  simp only [cutWord_eq hword]
  exact cutWordFrom_blanks_append hword.isToken hb t

/-- The texts before and behind some blanks are searched for a word each by itself. -/
theorem cutWord_append_blanks (hb : IsBlanks b) (hne : b ≠ []) (s t : Text) :
    cutWord word (s ++ (b ++ t)) =
      ((cutWord word s).map (Prod.map id (· ++ (b ++ t)))).or
        ((cutWord word t).map (Prod.map ((s ++ b) ++ ·) id)) := by
  simp only [cutWord_eq hword]
  exact cutWordFrom_append_blanks hword.isToken hb hne false s t

theorem cutWord_of_isIdent (h : ∀ c ∈ t, isIdent c = true) :
    cutWord word t = if isWord t word then some ([], []) else none := by
  rw [cutWord_eq hword]
  exact cutWordFrom_of_isIdent hword.ne_nil h

end Word

/-! ## The first place -/

/-- **The search for a word finds its first place.** The offset of a word of letters is the least
byte offset at which the word stands as a whole word, there is none just if the word stands nowhere,
and neither end of the place found cuts a character. -/
theorem findWord_isLeast {word : String} (hne : word.toList ≠ [])
    (hletters : ∀ c ∈ word.toList, c.isAlpha = true) (t : Text) :
    (∀ k, findWord word t = some k ↔ IsLeast {k | StandsAt word.toList t k} k) ∧
    (findWord word t = none ↔ ∀ k, ¬ StandsAt word.toList t k) ∧
    ∀ k, findWord word t = some k → IsBoundary t k ∧ IsBoundary t (k + bytes word.toList) := by
  have hword : IsKeyword word.toList := ⟨hne, hletters⟩
  refine ⟨fun k => ⟨fun h => ?_, fun h => ?_⟩, ⟨fun hnone k h => ?_, fun hno => ?_⟩, fun k h => ?_⟩
  · refine ⟨standsAt_of_findWord hword h, fun i hi => ?_⟩
    obtain ⟨j, hj, hfind⟩ := exists_findWord_of_standsAt hword hi
    obtain rfl : k = j := Option.some.inj (h.symm.trans hfind)
    exact hj
  · obtain ⟨j, hj, hfind⟩ := exists_findWord_of_standsAt hword h.1
    obtain rfl : j = k := Nat.le_antisymm hj (h.2 (standsAt_of_findWord hword hfind))
    exact hfind
  · obtain ⟨j, -, hfind⟩ := exists_findWord_of_standsAt hword h
    rw [hnone] at hfind
    cases hfind
  · rw [Option.eq_none_iff_forall_ne_some]
    intro k h
    exact hno k (standsAt_of_findWord hword h)
  · exact isBoundary_of_standsAt hword (standsAt_of_findWord hword h)

theorem findWord_isLeast_behind_letter :
    "to".toList ≠ [] ∧ "to".toList.all (·.isAlpha) = true ∧
    IsLeast {k | StandsAt "to".toList "tomatoÉTo".toList k} 8 :=
  ⟨by decide, by decide, ((findWord_isLeast (by decide) (List.all_eq_true.1 (by decide))
    "tomatoÉTo".toList).1 8).1 (by decide +kernel)⟩

end DesignFacts.Text

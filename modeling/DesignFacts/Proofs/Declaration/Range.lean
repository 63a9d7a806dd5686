import DesignFacts.Declaration.TypeText
import DesignFacts.Proofs.Text.TopLevel
import DesignFacts.Proofs.Text.WordSearch
import Mathlib.Data.List.Infix

/-!
# Where a range is split

A range is a bound, a direction word and another bound. Bounds are expressions, and these can hold
slices and ranges of their own inside parentheses. The direction word of the range is the one
outside all parentheses, but the search for it takes the first `downto` of the whole text, and only
without one the first `to`.

So a range is split at its own direction word if and only if no other one stands in the way: the
same word in the left bound or, for `to`, a `downto` in either bound.

Main result: `range?_written_iff`.
-/

namespace DesignFacts

open Text

/-! ## Parentheses -/

namespace Text

variable {s t : Text}

/-- Every parenthesis of the text has its partner. -/
structure Balanced (t : Text) : Prop where
  closed : depth t = 0
  opened : ∀ s ∈ t.inits, 0 ≤ depth s

/-- A place inside parentheses has an opening one before it and a closing one behind it. -/
theorem Balanced.mem_of_depth_ne (h : Balanced (s ++ t)) (hs : depth s ≠ 0) :
    '(' ∈ s ∧ ')' ∈ t := by
  have hopened : 0 ≤ depth s := h.opened s ((List.mem_inits s _).2 (List.prefix_append s t))
  have hclosed : depth s + depth t = 0 := depth_append s t ▸ h.closed
  simp only [depth] at hs hopened hclosed
  rw [← List.count_pos_iff, ← List.count_pos_iff]
  omega

end Text

/-! ## Bounds -/

/-- The direction words of ranges. -/
def directions : List String := ["downto", "to"]

/-- The text of a bound: it is not blank, its parentheses are balanced, and direction words stand
inside them only. -/
structure IsBoundText (t : Text) : Prop where
  nonblank : ¬ IsBlanks t
  balanced : Balanced t
  enclosed : ∀ word ∈ directions, ∀ k < t.length, WordAt word.toList t k → depth (t.take k) ≠ 0

instance (t : Text) : Decidable (Balanced t) :=
  decidable_of_iff (_ ∧ _) ⟨fun h => ⟨h.1, h.2⟩, fun h => ⟨h.closed, h.opened⟩⟩

instance (t : Text) : Decidable (IsBoundText t) :=
  decidable_of_iff (_ ∧ _ ∧ _)
    ⟨fun h => ⟨h.1, h.2.1, h.2.2⟩, fun h => ⟨h.nonblank, h.balanced, h.enclosed⟩⟩

variable {l r g g' d t x y : Text} {word direction : String}

theorem isKeyword_of_mem_directions (hword : word ∈ directions) : IsKeyword word.toList := by
  have hall : (directions.all fun w => !w.toList.isEmpty && w.toList.all (·.isAlpha)) = true := by
    decide
  exact .of_all (List.all_eq_true.1 hall word hword)

/-- A direction word in a bound has a parenthesis on either side. -/
theorem IsBoundText.sides_of_cutWord (h : IsBoundText t) (hword : word ∈ directions)
    (hcut : cutWord word t = some (x, y)) :
    '(' ∈ x ∧ ')' ∈ y ∧ ∃ w, t = x ++ (w ++ y) ∧ same w word.toList = true := by
  obtain ⟨w, rfl, hsame, hat⟩ := exists_of_cutWord (isKeyword_of_mem_directions hword) hcut
  have hlength : w.length = word.toList.length := length_eq_of_same hsame
  have hpos : 0 < word.toList.length :=
    List.length_pos_iff.2 (isKeyword_of_mem_directions hword).ne_nil
  have hdepth := h.enclosed word hword x.length (by simp only [List.length_append]; omega) hat
  rw [List.take_left] at hdepth
  obtain ⟨hopen, hclose⟩ := h.balanced.mem_of_depth_ne hdepth
  have hw : ')' ∉ w := by
    intro hmem
    have hmem' : ')' ∈ lower word.toList := by
      rw [← same_iff.1 hsame]
      exact (mem_lower _ (by decide)).2 hmem
    rw [mem_lower _ (by decide)] at hmem'
    exact absurd ((isKeyword_of_mem_directions hword).letters _ hmem') (by decide)
  exact ⟨hopen, (List.mem_append.1 hclose).resolve_left hw, w, rfl, hsame⟩

/-- What stands before a word inside a text is not the text, whatever blanks it has. -/
theorem squash_ne_of_append {w : Text} {c : Char} (hc : c ∈ w) (hblank : isBlank c = false)
    (x y : Text) : squash x ≠ squash (x ++ (w ++ y)) := by
  intro heq
  have hcompact : compact x = compact x ++ (compact w ++ compact y) := by
    rw [← compact_append, ← compact_append, ← compact_squash x, heq, compact_squash]
  have hnil := List.append_right_eq_self.1 hcompact.symm
  have hmem : c ∈ compact w := List.mem_filter.2 ⟨hc, by simp [hblank]⟩
  rw [(List.append_eq_nil_iff.1 hnil).1] at hmem
  cases hmem

/-! ## One direction word -/

theorem rangeAt?_of_cutWord {c c' : Char} (h : cutWord direction t = some (x, y)) (hc : c ∈ x)
    (hblank : isBlank c = false) (hc' : c' ∈ y) (hblank' : isBlank c' = false) :
    rangeAt? direction t = some (squash x, squash y, direction.toList) := by
  rw [rangeAt?, h]
  dsimp only
  rw [isEmpty_squash_of_mem hc hblank, isEmpty_squash_of_mem hc' hblank']
  rfl

/-- The direction of a range is the word that it is split at. -/
theorem direction_of_rangeAt? {sides : Text × Text × Text}
    (h : rangeAt? direction t = some sides) : sides.2.2 = direction.toList := by
  unfold rangeAt? at h
  split at h
  · dsimp only at h
    split at h
    · cases h
    · cases h
      rfl
  · cases h

theorem rangeAt?_of_cutWord_eq_none (h : cutWord direction t = none) :
    rangeAt? direction t = none := by
  rw [rangeAt?, h]

/-- Blanks at the ends of a range belong to none of its sides. -/
theorem rangeAt?_trim (hdirection : direction ∈ directions) (t : Text) :
    rangeAt? direction (trim t) = rangeAt? direction t := by
  have hword := isKeyword_of_mem_directions hdirection
  have hfront {a : Text} (ha : IsBlanks a) (u : Text) :
      rangeAt? direction (a ++ u) = rangeAt? direction u := by
    rw [rangeAt?, rangeAt?, cutWord_blanks_append hword ha]
    cases cutWord direction u with
    | none => rfl
    | some sides => simp only [Option.map_some, Prod.map, squash_blanks_append ha, id_eq]
  have hback {b : Text} (hb : IsBlanks b) (u : Text) :
      rangeAt? direction (u ++ b) = rangeAt? direction u := by
    cases b with
    | nil => rw [List.append_nil]
    | cons c b =>
      have hcut := cutWord_append_blanks hword hb (List.cons_ne_nil c b) u []
      have hnil : cutWord direction [] = none := by rw [cutWord_eq hword, cutWordFrom]
      rw [List.append_nil, hnil, Option.map_none, Option.or_none] at hcut
      rw [rangeAt?, rangeAt?, hcut]
      cases cutWord direction u with
      | none => rfl
      | some sides =>
        simp only [Option.map_some, Prod.map, squash_append_blanks hb, id_eq]
  obtain ⟨a, ha, hstart⟩ := exists_eq_append_trimStart t
  obtain ⟨b, hb, hend⟩ := exists_eq_trimEnd_append (trimStart t)
  calc rangeAt? direction (trim t)
      = rangeAt? direction (trimEnd (trimStart t) ++ b) := (hback hb _).symm
    _ = rangeAt? direction (a ++ trimStart t) := by rw [← hend, hfront ha]
    _ = rangeAt? direction t := by rw [← hstart]

/-! ## Ranges as they are written -/

/-- A range as it is written: two bounds with a direction word and blanks between them. -/
structure WrittenRange where
  left : Text
  gap : Text
  word : Text
  gap' : Text
  right : Text
  /-- The direction, in small letters. -/
  direction : String
  isLeft : IsBoundText left
  isRight : IsBoundText right
  isDirection : direction ∈ directions
  isWord_word : isWord word direction = true
  isBlanks_gap : IsBlanks gap
  gap_ne_nil : gap ≠ []
  isBlanks_gap' : IsBlanks gap'
  gap'_ne_nil : gap' ≠ []

namespace WrittenRange

variable (w : WrittenRange)

def text : Text := w.left ++ (w.gap ++ (w.word ++ (w.gap' ++ w.right)))

/-- No other direction word stands in the way of the one between the bounds: `downto` is looked for
first, and of equal words the first one is taken. -/
def IsClear : Prop :=
  holdsWord w.left w.direction = false ∧
    (w.direction = "to" → holdsWord w.left "downto" = false ∧ holdsWord w.right "downto" = false)

instance : Decidable w.IsClear := inferInstanceAs (Decidable (_ ∧ _))

/-- The word between the bounds is found as the direction word it spells, and as no other. -/
theorem cutWord_word (hword : word ∈ directions) :
    cutWord word w.word = if word = w.direction then some ([], []) else none := by
  have hident : ∀ c ∈ w.word, isIdent c = true := by
    intro c hc
    have hmem : c.toLower ∈ lower w.direction.toList :=
      same_iff.1 w.isWord_word ▸ List.mem_map_of_mem hc
    obtain ⟨e, he, hlower⟩ := List.mem_map.1 hmem
    rw [← isIdent_toLower, ← hlower, isIdent_toLower]
    exact (isKeyword_of_mem_directions w.isDirection).isIdent e he
  have hdiffer : (directions.all fun u => directions.all fun v =>
      isWord u.toList v == (v == u)) = true := by decide
  have hother := List.all_eq_true.1 (List.all_eq_true.1 hdiffer _ w.isDirection) _ hword
  rw [beq_iff_eq] at hother
  rw [cutWord_of_isIdent (isKeyword_of_mem_directions hword) hident]
  congr 1
  rw [eq_iff_iff, isWord, same, same_iff.1 w.isWord_word, ← same, ← isWord, hother, beq_iff_eq]

/-- A direction word is looked for in the left bound, then between the bounds, then in the right
one. -/
theorem cutWord_text (hword : word ∈ directions) :
    cutWord word w.text =
      ((cutWord word w.left).map (Prod.map id (· ++ (w.gap ++ (w.word ++ (w.gap' ++ w.right)))))).or
        (if word = w.direction then some (w.left ++ w.gap, w.gap' ++ w.right)
        else (cutWord word w.right).map
          (Prod.map (fun u => (w.left ++ w.gap) ++ ((w.word ++ w.gap') ++ u)) id)) := by
  have hkey := isKeyword_of_mem_directions hword
  rw [text, cutWord_append_blanks hkey w.isBlanks_gap w.gap_ne_nil,
    cutWord_append_blanks hkey w.isBlanks_gap' w.gap'_ne_nil, w.cutWord_word hword]
  congr 1
  split
  · simp
  · rw [Option.map_none, Option.none_or, Option.map_map]
    rfl

/-- A direction word in the left bound hides the one between the bounds. -/
theorem rangeAt?_of_left (hword : word ∈ directions)
    (hleft : cutWord word w.left = some (x, y)) :
    ∃ rest, rangeAt? word w.text = some (squash x, rest, word.toList) := by
  obtain ⟨hopen, hclose, -⟩ := w.isLeft.sides_of_cutWord hword hleft
  have hcut := w.cutWord_text hword
  rw [hleft, Option.map_some, Option.some_or] at hcut
  exact ⟨_, rangeAt?_of_cutWord hcut hopen (by decide)
    (List.mem_append_left _ hclose) (by decide)⟩

/-- Another direction word in the right bound is found as well. -/
theorem rangeAt?_of_right (hword : word ∈ directions) (hne : word ≠ w.direction)
    (hleft : cutWord word w.left = none) (hright : cutWord word w.right = some (x, y)) :
    ∃ before, rangeAt? word w.text = some (before, squash y, word.toList) := by
  obtain ⟨hopen, hclose, -⟩ := w.isRight.sides_of_cutWord hword hright
  have hcut := w.cutWord_text hword
  rw [hleft, Option.map_none, Option.none_or, if_neg hne, hright, Option.map_some] at hcut
  exact ⟨_, rangeAt?_of_cutWord hcut (List.mem_append_right _ (List.mem_append_right _ hopen))
    (by decide) hclose (by decide)⟩

theorem rangeAt?_direction (hleft : cutWord w.direction w.left = none) :
    rangeAt? w.direction w.text = some (squash w.left, squash w.right, w.direction.toList) := by
  have hcut := w.cutWord_text w.isDirection
  rw [hleft, Option.map_none, Option.none_or, if_pos rfl] at hcut
  obtain ⟨c, hc, hblank⟩ := exists_mem_of_not_isBlanks w.isLeft.nonblank
  obtain ⟨c', hc', hblank'⟩ := exists_mem_of_not_isBlanks w.isRight.nonblank
  rw [rangeAt?_of_cutWord hcut (List.mem_append_left _ hc) hblank (List.mem_append_right _ hc')
    hblank', squash_append_blanks w.isBlanks_gap, squash_blanks_append w.isBlanks_gap']

/-- What stands before a direction word in the left bound is not the left bound. -/
theorem squash_ne_left (hword : word ∈ directions) (hleft : cutWord word w.left = some (x, y)) :
    squash x ≠ squash w.left := by
  obtain ⟨-, -, v, hsplit, hsame⟩ := w.isLeft.sides_of_cutWord hword hleft
  have htoken := (isKeyword_of_mem_directions hword).isToken
  have hlength : 0 < v.length := by
    rw [length_eq_of_same hsame]
    exact List.length_pos_iff.2 htoken.ne_nil
  obtain ⟨c, v, rfl⟩ := List.exists_cons_of_length_pos hlength
  have hblank : isBlank c = false := by
    rw [Bool.eq_false_iff]
    intro hblank
    rw [not_same_of_mem_isBlank List.mem_cons_self hblank htoken.not_blank] at hsame
    cases hsame
  rw [hsplit]
  exact squash_ne_of_append List.mem_cons_self hblank x y

theorem rangeAt?_direction_eq_iff :
    rangeAt? w.direction w.text = some (squash w.left, squash w.right, w.direction.toList) ↔
      holdsWord w.left w.direction = false := by
  rw [holdsWord_eq (isKeyword_of_mem_directions w.isDirection)]
  cases hleft : cutWord w.direction w.left with
  | none => simp [w.rangeAt?_direction hleft]
  | some sides =>
    obtain ⟨rest, hrange⟩ := w.rangeAt?_of_left w.isDirection hleft
    have hne := w.squash_ne_left w.isDirection hleft
    simp [hrange, hne]

theorem isSome_rangeAt?_direction : (rangeAt? w.direction w.text).isSome = true := by
  cases hleft : cutWord w.direction w.left with
  | none => rw [w.rangeAt?_direction hleft, Option.isSome_some]
  | some sides =>
    obtain ⟨rest, hrange⟩ := w.rangeAt?_of_left w.isDirection hleft
    rw [hrange, Option.isSome_some]

theorem rangeAt?_downto_eq_none_iff (hto : w.direction = "to") :
    rangeAt? "downto" w.text = none ↔
      holdsWord w.left "downto" = false ∧ holdsWord w.right "downto" = false := by
  have hword : "downto" ∈ directions := by decide
  have hne : "downto" ≠ w.direction := by
    rw [hto]
    decide
  have hkey := isKeyword_of_mem_directions hword
  rw [holdsWord_eq hkey, holdsWord_eq hkey]
  cases hleft : cutWord "downto" w.left with
  | some sides =>
    obtain ⟨rest, hrange⟩ := w.rangeAt?_of_left hword hleft
    simp [hrange]
  | none =>
    cases hright : cutWord "downto" w.right with
    | some sides =>
      obtain ⟨before, hrange⟩ := w.rangeAt?_of_right hword hne hleft hright
      simp [hrange]
    | none =>
      have hcut := w.cutWord_text hword
      rw [hleft, if_neg hne, hright] at hcut
      simp [rangeAt?_of_cutWord_eq_none hcut]

end WrittenRange

/-- **A range is split at its own direction word unless another one stands in the way.** Both sides
come out with single spaces between their words and the direction in small letters, whatever slices
and ranges the bounds hold in parentheses, if and only if the left bound does not hold the same
direction word and, in a range with `to`, neither bound holds `downto`. -/
theorem range?_written_iff (w : WrittenRange) :
    range? w.text = some (squash w.left, squash w.right, w.direction.toList) ↔ w.IsClear := by
  rw [range?, rangeAt?_trim (by decide), rangeAt?_trim (by decide), WrittenRange.IsClear,
    ← w.rangeAt?_direction_eq_iff]
  rcases List.mem_cons.1 w.isDirection with hdownto | hto
  · -- `downto` is looked for first and always found, here or in the left bound.
    have hsome := w.isSome_rangeAt?_direction
    rw [hdownto] at hsome ⊢
    rw [Option.or_of_isSome hsome]
    simp
  · have hto := List.mem_singleton.1 hto
    rw [← w.rangeAt?_downto_eq_none_iff hto]
    cases hdownto : rangeAt? "downto" w.text with
    | none => simp [hto]
    | some sides =>
      -- The direction that comes out is the wrong one.
      have hword := direction_of_rangeAt? hdownto
      have hne : sides ≠ (squash w.left, squash w.right, w.direction.toList) := by
        rintro rfl
        dsimp only at hword
        rw [hto] at hword
        exact absurd hword (by decide)
      rw [Option.some_or, Option.some.injEq]
      exact iff_of_false hne fun h => Option.some_ne_none sides (h.2 hto)

namespace WrittenRange

/-- A range between two calls, each with a direction word of its own in its parentheses. -/
def betweenCalls : WrittenRange where
  left := "f(1 to  2)".toList
  gap := [' ']
  word := "DOWNTO".toList
  gap' := "  ".toList
  right := "g(3 downto 0)".toList
  direction := "downto"
  isLeft := by decide +kernel
  isRight := by decide +kernel
  isDirection := by decide
  isWord_word := by decide
  isBlanks_gap := by decide
  gap_ne_nil := by decide
  isBlanks_gap' := by decide
  gap'_ne_nil := by decide

/-- Neither of the two is in the way: the first is another word, and the second comes too late. -/
theorem betweenCalls_split :
    betweenCalls.IsClear ∧
      range? "f(1 to  2) DOWNTO  g(3 downto 0)".toList =
        some ("f(1 to 2)".toList, "g(3 downto 0)".toList, "downto".toList) := by
  have hclear : betweenCalls.IsClear := by decide +kernel
  have hsplit := (range?_written_iff betweenCalls).2 hclear
  exact ⟨hclear, hsplit.trans (by decide +kernel)⟩

/-- A range whose left bound is the low end of a slice: the `downto` of the slice comes before the
`to` of the range. -/
def fromSlice : WrittenRange where
  left := "low(data(7 downto 4))".toList
  gap := [' ']
  word := ['t', 'o']
  gap' := [' ']
  right := ['3']
  direction := "to"
  isLeft := by decide +kernel
  isRight := by decide +kernel
  isDirection := by decide
  isWord_word := by decide
  isBlanks_gap := by decide
  gap_ne_nil := by decide
  isBlanks_gap' := by decide
  gap'_ne_nil := by decide

/-- The range is split inside the parentheses of its left bound. -/
theorem fromSlice_split_inside :
    range? fromSlice.text =
        some ("low(data(7".toList, "4)) to 3".toList, "downto".toList) ∧
      range? fromSlice.text ≠
        some (squash fromSlice.left, squash fromSlice.right, fromSlice.direction.toList) := by
  decide +kernel

end WrittenRange

end DesignFacts

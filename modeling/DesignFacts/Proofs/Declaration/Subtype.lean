import DesignFacts.Declaration.TypeDeclaration
import DesignFacts.Proofs.Extraction.Record
import DesignFacts.Proofs.Text.WordSearch

/-!
# The parts of a subtype indication

A subtype indication is a type mark, possibly with a resolution function before it and a constraint
behind it. With a constraint the mark is taken from its field, and without one it is the text of the
whole indication. In both cases the resolution function is then taken off the front of the mark, as
often as it stands there. That is right for the text, which begins with the function, and for a mark
from its field only if this does not begin with the name of the function by itself.

Extended identifiers can hold blanks, parentheses and the word `range`. An indication with such a
name is cut inside it, unless a constraint is there to say where the mark ends.

Main result: `subtype_parts`.
-/

namespace DesignFacts

open Text

namespace SubtypeIndication

variable {r t : Text}

/-! ## Copies at the front -/

theorem dropCopies_append (hr : r ≠ []) (t : Text) : dropCopies r (r ++ t) = dropCopies r t := by
  rw [dropCopies, dif_pos ⟨hr, List.isPrefixOf_iff_prefix.2 (List.prefix_append r t)⟩,
    List.drop_left]

theorem dropCopies_eq_self (h : ¬ r <+: t) : dropCopies r t = t := by
  rw [dropCopies, dif_neg fun hfront => h (List.isPrefixOf_iff_prefix.1 hfront.2)]

theorem dropCopies_suffix (r t : Text) : dropCopies r t <:+ t := by
  fun_induction dropCopies r t with
  | case1 t h ih => exact ih.trans (List.drop_suffix _ _)
  | case2 t h => exact List.suffix_refl t

/-- Taking a word off a squashed mark leaves the mark if and only if this has single spaces and does
not begin with the word. -/
theorem trim_dropCopies_squash_eq_iff {c : Char} (hc : c ∈ r) (hblank : isBlank c = false) :
    trim (dropCopies r (squash t)) = t ↔ squash t = t ∧ ¬ r <+: t := by
  constructor
  · intro h
    by_cases hfront : r <+: squash t
    · -- Without its copies of the word the mark has too few characters.
      obtain ⟨rest, hrest⟩ := hfront
      have hcopies : (compact (dropCopies r rest)).length ≤ (compact rest).length :=
        ((dropCopies_suffix r rest).sublist.filter _).length_le
      have hcompact : compact (dropCopies r rest) = compact r ++ compact rest := by
        rw [← compact_append, hrest, compact_squash, ← compact_trim,
          ← dropCopies_append (List.ne_nil_of_mem hc), hrest, h]
      have hpos : 0 < (compact r).length :=
        List.length_pos_of_mem (List.mem_filter.2 ⟨hc, by simp [hblank]⟩)
      rw [hcompact, List.length_append] at hcopies
      omega
    · rw [dropCopies_eq_self hfront, trim_squash] at h
      exact ⟨h, h ▸ hfront⟩
  · rintro ⟨hsquash, hfront⟩
    rw [hsquash, dropCopies_eq_self hfront, ← hsquash, trim_squash]

/-! ## Marks and constraints in a text -/

theorem isKeyword_range : IsKeyword "range".toList := .of_all (by decide)

theorem markAndConstraintOfText_eq_self (hparen : '(' ∉ t) (hrange : holdsWord t "range" = false) :
    markAndConstraintOfText t = (t, none) := by
  rw [holdsWord_eq isKeyword_range, Option.isSome_eq_false_iff, Option.isNone_iff_eq_none] at hrange
  rw [markAndConstraintOfText, hrange]
  dsimp only
  rw [cut_eq_none_of_notMem hparen]

/-- A text holds no constraint if nothing in it begins one. -/
theorem markAndConstraintOfText_eq_none_iff :
    (markAndConstraintOfText t).2 = none ↔ '(' ∉ t ∧ holdsWord t "range" = false := by
  constructor
  · intro h
    rw [markAndConstraintOfText] at h
    split at h
    · cases h
    · rename_i hrange
      refine ⟨fun hparen => ?_, by rw [holdsWord_eq isKeyword_range, hrange]; rfl⟩
      obtain ⟨x, y, hxy, hx⟩ := List.eq_append_cons_of_mem hparen
      rw [hxy, cut_append_of_notMem hx, cut] at h
      simp at h
  · rintro ⟨hparen, hrange⟩
    rw [markAndConstraintOfText_eq_self hparen hrange]

/-- A name in an indication: one word, without anything in it that a constraint begins with. -/
structure IsMark (t : Text) : Prop where
  isToken : IsToken t
  not_paren : '(' ∉ t
  not_range : holdsWord t "range" = false

/-- Every identifier of letters, digits and underscores is one, if it is not the reserved word. -/
theorem IsMark.of_isIdent (hne : t ≠ []) (h : ∀ c ∈ t, isIdent c = true)
    (hrange : isWord t "range" = false) : IsMark t where
  isToken := ⟨hne, fun c hc => isBlank_of_isIdent (h c hc)⟩
  not_paren := fun hmem => absurd (h _ hmem) (by decide)
  not_range := by
    rw [holdsWord_eq isKeyword_range, cutWord_of_isIdent isKeyword_range h, hrange]
    rfl

/-! ## Indications with their fields -/

/-- A subtype indication whose parts stand under their fields. Without a constraint, its words are
those of the resolution function and the type mark. -/
structure Fielded where
  node : Node
  mark : Node
  resolution : Option Node
  constraint : Option Node
  mark_field : node.childUnder "type_mark" = some mark
  resolution_field : node.childUnder "resolution" = resolution
  constraint_field : node.childUnder "constraint" = constraint
  isIdentifier_mark : IsIdentifier mark.text
  isIdentifier_resolution : ∀ f ∈ resolution, IsIdentifier f.text
  words_text : constraint = none →
    words node.text = (resolution.toList.flatMap fun f => words f.text) ++ words mark.text

namespace Fielded

variable (i : Fielded)

def names : List Node := i.resolution.toList ++ [i.mark]

/-- The parts come out as they stand under their fields. -/
structure IsSplit (parts : SubtypeIndication) : Prop where
  resolution : parts.resolution = i.resolution.map Node.text
  constraint : parts.constraint = i.constraint.map fun c => squash c.text
  baseType : parts.baseType = i.mark.text

/-- The name of the resolution function is taken off the mark as well. -/
def IsClipped : Prop :=
  i.constraint.isSome = true ∧ ∃ f ∈ i.resolution, f.text <+: i.mark.text

/-- What an indication needs to be split into its parts: names with single spaces, more or less than
two words in a mark that stands alone, and without a constraint nothing that looks like one. -/
structure IsClear : Prop where
  spacing : ∀ c ∈ i.names, squash c.text = c.text
  not_pair : i.resolution = none → (words i.mark.text).length ≠ 2
  not_constraint : i.constraint = none →
    ∀ c ∈ i.names, '(' ∉ c.text ∧ holdsWord c.text "range" = false
  not_clipped : ¬ i.IsClipped

/-- Without a constraint the text of an indication is its resolution function and its mark. -/
theorem squash_text_of_resolution {f : Node} (hconstraint : i.constraint = none)
    (hf : i.resolution = some f) :
    squash i.node.text = squash f.text ++ ([' '] ++ squash i.mark.text) := by
  have hfunction : words f.text ≠ [] := (i.isIdentifier_resolution f hf).words_ne_nil
  have hwords : words i.node.text = words f.text ++ words i.mark.text := by
    simp [i.words_text hconstraint, hf]
  rw [squash, hwords, join_append i.isIdentifier_mark.words_ne_nil, glue_eq_join hfunction]
  rfl

theorem squash_text (hconstraint : i.constraint = none) (hnone : i.resolution = none) :
    squash i.node.text = squash i.mark.text := by
  rw [squash, i.words_text hconstraint, hnone]
  rfl

theorem markAndConstraint_of_constraint {c : Node} (hc : i.constraint = some c) :
    markAndConstraint i.node = (squash i.mark.text, some (squash c.text)) := by
  rw [markAndConstraint, i.constraint_field, hc]
  dsimp only
  rw [i.mark_field]

theorem markAndConstraint_of_none (hnone : i.constraint = none) :
    markAndConstraint i.node = markAndConstraintOfText (squash i.node.text) := by
  rw [markAndConstraint, i.constraint_field, hnone]

theorem resolutionAndBase_of_some {f : Node} (hf : i.resolution = some f) (t : Text) :
    resolutionAndBase i.node t = (some (squash f.text), trim (dropCopies (squash f.text) t)) := by
  rw [resolutionAndBase, i.resolution_field, hf]

theorem resolutionAndBase_of_none (hnone : i.resolution = none) :
    (resolutionAndBase i.node (squash i.mark.text)).1 = none ∧
        (resolutionAndBase i.node (squash i.mark.text)).2 = i.mark.text ↔
      (words i.mark.text).length ≠ 2 ∧ squash i.mark.text = i.mark.text := by
  rw [resolutionAndBase, i.resolution_field, hnone]
  dsimp only
  rw [words_squash]
  split
  · rename_i hwords
    simp [hwords]
  · rename_i hwords
    have hlength : (words i.mark.text).length ≠ 2 := by
      intro hlength
      obtain ⟨v, w, hpair⟩ := List.length_eq_two.1 hlength
      exact hwords v w hpair
    simp [hlength]

/-- In the text, the mark stands behind the resolution function. -/
theorem trim_dropCopies_text {f : Node} (hf : i.resolution = some f) :
    trim (dropCopies (squash f.text) (squash f.text ++ ([' '] ++ squash i.mark.text))) =
      squash i.mark.text := by
  obtain ⟨c, u, htext, hblank, -⟩ := (i.isIdentifier_resolution f hf).exists_head
  obtain ⟨v, hsquash⟩ : ∃ v, squash f.text = c :: v := by
    rw [htext]
    exact exists_squash_cons hblank u
  have hapart : ¬ squash f.text <+: [' '] ++ squash i.mark.text := by
    intro hfront
    rw [hsquash, List.singleton_append, List.cons_prefix_cons] at hfront
    rw [hfront.1] at hblank
    exact absurd hblank (by decide)
  rw [dropCopies_append (by simp [hsquash]), dropCopies_eq_self hapart,
    trim_blanks_append (by decide), trim_squash]

theorem ofNode_of_constraint {c f : Node} (hc : i.constraint = some c)
    (hf : i.resolution = some f) :
    ofNode i.node =
      ⟨trim (dropCopies (squash f.text) (squash i.mark.text)), some (squash c.text),
        some (squash f.text)⟩ := by
  rw [ofNode, i.markAndConstraint_of_constraint hc]
  dsimp only
  rw [i.resolutionAndBase_of_some hf]

/-- An indication with all its parts. -/
theorem isSplit_iff_of_constraint {c f : Node} (hc : i.constraint = some c)
    (hf : i.resolution = some f) :
    i.IsSplit (ofNode i.node) ↔
      squash f.text = f.text ∧ squash i.mark.text = i.mark.text ∧ ¬ f.text <+: i.mark.text := by
  obtain ⟨x, u, htext, hblank, -⟩ := (i.isIdentifier_resolution f hf).exists_head
  have hx : x ∈ squash f.text := by
    obtain ⟨v, hsquash⟩ := exists_squash_cons hblank u
    rw [htext, hsquash]
    exact List.mem_cons_self
  rw [i.ofNode_of_constraint hc hf]
  constructor
  · intro h
    have hfunction : squash f.text = f.text := by simpa [hf] using h.resolution
    have hbase := (trim_dropCopies_squash_eq_iff hx hblank).1 h.baseType
    rw [hfunction] at hbase
    exact ⟨hfunction, hbase⟩
  · rintro ⟨hfunction, hbase⟩
    refine ⟨by simp [hf, hfunction], by simp [hc], ?_⟩
    exact (trim_dropCopies_squash_eq_iff hx hblank).2 (by rwa [hfunction])

/-- An indication of a mark with a constraint. -/
theorem isSplit_iff_of_mark {c : Node} (hc : i.constraint = some c) (hf : i.resolution = none) :
    i.IsSplit (ofNode i.node) ↔
      (words i.mark.text).length ≠ 2 ∧ squash i.mark.text = i.mark.text := by
  have hparts : ofNode i.node =
      ⟨(resolutionAndBase i.node (squash i.mark.text)).2, some (squash c.text),
        (resolutionAndBase i.node (squash i.mark.text)).1⟩ := by
    rw [ofNode, i.markAndConstraint_of_constraint hc]
  rw [hparts, ← i.resolutionAndBase_of_none hf]
  constructor
  · intro h
    exact ⟨by simpa [hf] using h.resolution, h.baseType⟩
  · rintro ⟨hresolution, hbase⟩
    exact ⟨by simp [hf, hresolution], by simp [hc], hbase⟩

/-- Without a constraint, the function and the mark come out of the text if it is not cut. -/
theorem resolutionAndBase_text_iff (hc : i.constraint = none) :
    (resolutionAndBase i.node (squash i.node.text)).1 = i.resolution.map Node.text ∧
        (resolutionAndBase i.node (squash i.node.text)).2 = i.mark.text ↔
      (∀ c ∈ i.names, squash c.text = c.text) ∧
        (i.resolution = none → (words i.mark.text).length ≠ 2) := by
  cases hf : i.resolution with
  | none =>
    rw [i.squash_text hc hf, Option.map_none, i.resolutionAndBase_of_none hf]
    simp [names, hf, and_comm]
  | some f =>
    rw [i.squash_text_of_resolution hc hf, i.resolutionAndBase_of_some hf,
      i.trim_dropCopies_text hf]
    simp [names, hf]

/-- Without a constraint, the text is cut if one of the names holds what begins a constraint. -/
theorem not_constraint_iff (hc : i.constraint = none)
    (hspacing : ∀ c ∈ i.names, squash c.text = c.text) :
    '(' ∉ squash i.node.text ∧ holdsWord (squash i.node.text) "range" = false ↔
      ∀ c ∈ i.names, '(' ∉ c.text ∧ holdsWord c.text "range" = false := by
  have hmark : squash i.mark.text = i.mark.text := hspacing i.mark (by simp [names])
  cases hf : i.resolution with
  | none =>
    rw [i.squash_text hc hf, hmark]
    simp [names, hf]
  | some f =>
    have hfunction : squash f.text = f.text := hspacing f (by simp [names, hf])
    have hholds : holdsWord (f.text ++ ([' '] ++ i.mark.text)) "range" =
        (holdsWord f.text "range" || holdsWord i.mark.text "range") := by
      simp only [holdsWord_eq isKeyword_range]
      rw [cutWord_append_blanks isKeyword_range (by decide) (by decide), Option.isSome_or,
        Option.isSome_map, Option.isSome_map]
    rw [i.squash_text_of_resolution hc hf, hmark, hfunction, hholds, Bool.or_eq_false_iff]
    simpa [names, hf] using and_and_and_comm

/-- An indication without a constraint. -/
theorem isSplit_iff_of_none (hc : i.constraint = none) :
    i.IsSplit (ofNode i.node) ↔
      (∀ c ∈ i.names, squash c.text = c.text) ∧
        (i.resolution = none → (words i.mark.text).length ≠ 2) ∧
        ∀ c ∈ i.names, '(' ∉ c.text ∧ holdsWord c.text "range" = false := by
  have hparts : (ofNode i.node).constraint = (markAndConstraintOfText (squash i.node.text)).2 := by
    rw [ofNode, i.markAndConstraint_of_none hc]
  have hopen (h : '(' ∉ squash i.node.text ∧ holdsWord (squash i.node.text) "range" = false) :
      ofNode i.node = ⟨(resolutionAndBase i.node (squash i.node.text)).2, none,
        (resolutionAndBase i.node (squash i.node.text)).1⟩ := by
    rw [ofNode, i.markAndConstraint_of_none hc, markAndConstraintOfText_eq_self h.1 h.2]
  constructor
  · intro h
    have hnone : (markAndConstraintOfText (squash i.node.text)).2 = none := by
      rw [← hparts, h.constraint, hc]
      rfl
    have hnot := markAndConstraintOfText_eq_none_iff.1 hnone
    rw [hopen hnot] at h
    obtain ⟨hspacing, hpair⟩ := (i.resolutionAndBase_text_iff hc).1 ⟨h.resolution, h.baseType⟩
    exact ⟨hspacing, hpair, (i.not_constraint_iff hc hspacing).1 hnot⟩
  · rintro ⟨hspacing, hpair, hnot⟩
    rw [hopen ((i.not_constraint_iff hc hspacing).2 hnot)]
    obtain ⟨hresolution, hbase⟩ := (i.resolutionAndBase_text_iff hc).2 ⟨hspacing, hpair⟩
    exact ⟨hresolution, by simp [hc], hbase⟩

theorem isSplit_iff_isClear : i.IsSplit (ofNode i.node) ↔ i.IsClear := by
  -- A constraint tells where the mark ends, so the words of the names matter only without one.
  cases hc : i.constraint with
  | none =>
    rw [i.isSplit_iff_of_none hc]
    constructor
    · rintro ⟨hspacing, hpair, hnot⟩
      exact ⟨hspacing, hpair, fun _ => hnot, fun h => absurd h.1 (by simp [hc])⟩
    · intro h
      exact ⟨h.spacing, h.not_pair, h.not_constraint hc⟩
  | some c =>
    have hsome : i.constraint ≠ none := by simp [hc]
    have hmark : i.mark ∈ i.names := by simp [names]
    cases hf : i.resolution with
    | none =>
      rw [i.isSplit_iff_of_mark hc hf]
      constructor
      · rintro ⟨hpair, hspacing⟩
        exact ⟨by simpa [names, hf] using hspacing, fun _ => hpair, fun h => absurd h hsome,
          by simp [IsClipped, hf]⟩
      · intro h
        exact ⟨h.not_pair hf, h.spacing i.mark hmark⟩
    | some f =>
      rw [i.isSplit_iff_of_constraint hc hf]
      constructor
      · rintro ⟨hfunction, hspacing, hfront⟩
        exact ⟨by simp [names, hf, hfunction, hspacing], by simp [hf], fun h => absurd h hsome,
          by simpa [IsClipped, hc, hf] using hfront⟩
      · intro h
        exact ⟨h.spacing f (by simp [names, hf]), h.spacing i.mark hmark,
          by simpa [IsClipped, hc, hf] using h.not_clipped⟩

/-- The parts of an indication of simple names: only the type mark can come out wrong. -/
theorem ofNode_of_isMark (h : ∀ c ∈ i.names, IsMark c.text) :
    (ofNode i.node).resolution = i.resolution.map Node.text ∧
      (ofNode i.node).constraint = i.constraint.map (fun c => squash c.text) ∧
      ((ofNode i.node).baseType = i.mark.text ↔ ¬ i.IsClipped) := by
  have hspacing : ∀ c ∈ i.names, squash c.text = c.text := fun c hc => (h c hc).isToken.squash_eq
  by_cases hclipped : i.IsClipped
  · obtain ⟨f, hf, -⟩ := hclipped.2
    obtain ⟨c, hc⟩ := Option.isSome_iff_exists.1 hclipped.1
    have hresolution : (ofNode i.node).resolution = i.resolution.map Node.text := by
      rw [i.ofNode_of_constraint hc hf, hf, Option.map_some,
        hspacing f (by simp [names, Option.mem_def.1 hf])]
    have hconstraint : (ofNode i.node).constraint = i.constraint.map fun c => squash c.text := by
      rw [i.ofNode_of_constraint hc hf, hc]
      rfl
    refine ⟨hresolution, hconstraint, iff_of_false (fun hbase => ?_) (not_not.2 hclipped)⟩
    exact (i.isSplit_iff_isClear.1 ⟨hresolution, hconstraint, hbase⟩).not_clipped hclipped
  · have hmark : (words i.mark.text).length ≠ 2 := by
      simp [(h i.mark (by simp [names])).isToken.words_eq]
    have hsplit := i.isSplit_iff_isClear.2 ⟨hspacing, fun _ => hmark,
      fun _ c hc => ⟨(h c hc).not_paren, (h c hc).not_range⟩, hclipped⟩
    exact ⟨hsplit.resolution, hsplit.constraint, iff_of_true hsplit.baseType hclipped⟩

end Fielded

end SubtypeIndication

/-- **A subtype declaration is split into its parts if and only if these are clear.** Among simple
names, of one word and without anything that a constraint begins with, there is one case in which
they are not: the resolution function and the constraint come out as they stand under their fields,
but the type mark of an indication with both loses the name of the function if it begins with it. -/
theorem subtype_parts (s : Scope) {n : Node} (i : SubtypeIndication.Fielded)
    (hi : (n.childUnder "indication").or (n.childOfKind .subtypeIndication) = some i.node) :
    let d := s.subtype n
    (i.IsSplit ⟨d.baseType, d.constraint, d.resolution⟩ ↔ i.IsClear) ∧
      ((∀ c ∈ i.names, SubtypeIndication.IsMark c.text) →
        d.resolution = i.resolution.map Node.text ∧
          d.constraint = i.constraint.map (fun c => squash c.text) ∧
          (d.baseType = i.mark.text ↔ ¬ i.IsClipped)) := by
  rw [Scope.subtype, hi]
  exact ⟨i.isSplit_iff_isClear, i.ofNode_of_isMark⟩

namespace SubtypeIndication.Fielded

/-- The resolution function of two indications. -/
def function : Node := .under "resolution" (.leaf "identifier" "res")

/-- A type mark that begins with the name of the function. -/
def wordMark : Node := .under "type_mark" (.leaf "identifier" "res_word")

/-- The bounds of eight bits. -/
def byteBounds : Node := .under "constraint" (.leaf "index_constraint" "(7 downto 0)")

theorem isIdentifier_function : IsIdentifier function.text :=
  .of_all (by decide) (by decide) (by decide)

theorem isIdentifier_wordMark : IsIdentifier wordMark.text :=
  .of_all (by decide) (by decide) (by decide)

theorem isMark_of_mem {c : Node} (hc : c ∈ [function, wordMark]) : IsMark c.text := by
  simp only [List.mem_cons, List.not_mem_nil, or_false] at hc
  rcases hc with rfl | rfl <;>
    exact .of_isIdent (by decide) (List.all_eq_true.1 (by decide)) (by decide)

/-- An indication of the mark with the function, on two lines and without a constraint. -/
def resolvedWord : Fielded where
  node := { Node.leaf "subtype_indication" "res\n  res_word" with children := [function, wordMark] }
  mark := wordMark
  resolution := some function
  constraint := none
  mark_field := rfl
  resolution_field := rfl
  constraint_field := rfl
  isIdentifier_mark := isIdentifier_wordMark
  isIdentifier_resolution := by
    rintro f ⟨⟩
    exact isIdentifier_function
  words_text := fun _ => by decide

/-- An indication of the mark with the function and a constraint. -/
def resolvedByte : Fielded where
  node := .branch "subtype_indication" [function, wordMark, byteBounds]
  mark := wordMark
  resolution := some function
  constraint := some byteBounds
  mark_field := rfl
  resolution_field := rfl
  constraint_field := rfl
  isIdentifier_mark := isIdentifier_wordMark
  isIdentifier_resolution := by
    rintro f ⟨⟩
    exact isIdentifier_function
  words_text := fun h => absurd h (Option.some_ne_none _)

end SubtypeIndication.Fielded

open SubtypeIndication.Fielded in
/-- Without a constraint the name of the function is not cut off the mark. -/
theorem subtype_parts_resolvedWord :
    ¬ resolvedWord.IsClipped ∧
      let d := Scope.file.subtype (.branch "subtype_declaration" [resolvedWord.node])
      d.resolution = some "res".toList ∧ d.constraint = none ∧ d.baseType = "res_word".toList := by
  have hclear : ¬ resolvedWord.IsClipped := fun h => absurd h.1 (by decide)
  have hparts := (subtype_parts .file (n := .branch "subtype_declaration" [resolvedWord.node])
    resolvedWord rfl).2 fun _ hc => isMark_of_mem hc
  exact ⟨hclear, hparts.1.trans (by decide), hparts.2.1, (hparts.2.2.2 hclear).trans (by decide)⟩

open SubtypeIndication.Fielded in
/-- With a constraint it is. -/
theorem resolvedByte_is_clipped :
    (Scope.file.subtype (.branch "subtype_declaration" [resolvedByte.node])).baseType =
      "_word".toList := by
  decide +kernel

end DesignFacts

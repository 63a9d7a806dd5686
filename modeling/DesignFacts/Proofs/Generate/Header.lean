import DesignFacts.Generate.Header
import DesignFacts.Proofs.Text.Words

/-!
# Headers of generate statements behind a label

A generate statement may have its scheme in a node of its own, or hold it directly. Then label and
colon stand in front of the scheme. This file says when they do not matter.

**Searches.** Label, scheme and body are found by searches through children, fields, tokens and
descendants, which pass over a label and a colon (`Node.IsPassed`).

**Text.** One search goes through text: a `for` scheme without a range node has its range between
the words `in` and `generate`. It passes over other words (`rangeInText?_of_words`).

Main result: a node around the scheme does not change the header, if the search through text is not
changed by it (`GenerateHeader.ofNode_of_passed`).
-/

namespace DesignFacts

open Text Node

/-! ## Searches that pass over a label -/

/-- A node that no search in a scheme stops at. -/
structure Node.IsPassed (d : Node) : Prop where
  children_eq : d.children = []
  field_eq : d.field = none ∨ d.field = some "label"
  isScheme_eq : d.kind.isScheme = false
  kind_ne : d.kind ≠ .range
  isToken_eq : ∀ word ∈ ["for", "if", "case", "generate", "loop"], d.isToken word = false

theorem Node.IsPassed.isUnder_eq {d : Node} (hd : d.IsPassed) {field : String}
    (hfield : field ≠ "label") : d.isUnder field = false := by
  rcases hd.field_eq with h | h
  · rw [isUnder, h]
    rfl
  · simpa [isUnder, h] using hfield.symm

/-- The node that holds the range of a `for` scheme. -/
def Node.schemeRangeNode? (n : Node) : Option Node :=
  (n.childUnder "range").or (n.schemeHead.find? (·.kind == .range))

theorem schemeRange?_eq (n : Node) : n.schemeRange? =
    (n.schemeRangeNode?.map fun c => squash c.text).or (rangeInText? n.text) := rfl

section Passed

variable {n s d e : Node} (hn : n.children = d :: e :: s.children) (hd : d.IsPassed)
  (he : e.IsPassed)

include hn hd he

theorem childUnder_of_passed {field : String} (hfield : field ≠ "label") :
    n.childUnder field = s.childUnder field := by
  rw [childUnder, hn, List.find?_cons_of_neg (by simp [hd.isUnder_eq hfield]),
    List.find?_cons_of_neg (by simp [he.isUnder_eq hfield])]
  rfl

theorem schemeHead_of_passed : n.schemeHead = d :: e :: s.schemeHead := by
  have hd' := hd.isToken_eq "generate" (by simp)
  have he' := he.isToken_eq "generate" (by simp)
  simp [schemeHead, hn, hd', he']

theorem schemeText_of_passed {field keyword : String} (hfield : field ≠ "label")
    (hkeyword : keyword ∈ ["for", "if", "case", "generate", "loop"]) :
    n.schemeText field keyword = s.schemeText field keyword := by
  rw [schemeText, schemeText, childUnder_of_passed hn hd he hfield,
    schemeHead_of_passed hn hd he, splitAt?, splitAt?, hd.isToken_eq keyword hkeyword,
    he.isToken_eq keyword hkeyword]
  cases splitAt? (·.isToken keyword) s.schemeHead <;> rfl

theorem loopParameter?_of_passed : n.loopParameter? = s.loopParameter? := by
  have hskip : ∀ c : Node, c.IsPassed → ∀ ns,
      forParameter? false (c.subtree ++ ns) = forParameter? false ns := by
    intro c hc ns
    rw [c.subtree_eq, hc.children_eq, subtrees, List.singleton_append, forParameter?,
      hc.isToken_eq "loop" (by simp), hc.isToken_eq "generate" (by simp),
      hc.isToken_eq "for" (by simp)]
    rfl
  have hdescendants : forParameter? false n.descendants = forParameter? false s.descendants := by
    rw [descendants, hn, subtrees, hskip d hd, subtrees, hskip e he]
    rfl
  rw [loopParameter?, loopParameter?, childUnder_of_passed hn hd he (by decide), hdescendants]

theorem schemeBounds_of_passed
    (htext : s.schemeRangeNode? = none → rangeInText? n.text = rangeInText? s.text) :
    n.schemeBounds = s.schemeBounds := by
  have hnode : n.schemeRangeNode? = s.schemeRangeNode? := by
    rw [schemeRangeNode?, schemeRangeNode?, childUnder_of_passed hn hd he (by decide),
      schemeHead_of_passed hn hd he, List.find?_cons_of_neg (by simp [hd.kind_ne]),
      List.find?_cons_of_neg (by simp [he.kind_ne])]
  rw [schemeBounds, schemeBounds, schemeRange?_eq, schemeRange?_eq, hnode]
  cases hrange : s.schemeRangeNode? with
  | some c => rfl
  | none => rw [htext hrange]

theorem generateBody_of_passed : n.generateBody = s.generateBody := by
  rw [generateBody, generateBody, hn, splitAt?, splitAt?, hd.isToken_eq "generate" (by simp),
    he.isToken_eq "generate" (by simp)]
  cases splitAt? (·.isToken "generate") s.children <;> rfl

theorem alternatives_of_passed :
    n.namedChildren.filterMap alternativeText? = s.namedChildren.filterMap alternativeText? ∧
      n.namedChildren.flatMap alternativeBody = s.namedChildren.flatMap alternativeBody := by
  have htext : ∀ c : Node, c.IsPassed → c.alternativeText? = none := by
    intro c hc
    rw [alternativeText?, alternativeSides?, hc.children_eq]
    rfl
  have hbody : ∀ c : Node, c.IsPassed → c.alternativeBody = [] := by
    intro c hc
    rw [alternativeBody, alternativeSides?, hc.children_eq]
    rfl
  rw [namedChildren, namedChildren, hn, List.filter_cons, List.filter_cons]
  constructor
  · split <;> split <;> simp [htext d hd, htext e he]
  · split <;> split <;> simp [hbody d hd, hbody e he]

/-- The scheme and the body of a node do not depend on a label and a colon in front. -/
theorem scheme_of_passed (hkind : n.schemeKind = s.schemeKind)
    (htext : s.schemeKind = .forGenerate → s.schemeRangeNode? = none →
      rangeInText? n.text = rangeInText? s.text) :
    GenerateHeader.schemeOf n = GenerateHeader.schemeOf s ∧
      GenerateHeader.bodyOf n = GenerateHeader.bodyOf s := by
  obtain ⟨halternatives, hbodies⟩ := alternatives_of_passed hn hd he
  constructor
  · rw [GenerateHeader.schemeOf, GenerateHeader.schemeOf, hkind]
    split
    · rename_i hfor
      rw [schemeBounds_of_passed hn hd he (htext hfor), schemeParameter, schemeParameter,
        childUnder_of_passed hn hd he (by decide), loopParameter?_of_passed hn hd he]
    · rw [schemeText_of_passed hn hd he (by decide) (by decide), halternatives]
    · rw [schemeText_of_passed hn hd he (by decide) (by decide)]
  · rw [GenerateHeader.bodyOf, GenerateHeader.bodyOf, hkind, hbodies,
      generateBody_of_passed hn hd he]

end Passed

/-- **A header does not depend on a node around the scheme**, if the statement has a label and no
search in the text of the scheme ends in it. -/
theorem GenerateHeader.ofNode_of_passed {n m s d e : Node}
    (hn : n.children = d :: e :: s.children) (hm : m.children = [d, e, s]) (hd : d.IsPassed)
    (he : e.IsPassed) (hkind : n.kind.isScheme = false) (hkind' : m.kind.isScheme = false)
    (hnamed : s.named = true) (hscheme : s.kind.isScheme = true)
    (hchildren : ∀ c ∈ s.children, c.kind.isScheme = false) (hlabel : n.label?.isSome = true)
    (hlabel' : n.label? = m.label?)
    (hkeyword : s.children.findSome? keywordScheme? = some s.kind)
    (htext : s.kind = .forGenerate → s.schemeRangeNode? = none →
      rangeInText? n.text = rangeInText? s.text) :
    ofNode n = ofNode m := by
  -- In one shape the statement is its own scheme, and in the other the scheme is a node in it.
  have hflat : n.schemeNode = n := by
    rw [schemeNode, hkind, if_neg Bool.false_ne_true, List.find?_eq_none.2]
    · rfl
    · intro c hc
      rw [namedChildren, hn] at hc
      rcases List.mem_cons.1 (List.mem_filter.1 hc).1 with rfl | hc
      · simp [hd.isScheme_eq]
      · rcases List.mem_cons.1 hc with rfl | hc
        · simp [he.isScheme_eq]
        · simp [hchildren c hc]
  have hwrapped : m.schemeNode = s := by
    rw [schemeNode, hkind', if_neg Bool.false_ne_true, namedChildren, hm, List.find?_filter]
    simp [hd.isScheme_eq, he.isScheme_eq, hnamed, hscheme]
  have hsKind : s.schemeKind = s.kind := by rw [schemeKind, if_pos hscheme]
  have hskip : ∀ c : Node, c.IsPassed → c.keywordScheme? = none := by
    intro c hc
    rw [keywordScheme?, hc.isToken_eq "for" (by simp), hc.isToken_eq "case" (by simp),
      hc.isToken_eq "if" (by simp)]
    rfl
  have hnKind : n.schemeKind = s.schemeKind := by
    rw [hsKind, schemeKind, hkind, if_neg Bool.false_ne_true, hn, List.findSome?_cons,
      hskip d hd, List.findSome?_cons, hskip e he, hkeyword]
    rfl
  obtain ⟨hsame, hbody⟩ := scheme_of_passed hn hd he hnKind fun hfor => htext (hsKind ▸ hfor)
  obtain ⟨label, hlabel⟩ := Option.isSome_iff_exists.1 hlabel
  rw [ofNode, ofNode, hflat, hwrapped, hsame, hbody, generateLabel, generateLabel, ← hlabel',
    hlabel]
  rfl

namespace Text

/-! ## A range in the text after a label -/

/-- A range in a text is found behind other words, if no word but the first of them is `in` and
the text does not begin with `in`. -/
theorem rangeInText?_of_words (vs : List Text) {t u : Text} (hu : words u = vs ++ words t)
    (hvs : ∀ v ∈ vs.tail, isWord v "in" = false) (hne : words t ≠ [])
    (ht : "in ".toList.isPrefixOf (lower (squash t)) = false) :
    rangeInText? u = rangeInText? t := by
  have hsquash : squash u = glue vs (squash t) := by
    rw [squash, hu, join_append hne, ← squash]
  have hspace : ∀ v ∈ vs.map lower, ' ' ∉ v := by
    intro v hv hmem
    obtain ⟨w, hw, rfl⟩ := List.mem_map.1 hv
    have hblank := not_isBlank_of_mem_words (hu ▸ List.mem_append_left (words t) hw) ' '
      ((mem_lower w (by decide)).1 hmem)
    revert hblank
    decide
  have htail : ∀ v ∈ (vs.map lower).tail, v ≠ "in".toList := by
    intro v hv
    rw [← List.map_tail] at hv
    obtain ⟨w, hw, rfl⟩ := List.mem_map.1 hv
    have hword := hvs w hw
    simp only [isWord, same, beq_eq_false_iff_ne] at hword
    exact hword
  have hcut : cut " in ".toList (glue (vs.map lower) (lower (squash t))) =
      (cut " in ".toList (lower (squash t))).map (Prod.map (glue (vs.map lower)) id) :=
    cut_glue (by decide) hspace htail ht
  -- Both the search and what it drops go past the words in front.
  have hlength : ∀ left : Text,
      (glue (vs.map lower) left).length = (glue vs []).length + left.length := by
    intro left
    have hsame := length_lower (glue vs [])
    rw [lower_glue, lower_nil] at hsame
    rw [glue_eq_append, List.length_append, hsame]
  have hdrop : ∀ left : Text, (glue vs (squash t)).drop ((glue (vs.map lower) left).length + 4) =
      (squash t).drop (left.length + 4) := by
    intro left
    rw [hlength, glue_eq_append vs (squash t), Nat.add_assoc, List.drop_length_add_append]
  rw [rangeInText?, rangeInText?, hsquash]
  simp only [lower_glue, hcut]
  cases cut " in ".toList (lower (squash t)) with
  | none => rfl
  | some sides =>
    obtain ⟨left, right⟩ := sides
    simp [hdrop]

end Text

end DesignFacts

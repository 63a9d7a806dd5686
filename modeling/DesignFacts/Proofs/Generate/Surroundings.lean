import DesignFacts.Proofs.Generate.Region
import DesignFacts.Proofs.Generate.Shape

/-!
# The two shapes of a generate statement in a file

**Statements.** The two shapes of a generate statement are twins: they have the same header, and the
node around the scheme is a region (`GenerateParts.twin_item`).

**Surroundings.** Twins stay twins in regions around them (`GenerateParts.twin_fill`). The scheme of
a `case` generate takes the statements in it for alternatives, so it may not stand right around
them.

Main result: `GenerateParts.extract_flat_eq_wrapped`. The condition on the label cannot be left out
(`lanes_flat_ne_wrapped`).
-/

namespace DesignFacts.Sexp

open Text Node

namespace Hole

def isRegion (hole : Hole) : Bool := (Kind.ofTag (String.ofList hole.kind)).isRegion

/-- Whether the items of a list may be taken for alternatives of a `case` scheme. -/
def isChoice (hole : Hole) : Bool :=
  Kind.ofTag (String.ofList hole.kind) == .caseGenerate ||
    (hole.before ++ hole.after).any (Item.isWordToken "case")

/-- Whether lists are regions around a concurrent statement, the outermost first. -/
def areConcurrent (around : List Hole) : Bool :=
  around.all isRegion && !around.getLast?.any isChoice

theorem areConcurrent_cons {hole : Hole} {around : List Hole}
    (h : areConcurrent (hole :: around) = true) :
    hole.isRegion = true ∧ areConcurrent around = true ∧ (around = [] → hole.isChoice = false) := by
  rw [areConcurrent, List.all_cons, Bool.and_eq_true, Bool.and_eq_true, Bool.not_eq_true'] at h
  obtain ⟨⟨hregion, hregions⟩, hlast⟩ := h
  refine ⟨hregion, ?_, ?_⟩
  · rw [areConcurrent, hregions, Bool.true_and, Bool.not_eq_true']
    cases around with
    | nil => rfl
    | cons inner around => rwa [List.getLast?_cons_cons] at hlast
  · rintro rfl
    exact hlast

end Hole

/-- A region with one of its nodes replaced by a twin is a twin, and the same as an alternative. -/
theorem twin_trunk (source : Text) {kind : Text} (field : Option Text) {n m : Node} (h : Twin n m)
    (hregion : (Kind.ofTag (String.ofList kind)).isRegion = true) (ns ms : List Node)
    (hchoice : (trunk source kind field (ns ++ n :: ms)).schemeKind = .caseGenerate →
      SameChoice n m) :
    Twin (trunk source kind field (ns ++ n :: ms)) (trunk source kind field (ns ++ m :: ms)) ∧
      SameChoice (trunk source kind field (ns ++ n :: ms))
        (trunk source kind field (ns ++ m :: ms)) := by
  have hrow := forall₂_middle Twin.refl h ns ms
  have hmap : ∀ {α : Type} (f : Node → α), (∀ c : Node, f c.bare = f c) →
      (ns ++ n :: ms).map f = (ns ++ m :: ms).map f := fun f hf =>
    map_eq_of_forall₂ (fun _ _ htwin => eq_of_bare f hf htwin.same_bare) hrow
  have hbare : (trunk source kind field (ns ++ n :: ms)).bare =
      (trunk source kind field (ns ++ m :: ms)).bare := by
    apply bare_trunk_eq
    · rw [← List.head?_map, ← List.head?_map, hmap _ fun _ => rfl]
    · rw [← List.getLast?_map, ← List.getLast?_map, hmap _ fun _ => rfl]
  refine ⟨.of_children rfl hregion hbare hrow fun hcase => ?_, .of_children hbare hrow⟩
  have hboth :
      List.Forall₂ (fun a b => Twin a b ∧ SameChoice a b) (ns ++ n :: ms) (ns ++ m :: ms) :=
    forall₂_middle (fun c => ⟨.refl c, rfl, fun _ _ _ => rfl⟩) ⟨h, hchoice hcase⟩ ns ms
  exact (forall₂_filter (fun _ _ hpair => hpair.1.named_eq) hboth).imp fun _ _ hpair => hpair.2

namespace GenerateParts

variable {g : GenerateParts} {source : Text} {p : Page}

theorem isRegion_schemeItem : g.schemeItem.kind.isRegion = true := by
  have hscheme := isScheme_schemeItem (g := g)
  revert hscheme
  cases g.schemeItem.kind <;> decide

/-- The two shapes of a generate statement are twins. -/
theorem twin_item (htext : ((g.item false).write p).text <+: source)
    (hlabel : g.word = "for" → g.hasRangeNode = false →
      ∀ w ∈ (words g.labelText).tail, isWord w "in" = false) :
    Twin ((g.item false).grow source p) ((g.item true).grow source p) := by
  rw [write_item] at htext
  have hheader := ofNode_item htext hlabel
  have hkind : ∀ wrapped, ((g.item wrapped).grow source p).kind = .generateStatement := by
    intro wrapped
    rw [Item.kind_grow]
    show Kind.ofTag (String.ofList "generate_statement".toList) = .generateStatement
    decide
  obtain ⟨d, hd⟩ : ∃ d, (g.schemeRow source p).getLast? = some d :=
    ⟨_, List.getLast?_eq_some_getLast (List.cons_ne_nil _ _)⟩
  have hbare : ((g.item false).grow source p).bare = ((g.item true).grow source p).bare := by
    rw [grow_item, grow_item]
    apply bare_trunk_eq
    · rfl
    -- The last part of the wrapped scheme is the last part of the statement in both shapes.
    · rw [grow_schemeItem]
      show (_ :: _ :: g.schemeRow source p).getLast?.map Node.stop = some (trunk _ _ _ _).stop
      rw [List.getLast?_cons, List.getLast?_cons, hd]
      simp [trunk, hd]
  refine ⟨hbare, fun config L scope => ?_, ?_, fun hscheme => ?_⟩
  · exact walk_eq_of_header (.inl (hkind false)) hbare (congrArg _ hheader) (congrArg _ hheader)
      fun L scope => by rw [hheader]
  · have hregion : ∀ wrapped, ((g.item wrapped).grow source p).kind.isRegion = true := by
      intro wrapped
      rw [hkind]
      rfl
    have hscheme : (g.schemeItem.grow source (g.schemePage p)).subtree.filter isInner =
        (subtrees (g.schemeRow source p)).filter isInner := by
      rw [inner_subtree_of_isRegion (Item.named_grow ..), grow_schemeItem]
      · rfl
      · rw [Item.kind_grow]
        exact isRegion_schemeItem
    rw [inner_subtree_of_isRegion (Item.named_grow ..) (hregion false),
      inner_subtree_of_isRegion (Item.named_grow ..) (hregion true), grow_item, grow_item]
    show (subtrees (_ :: _ :: g.schemeRow source p)).filter isInner =
      (subtrees [_, _, _]).filter isInner
    simp only [subtrees, List.filter_append, hscheme, List.append_nil]
  · rw [hkind] at hscheme
    cases hscheme

/-- Where a row is taken for alternatives of a `case` scheme, the list says so. -/
theorem isChoice_of_schemeKind {hole : Hole} {n : Node} {q : Page} (hn : n.named = true)
    (hbefore : (Item.writeAll p hole.before).text <+: source)
    (hafter : (Item.writeAll q hole.after).text <+: source)
    (h : (trunk source hole.kind hole.field (Item.growAll source p hole.before ++
      n :: Item.growAll source q hole.after)).schemeKind = .caseGenerate) :
    hole.isChoice = true := by
  have hkind : (trunk source hole.kind hole.field (Item.growAll source p hole.before ++
      n :: Item.growAll source q hole.after)).kind = Kind.ofTag (String.ofList hole.kind) := rfl
  rw [schemeKind, hkind] at h
  rw [Hole.isChoice, Bool.or_eq_true]
  split at h
  · exact .inl (beq_iff_eq.2 h)
  · right
    obtain ⟨c, hc, hcase⟩ : ∃ c ∈ Item.growAll source p hole.before ++
        n :: Item.growAll source q hole.after, c.isToken "case" = true := by
      cases hfind : (Item.growAll source p hole.before ++
          n :: Item.growAll source q hole.after).findSome? keywordScheme? with
      | none =>
        simp only [trunk, hfind] at h
        cases h
      | some kind =>
        simp only [trunk, hfind, Option.getD_some] at h
        obtain ⟨c, hc, hscheme⟩ := List.exists_of_findSome?_eq_some hfind
        refine ⟨c, hc, ?_⟩
        rw [h, keywordScheme?] at hscheme
        by_contra hcase
        rw [if_neg hcase] at hscheme
        split at hscheme
        · cases hscheme
        · split at hscheme <;> cases hscheme
    -- The keyword has grown from a token of the list, and the node in the hole is none.
    have hitem : ∀ {r items}, (Item.writeAll r items).text <+: source →
        c ∈ Item.growAll source r items → ∃ item ∈ items, item.isWordToken "case" = true := by
      intro r items htext hmem
      obtain ⟨item, hitem, r', hr', rfl⟩ := Item.exists_of_mem_growAll hmem
      exact ⟨item, hitem, by rwa [← Item.isToken_grow (hr'.trans htext)]⟩
    rw [List.any_eq_true]
    rcases List.mem_append.1 hc with hc | hc
    · obtain ⟨item, hmem, hword⟩ := hitem hbefore hc
      exact ⟨item, List.mem_append_left _ hmem, hword⟩
    · rcases List.mem_cons.1 hc with rfl | hc
      · rw [isToken, hn] at hcase
        cases hcase
      · obtain ⟨item, hmem, hword⟩ := hitem hafter hc
        exact ⟨item, List.mem_append_right _ hmem, hword⟩

/-- In regions around them, the two shapes of a generate statement are twins. Inside a list they are
also the same as alternatives. -/
theorem twin_fill (hlabel : g.word = "for" → g.hasRangeNode = false →
      ∀ w ∈ (words g.labelText).tail, isWord w "in" = false)
    {around : List Hole} (haround : Hole.areConcurrent around = true)
    (htext : ((Hole.fill (g.item false) around).write p).text <+: source) :
    Twin ((Hole.fill (g.item false) around).grow source p)
        ((Hole.fill (g.item true) around).grow source p) ∧
      (around ≠ [] → SameChoice ((Hole.fill (g.item false) around).grow source p)
        ((Hole.fill (g.item true) around).grow source p)) := by
  induction around generalizing p with
  | nil => exact ⟨twin_item htext hlabel, fun hne => absurd rfl hne⟩
  | cons hole around ih =>
    obtain ⟨hregion, hinner, hlast⟩ := Hole.areConcurrent_cons haround
    rw [Hole.write_fill_cons rfl] at htext
    have hfill := (Item.text_writeAll hole.after _).trans htext
    obtain ⟨htwin, hchoice⟩ := ih hinner hfill
    have hwrite : ∀ q, (Hole.fill (g.item true) around).write q =
        (Hole.fill (g.item false) around).write q :=
      Hole.write_fill_eq rfl rfl (fun q => by rw [write_item, write_item]) around
    rw [Hole.grow_fill_cons rfl, Hole.grow_fill_cons rfl, hwrite]
    set q := Item.writeAll p hole.before
    have hstep := twin_trunk source hole.field htwin hregion
      (Item.growAll source p hole.before)
      (Item.growAll source ((Hole.fill (g.item false) around).write q) hole.after) (by
        -- The innermost hole holds the statement itself, and that one is in no row of alternatives.
        intro hcase
        apply hchoice
        rintro rfl
        have hbefore := (Item.text_write _ q).trans hfill
        have hfound := isChoice_of_schemeKind (Item.named_grow ..) hbefore htext hcase
        rw [hlast rfl] at hfound
        cases hfound)
    exact ⟨hstep.1, fun _ => hstep.2⟩

/-- **Both shapes of a generate statement mean the same.** If a node holds the range of a `for`
scheme, or no word of the label after the first one is `in`, the two shapes have the same header in
any surroundings, and files that differ by them have the same facts. -/
theorem extract_flat_eq_wrapped (g : GenerateParts)
    (hlabel : g.word = "for" → g.hasRangeNode = false →
      ∀ w ∈ (words g.labelText).tail, isWord w "in" = false) (around : List Hole) :
    ∃ tree tree' n n',
      (layout (Hole.fill (g.item false) around)).load = .ok tree ∧
      (layout (Hole.fill (g.item true) around)).load = .ok tree' ∧
      tree.source = tree'.source ∧
      Hole.node? around tree.root = some n ∧ Hole.node? around tree'.root = some n' ∧
      GenerateHeader.ofNode n = GenerateHeader.ofNode n' ∧
      (Hole.areConcurrent around = true →
        ∀ config file, extract config file tree.root = extract config file tree'.root) := by
  -- Both shapes write the same text, so only their trees have to be compared.
  have hwrite : ∀ p, (g.item true).write p = (g.item false).write p := by
    intro p
    rw [write_item, write_item]
  have hsource : (Hole.fill (g.item false) around).write {} =
      (Hole.fill (g.item true) around).write {} :=
    (Hole.write_fill_eq rfl rfl hwrite around {}).symm
  have hlist : (g.item false).isList = true := rfl
  have htext := Hole.text_write_page hlist around {}
  refine ⟨_, _, _, _, load_layout_eq_grow _, load_layout_eq_grow _, congrArg Page.text hsource,
    Hole.node?_grow_fill rfl around _ _, Hole.node?_grow_fill rfl around _ _, ?_, ?_⟩
  · rw [← hsource]
    rw [write_item] at htext
    exact ofNode_item htext hlabel
  · intro haround config file
    rw [← hsource]
    exact (twin_fill hlabel haround List.prefix_rfl).1.extract_eq config file

/-- Lanes of an assignment, with the range of the scheme in one token. -/
def lanes (name : Text) : GenerateParts where
  labelKind := "extended_identifier".toList
  labelTokens := [.token none ('\\' :: name ++ ['\\'])]
  word := "for"
  keyword := "for".toList
  header := [.list none "identifier".toList [.token none "i".toList], .token none "in".toList,
    .token none "0 to 3".toList]
  body := [.list none "concurrent_signal_assignment".toList
    [.list none "identifier".toList [.token none "y".toList], .token none "<=".toList,
      .list none "identifier".toList [.token none "a".toList], .token none ";".toList]]
  labelKind_eq := by decide
  labelTokens_plain := rfl
  label_spelled := ⟨'\\', by simp [leafText, Item.tokenText?, join], by decide, by decide⟩
  word_mem := by decide
  keyword_isWord := by decide
  header_isList := ⟨_, List.mem_cons_self, rfl⟩
  isScheme_eq := by decide

theorem extract_flat_eq_wrapped_twoLanes :
    let g := lanes "two lanes".toList
    let around : List Hole :=
      [⟨none, "design_file".toList, [], []⟩,
        ⟨none, "architecture_body".toList, [.token none "begin".toList], []⟩,
        ⟨none, "if_generate".toList, [.token none "if".toList,
          .list none "identifier".toList [.token none "c".toList], .token none "generate".toList],
          [.token none "end".toList]⟩]
    g.hasRangeNode = false ∧ (∀ w ∈ (words g.labelText).tail, isWord w "in" = false) ∧
      ∃ tree tree' n n',
        (layout (Hole.fill (g.item false) around)).load = .ok tree ∧
        (layout (Hole.fill (g.item true) around)).load = .ok tree' ∧
        tree.source = tree'.source ∧
        Hole.node? around tree.root = some n ∧ Hole.node? around tree'.root = some n' ∧
        GenerateHeader.ofNode n = GenerateHeader.ofNode n' ∧
        ∀ config file, extract config file tree.root = extract config file tree'.root := by
  intro g around
  have hlabel : ∀ w ∈ (words g.labelText).tail, isWord w "in" = false := by decide
  obtain ⟨tree, tree', n, n', htree, htree', hsource, hn, hn', hheader, hfacts⟩ :=
    extract_flat_eq_wrapped g (fun _ _ => hlabel) around
  exact ⟨by decide, hlabel, tree, tree', n, n', htree, htree', hsource, hn, hn', hheader,
    hfacts (by decide)⟩

/-- The word `in` in the label is taken for that of the range. -/
theorem lanes_flat_ne_wrapped :
    let g := lanes "lanes in use".toList
    ∃ tree tree', (layout (g.item false)).load = .ok tree ∧
      (layout (g.item true)).load = .ok tree' ∧
      (GenerateHeader.ofNode tree.root).scheme =
        .loop "i".toList "use\\ : for i in 0".toList "3".toList "to".toList ∧
      (GenerateHeader.ofNode tree'.root).scheme =
        .loop "i".toList "0".toList "3".toList "to".toList := by
  refine ⟨_, _, load_layout_eq_grow _, load_layout_eq_grow _, ?_, ?_⟩
  · decide +kernel
  · decide +kernel

end GenerateParts

end DesignFacts.Sexp

import DesignFacts.Extraction.Basic
import DesignFacts.Proofs.Tree.Row

/-!
# Nodes that stand for the same concurrent statements

A file, an architecture and a generate statement are regions: concurrent statements stand directly
in them. This file says when two nodes can stand for each other in a region without changing the
facts of the file.

**Nodes** (`Twin`). Twins agree in all but their parts, have the same harvest in every scope, and
the same nodes under them apart from regions. As schemes of a generate statement they also have the
same header.

**Rows.** Regions over rows of twins are twins (`Twin.of_children`), by the searches that find the
parts of a generate statement.

Main result: twins as roots give the same facts (`Twin.extract_eq`).
-/

namespace DesignFacts

open Text Node

/-- Whether concurrent statements stand directly in a construct. -/
def Kind.isRegion : Kind → Bool
  | designFile | architectureBody | generateStatement | forGenerate | ifGenerate | caseGenerate
  | caseAlternative | other => true
  | _ => false

/-- Whether a node is a token or no region. -/
def Node.isInner (n : Node) : Bool := !(n.named && n.kind.isRegion)

/-- Two nodes with the same scheme in them, and statements in it that have the same harvests. -/
structure SameScheme (n m : Node) : Prop where
  same_label : n.label? = m.label?
  same_scheme : GenerateHeader.schemeOf n = GenerateHeader.schemeOf m
  same_body : ∀ config L scope, (GenerateHeader.bodyOf n).map (walk config L scope) =
    (GenerateHeader.bodyOf m).map (walk config L scope)

/-- Two nodes that are the same as alternatives of a `case` scheme. -/
structure SameChoice (n m : Node) : Prop where
  same_text : n.alternativeText? = m.alternativeText?
  same_body : ∀ config L scope, n.alternativeBody.map (walk config L scope) =
    m.alternativeBody.map (walk config L scope)

/-- Two nodes that can stand for each other in a region. -/
structure Twin (n m : Node) : Prop where
  same_bare : n.bare = m.bare
  same_walk : ∀ config L scope, walk config L scope n = walk config L scope m
  same_inner : n.subtree.filter isInner = m.subtree.filter isInner
  same_scheme : n.kind.isScheme = true → SameScheme n m

namespace Twin

variable {n m : Node}

theorem refl (n : Node) : Twin n n :=
  ⟨rfl, fun _ _ _ => rfl, rfl, fun _ => ⟨rfl, rfl, fun _ _ _ => rfl⟩⟩

theorem kind_eq (h : Twin n m) : n.kind = m.kind := eq_of_bare Node.kind (fun _ => rfl) h.same_bare

theorem named_eq (h : Twin n m) : n.named = m.named :=
  eq_of_bare Node.named (fun _ => rfl) h.same_bare

theorem text_eq (h : Twin n m) : n.text = m.text := eq_of_bare Node.text (fun _ => rfl) h.same_bare

theorem isUnder_eq (h : Twin n m) (field : String) : n.isUnder field = m.isUnder field :=
  eq_of_bare (Node.isUnder · field) (fun _ => rfl) h.same_bare

theorem isToken_eq (h : Twin n m) (word : String) : n.isToken word = m.isToken word :=
  eq_of_bare (Node.isToken · word) (fun _ => rfl) h.same_bare

end Twin

/-! ## What does not look below children -/

namespace Node

variable (n : Node)

theorem label?_shallow : n.shallow.label? = n.label? := by
  rw [label?, label?, childUnder_shallow, Option.map_map]
  rfl

theorem labelBeforeColon?_shallow : n.shallow.labelBeforeColon? = n.labelBeforeColon? := by
  have hcolon : n.shallow.aroundColon =
      Prod.map (List.map bare) (List.map bare) n.aroundColon := by
    have hsplit := splitAt?_isToken_map_bare ":" n.children
    rw [aroundColon, aroundColon, shallow, hsplit]
    cases splitAt? (·.isToken ":") n.children <;> rfl
  rw [labelBeforeColon?, labelBeforeColon?, hcolon, Prod.map_fst, List.find?_map, Option.map_map]
  rfl

theorem schemeKind_shallow : n.shallow.schemeKind = n.schemeKind := by
  have hfind : n.shallow.children.findSome? keywordScheme? =
      n.children.findSome? keywordScheme? := List.findSome?_map
  rw [schemeKind, schemeKind, hfind]
  rfl

theorem schemeHead_shallow : n.shallow.schemeHead = n.schemeHead.map bare := List.takeWhile_map ..

theorem schemeText_shallow (field keyword : String) :
    n.shallow.schemeText field keyword = n.schemeText field keyword := by
  rw [schemeText, schemeText, childUnder_shallow, schemeHead_shallow, splitAt?_isToken_map_bare]
  cases n.childUnder field with
  | some c => rfl
  | none =>
    cases splitAt? (·.isToken keyword) n.schemeHead with
    | none => rfl
    | some sides =>
      show (spanText ((sides.2.map bare).filter _)).getD [] = (spanText (sides.2.filter _)).getD []
      rw [filter_map_bare fun _ => rfl, spanText_map_bare]

theorem schemeBounds_shallow : n.shallow.schemeBounds = n.schemeBounds := by
  have hrange : n.shallow.schemeRange? = n.schemeRange? := by
    rw [schemeRange?, schemeRange?, childUnder_shallow, schemeHead_shallow, List.find?_map,
      ← Option.map_or, Option.map_map]
    rfl
  rw [schemeBounds, schemeBounds, hrange]

theorem alternativeText?_shallow : n.shallow.alternativeText? = n.alternativeText? := by
  have hsplit := splitAt?_isToken_map_bare "=>" n.children
  rw [alternativeText?, alternativeText?, alternativeSides?, alternativeSides?, shallow, hsplit]
  cases splitAt? (·.isToken "=>") n.children with
  | none => rfl
  | some sides =>
    show spanText ((sides.1.map bare).filter _) = spanText (sides.1.filter _)
    rw [filter_map_bare fun _ => rfl, spanText_map_bare]

end Node

theorem Architecture.ofNode_shallow (n : Node) : ofNode n.shallow = ofNode n := by
  have hfilter : n.shallow.namedChildren.filter (·.kind == .identifier) =
      (n.namedChildren.filter (·.kind == .identifier)).map bare := by
    rw [namedChildren_shallow, filter_map_bare fun _ => rfl]
  have hget : ∀ (field : String) (i : Nat) {α : Type} (f : Node → α), (∀ c : Node, f c.bare = f c) →
      ((n.shallow.childUnder field).or
        (n.shallow.namedChildren.filter (·.kind == .identifier))[i]?).map f =
      ((n.childUnder field).or (n.namedChildren.filter (·.kind == .identifier))[i]?).map f := by
    intro field i α f hf
    rw [hfilter, childUnder_shallow, List.getElem?_map, ← Option.map_or, Option.map_map]
    exact congrArg (Option.map · _) (funext hf)
  rw [ofNode, ofNode]
  simp only [hget "name" 0 trimmed fun _ => rfl,
    hget "entity" 1 (fun c => compact c.text) fun _ => rfl]
  rfl

/-! ## Rows of twins -/

theorem walks_eq {ns ms : List Node} (h : List.Forall₂ Twin ns ms) (config : Config) (L : Lookup)
    (scope : Scope) : ns.map (walk config L scope) = ms.map (walk config L scope) :=
  map_eq_of_forall₂ (fun _ _ htwin => htwin.same_walk config L scope) h

theorem inner_subtrees_eq {ns ms : List Node} (h : List.Forall₂ Twin ns ms) :
    (subtrees ns).filter isInner = (subtrees ms).filter isInner := by
  induction h with
  | nil => rfl
  | cons htwin _ ih =>
    rw [subtrees, subtrees, List.filter_append, List.filter_append, htwin.same_inner, ih]

/-- Under a region is what is under its parts. -/
theorem inner_subtree_of_isRegion {n : Node} (hnamed : n.named = true)
    (hregion : n.kind.isRegion = true) :
    n.subtree.filter isInner = (subtrees n.children).filter isInner := by
  rw [n.subtree_eq, List.filter_cons_of_neg]
  rw [isInner, hnamed, hregion]
  exact Bool.false_ne_true

/-- The parameter of a loop is found without looking at regions. -/
theorem forParameter?_filter (seen : Bool) (ns : List Node) :
    forParameter? seen (ns.filter isInner) = forParameter? seen ns := by
  induction ns generalizing seen with
  | nil => rfl
  | cons n ns ih =>
    rw [List.filter_cons]
    split
    · rw [forParameter?, forParameter?, ih, ih]
    · rename_i hinner
      rw [isInner, Bool.not_eq_true, Bool.not_eq_false', Bool.and_eq_true] at hinner
      have htoken : ∀ word, n.isToken word = false := by
        intro word
        rw [isToken, hinner.1]
        rfl
      have hidentifier : (n.kind == .identifier) = false := by
        rw [beq_eq_false_iff_ne]
        intro hkind
        rw [hkind] at hinner
        cases hinner.2
      rw [ih, forParameter?, htoken, htoken, htoken, hidentifier, Bool.and_false]
      rfl

section Children

variable {n m : Node} (hbare : n.bare = m.bare) (h : List.Forall₂ Twin n.children m.children)

include h

theorem twins_namedChildren : List.Forall₂ Twin n.namedChildren m.namedChildren :=
  forall₂_filter (fun _ _ htwin => htwin.named_eq) h

theorem twins_generateBody : List.Forall₂ Twin n.generateBody m.generateBody := by
  have hsplit := rel_splitAt? (p := (·.isToken "generate"))
    (fun _ _ htwin => htwin.isToken_eq "generate") h
  have hafter : List.Forall₂ Twin
      (((splitAt? (·.isToken "generate") n.children).map Prod.snd).getD [])
      (((splitAt? (·.isToken "generate") m.children).map Prod.snd).getD []) := by
    generalize splitAt? (·.isToken "generate") n.children = sides,
      splitAt? (·.isToken "generate") m.children = sides' at hsplit
    cases hsplit with
    | none => exact .nil
    | some hsides => exact hsides.2
  apply forall₂_filter
  · intro c d htwin
    rw [htwin.named_eq, htwin.isUnder_eq]
  · apply forall₂_takeWhile _ hafter
    intro c d htwin
    rw [htwin.isToken_eq]

theorem twins_alternativeBody : List.Forall₂ Twin n.alternativeBody m.alternativeBody := by
  have hsplit := rel_splitAt? (p := (·.isToken "=>")) (fun _ _ htwin => htwin.isToken_eq "=>") h
  rw [alternativeBody, alternativeBody, alternativeSides?, alternativeSides?]
  generalize splitAt? (·.isToken "=>") n.children = sides,
    splitAt? (·.isToken "=>") m.children = sides' at hsplit
  cases hsplit with
  | none => exact .nil
  | some hsides => exact forall₂_filter (fun _ _ htwin => htwin.named_eq) hsides.2

theorem map_bare_children : n.children.map bare = m.children.map bare :=
  map_eq_of_forall₂ (fun _ _ htwin => htwin.same_bare) h

theorem loopParameter?_eq_of_twins : n.loopParameter? = m.loopParameter? := by
  have hunder := rel_find? (p := (·.isUnder "parameter"))
    (fun _ _ htwin => htwin.isUnder_eq "parameter") h
  rw [loopParameter?, loopParameter?, childUnder, childUnder, descendants, descendants,
    ← forParameter?_filter false (subtrees n.children), inner_subtrees_eq h, forParameter?_filter]
  generalize n.children.find? (·.isUnder "parameter") = c,
    m.children.find? (·.isUnder "parameter") = d at hunder
  cases hunder with
  | none => rfl
  | some htwin => exact congrArg (fun t => some (trim t)) htwin.text_eq

include hbare

/-- As alternatives of a `case` scheme, nodes over rows of twins are the same. -/
theorem SameChoice.of_children : SameChoice n m where
  same_text := eq_of_shallow alternativeText? alternativeText?_shallow hbare (map_bare_children h)
  same_body := walks_eq (twins_alternativeBody h)

/-- Over rows of twins there is the same scheme, if the twins are also the same as alternatives
where they are taken for them. -/
theorem SameScheme.of_children (hchoice : n.schemeKind = .caseGenerate →
    List.Forall₂ SameChoice n.namedChildren m.namedChildren) : SameScheme n m := by
  have hchildren := map_bare_children h
  have hkind := eq_of_shallow schemeKind schemeKind_shallow hbare hchildren
  refine ⟨eq_of_shallow label? label?_shallow hbare hchildren, ?_, ?_⟩
  · have hbounds := eq_of_shallow schemeBounds schemeBounds_shallow hbare hchildren
    have htext : ∀ field keyword, n.schemeText field keyword = m.schemeText field keyword :=
      fun field keyword => eq_of_shallow (schemeText · field keyword)
        (schemeText_shallow · field keyword) hbare hchildren
    have hvariable : (n.childUnder "loop_var").map trimmed =
        (m.childUnder "loop_var").map trimmed := by
      apply eq_of_shallow (fun n => (n.childUnder "loop_var").map trimmed) _ hbare hchildren
      intro n
      rw [childUnder_shallow, Option.map_map]
      rfl
    rw [GenerateHeader.schemeOf, GenerateHeader.schemeOf, ← hkind, ← hbounds]
    split
    · rw [schemeParameter, schemeParameter, hvariable, loopParameter?_eq_of_twins h]
    -- Only the alternatives are looked into more deeply than their own tags and texts.
    · rename_i hcase
      have htexts := map_eq_of_forall₂ (fun _ _ hsame => hsame.same_text) (hchoice hcase)
      have hfilter := congrArg (List.filterMap id) htexts
      rw [List.filterMap_map, List.filterMap_map] at hfilter
      rw [htext]
      exact congrArg (Scheme.choice _) hfilter
    · rw [htext]
  · intro config L scope
    rw [GenerateHeader.bodyOf, GenerateHeader.bodyOf, ← hkind]
    split
    · rename_i hcase
      have hwalks := map_eq_of_forall₂ (fun _ _ hsame => hsame.same_body config L scope)
        (hchoice (beq_iff_eq.1 hcase))
      rw [List.map_flatMap, List.map_flatMap, List.flatMap_def, List.flatMap_def, hwalks]
    · exact walks_eq (twins_generateBody h) config L scope

/-- The nodes that hold the schemes of generate statements over rows of twins. -/
theorem SameScheme.schemeNode (hchoice : n.schemeKind = .caseGenerate →
    List.Forall₂ SameChoice n.namedChildren m.namedChildren) :
    SameScheme n.schemeNode m.schemeNode := by
  have hkind : n.kind = m.kind := eq_of_bare Node.kind (fun _ => rfl) hbare
  have hsame := SameScheme.of_children hbare h hchoice
  have hfind := rel_find? (p := (·.kind.isScheme))
    (fun _ _ htwin => congrArg Kind.isScheme htwin.kind_eq) (twins_namedChildren h)
  rw [Node.schemeNode, Node.schemeNode, ← hkind]
  split
  · exact hsame
  · cases hn : n.namedChildren.find? (·.kind.isScheme) <;>
      cases hm : m.namedChildren.find? (·.kind.isScheme) <;> rw [hn, hm] at hfind
    · exact hsame
    · cases hfind
    · cases hfind
    · cases hfind with
      | some htwin =>
        exact htwin.same_scheme (List.find?_some (p := fun c : Node => c.kind.isScheme) hn)

theorem generateLabel_eq (hscheme : n.schemeNode.label? = m.schemeNode.label?) :
    n.generateLabel = m.generateLabel := by
  have hchildren := map_bare_children h
  have hlabel := eq_of_shallow label? label?_shallow hbare hchildren
  have hcolon := eq_of_shallow labelBeforeColon? labelBeforeColon?_shallow hbare hchildren
  have hline : n.line = m.line := eq_of_bare Node.line (fun _ => rfl) hbare
  rw [generateLabel, generateLabel, hlabel, hscheme, hcolon, hline]

end Children

/-! ## Regions -/

section Visits

variable {config : Config} {L : Lookup} {scope : Scope} {n m : Node}

theorem visit_of_isScheme (h : n.kind = .generateStatement ∨ n.kind.isScheme = true) :
    visit config L scope n = .generate := by
  cases hkind : n.kind <;> simp_all [visit, Kind.isScheme]

theorem visit_of_plain (h : n.kind ∈ [.designFile, .caseAlternative, .other]) :
    visit config L scope n = .construct {} scope n.namedChildren := by
  simp only [List.mem_cons, List.not_mem_nil, or_false] at h
  rcases h with h | h | h <;> simp [visit, h, Kind.isName, Kind.isLiteral]

/-- Generate statements with the same header have the same harvest. -/
theorem walk_eq_of_header (hn : n.kind = .generateStatement ∨ n.kind.isScheme = true)
    (hbare : n.bare = m.bare)
    (hlabel : (GenerateHeader.ofNode n).label = (GenerateHeader.ofNode m).label)
    (hscheme : (GenerateHeader.ofNode n).scheme = (GenerateHeader.ofNode m).scheme)
    (hbody : ∀ L scope, (GenerateHeader.ofNode n).body.map (walk config L scope) =
      (GenerateHeader.ofNode m).body.map (walk config L scope)) :
    walk config L scope n = walk config L scope m := by
  have hkind : n.kind = m.kind := eq_of_bare Node.kind (fun _ => rfl) hbare
  have hline : n.line = m.line := eq_of_bare Node.line (fun _ => rfl) hbare
  have hfar : n.isFar = m.isFar := eq_of_bare Node.isFar (fun _ => rfl) hbare
  have hlookup : generateLookup L n = generateLookup L m := by
    rw [generateLookup, generateLookup, GenerateHeader.parameter?, GenerateHeader.parameter?,
      hscheme]
  rw [walk_eq, walk_eq, visit_of_isScheme hn, visit_of_isScheme (by rwa [← hkind])]
  simp only [hlookup, hlabel, hbody, generateHarvest, generateOf, hscheme, hline, hfar]

theorem visit_of_architecture (h : n.kind = .architectureBody) :
    visit config L scope n = .construct (architectureHarvest n)
      (scope.inArchitecture (Architecture.ofNode n).name) n.namedChildren := by
  simp only [visit, h]

theorem architectureHarvest_eq (hbare : n.bare = m.bare)
    (hchildren : n.children.map bare = m.children.map bare) :
    architectureHarvest n = architectureHarvest m := by
  apply eq_of_shallow architectureHarvest _ hbare hchildren
  intro n
  rw [architectureHarvest, architectureHarvest, Architecture.ofNode_shallow]
  rfl

end Visits

/-- Regions over rows of twins are twins. -/
theorem Twin.of_children {n m : Node} (hnamed : n.named = true) (hregion : n.kind.isRegion = true)
    (hbare : n.bare = m.bare) (h : List.Forall₂ Twin n.children m.children)
    (hchoice : n.schemeKind = .caseGenerate →
      List.Forall₂ SameChoice n.namedChildren m.namedChildren) : Twin n m where
  same_bare := hbare
  same_walk config L scope := by
    have hkind : n.kind = m.kind := eq_of_bare Node.kind (fun _ => rfl) hbare
    have hchildren := map_bare_children h
    have hcases : n.kind ∈ [.designFile, .caseAlternative, .other] ∨ n.kind = .architectureBody ∨
        (n.kind = .generateStatement ∨ n.kind.isScheme = true) := by
      revert hregion
      cases n.kind <;> decide
    rcases hcases with hplain | harchitecture | hgenerate
    · rw [walk_eq, walk_eq, visit_of_plain hplain, visit_of_plain (hkind ▸ hplain)]
      simp only [walks_eq (twins_namedChildren h)]
    · have hname := eq_of_shallow Architecture.ofNode Architecture.ofNode_shallow hbare hchildren
      rw [walk_eq, walk_eq, visit_of_architecture harchitecture,
        visit_of_architecture (hkind ▸ harchitecture), architectureHarvest_eq hbare hchildren,
        hname]
      simp only [walks_eq (twins_namedChildren h)]
    · have hscheme := SameScheme.schemeNode hbare h hchoice
      exact walk_eq_of_header hgenerate hbare (generateLabel_eq hbare h hscheme.same_label)
        hscheme.same_scheme (hscheme.same_body config)
  same_inner := by
    have hkind : n.kind = m.kind := eq_of_bare Node.kind (fun _ => rfl) hbare
    have hnamed' : n.named = m.named := eq_of_bare Node.named (fun _ => rfl) hbare
    rw [inner_subtree_of_isRegion hnamed hregion,
      inner_subtree_of_isRegion (hnamed' ▸ hnamed) (hkind ▸ hregion), inner_subtrees_eq h]
  same_scheme := fun _ => .of_children hbare h hchoice

/-! ## Files -/

/-- What is not found in regions is the same under twins. -/
theorem Twin.flatMap_subtree_eq {n m : Node} (h : Twin n m) {α : Type} {f : Node → List α}
    (hf : ∀ c : Node, c.kind.isRegion = true → f c = []) :
    n.subtree.flatMap f = m.subtree.flatMap f := by
  have hinner : ∀ ns : List Node, (ns.filter isInner).flatMap f = ns.flatMap f := by
    intro ns
    induction ns with
    | nil => rfl
    | cons c ns ih =>
      rw [List.filter_cons, List.flatMap_cons]
      split
      · rw [List.flatMap_cons, ih]
      · rename_i houter
        rw [isInner, Bool.not_eq_true, Bool.not_eq_false', Bool.and_eq_true] at houter
        rw [hf c houter.2, List.nil_append, ih]
  rw [← hinner, h.same_inner, hinner]

theorem Twin.any_declaresFar_eq {n m : Node} (h : Twin n m) :
    n.subtree.any declaresFar = m.subtree.any declaresFar := by
  have hregion : ∀ c : Node, (isInner c && declaresFar c) = declaresFar c := by
    intro c
    by_cases hinner : c.isInner = true
    · rw [hinner, Bool.true_and]
    · rw [isInner, Bool.not_eq_true, Bool.not_eq_false', Bool.and_eq_true] at hinner
      have hfar : declaresFar c = false := by
        cases hkind : c.kind <;> simp_all [declaresFar, Kind.isRegion]
      rw [hfar, Bool.and_false]
  have hfilter : ∀ ns : List Node, (ns.filter isInner).any declaresFar = ns.any declaresFar := by
    intro ns
    rw [List.any_filter, funext hregion]
  rw [← hfilter, h.same_inner, hfilter]

/-- Twins as roots give the same facts. -/
theorem Twin.extract_eq {n m : Node} (h : Twin n m) (config : Config) (file : Text) :
    extract config file n = extract config file m := by
  have hobjects : n.subtree.flatMap objectsDeclared = m.subtree.flatMap objectsDeclared := by
    apply h.flatMap_subtree_eq
    intro c hc
    cases hkind : c.kind <;> simp_all [objectsDeclared, Kind.isRegion]
  have hvalues : n.subtree.flatMap valuesDeclared = m.subtree.flatMap valuesDeclared := by
    apply h.flatMap_subtree_eq
    intro c hc
    cases hkind : c.kind <;> simp_all [valuesDeclared, Kind.isRegion]
  have hsubprograms :
      n.subtree.flatMap subprogramsDeclared = m.subtree.flatMap subprogramsDeclared := by
    apply h.flatMap_subtree_eq
    intro c hc
    cases hkind : c.kind <;> simp_all [subprogramsDeclared, isSubprogram, Kind.isRegion]
  have htable : nameTable config n = nameTable config m := by
    rw [nameTable, nameTable, hobjects, hvalues, hsubprograms]
  rw [extract, extract, harvest, harvest, htable, h.same_walk, h.any_declaresFar_eq]

end DesignFacts

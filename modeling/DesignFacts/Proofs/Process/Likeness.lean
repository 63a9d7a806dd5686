import DesignFacts.Proofs.Process.LocalName
import DesignFacts.Proofs.Tree.Row

/-!
# Nodes that are alike in a process

A process looks at its statements in a few ways only. This file says when two nodes are alike in
all of them, and how likeness goes up from parts to whole processes.

**Rows** (`SameRow`). Seen from outside, a row of nodes is where it begins and ends, whether it
covers all other values of a choice, what it tells a loop about its parameter, which locals it
brings in, and which alternatives it has for a case statement.

**Nodes** (`Alike`). Alike nodes agree in all but their parts, are the same as rows, and do the same
as statements. Conditions, expressions of case statements and sensitivity lists are looked into, so
there only equal nodes are alike.

Main result: processes whose parts are alike one by one have the same facts
(`processHarvest_congr`).
-/

namespace DesignFacts

open Text

/-! ## Looking into nodes -/

namespace Node

/-- Whether a node is looked into where it stands and is no statement there: a condition, the
expression of a case statement, or a sensitivity list. -/
def isLookedInto (n : Node) : Bool :=
  n.isUnder "condition" || n.isUnder "expression" || n.isUnder "sensitivity" ||
    n.kind == .sensitivityList

theorem collectAll_append (kind : Kind) (ns ms : List Node) :
    collectAll kind (ns ++ ms) = collectAll kind ns ++ collectAll kind ms := by
  induction ns with
  | nil => rfl
  | cons n ns ih => rw [List.cons_append, collectAll, collectAll, ih, List.append_assoc]

theorem localNodesAmong_append (ns ms : List Node) :
    localNodesAmong (ns ++ ms) = localNodesAmong ns ++ localNodesAmong ms := by
  simp only [localNodesAmong_eq_flatMap, List.flatMap_append]

end Node

open Node

/-! ## Rows seen from outside -/

/-- Two declarations or loops that bring the same locals into a process. -/
inductive SameLocal : Node → Node → Prop
  | refl (d : Node) : SameLocal d d
  | loop {d e : Node} (hd : d.kind = .loopStatement) (he : e.kind = .loopStatement)
    (h : d.loopParameter? = e.loopParameter?) : SameLocal d e

/-- Two alternatives of a case statement with the same choices, whose statements do the same. -/
structure SameAlternative (a b : Node) : Prop where
  choiceTexts : a.choices.flatMap choiceTexts = b.choices.flatMap choiceTexts
  coversOthers : a.choices.any coversOthers = b.choices.any coversOthers
  same_activity : ∀ s ctx, a.alternativeStatements.map (activity s ctx) =
    b.alternativeStatements.map (activity s ctx)

/-- Two rows that look the same from outside. -/
structure SameRow (ns ms : List Node) : Prop where
  first : ns.head?.map (fun n => (n.start, n.row)) = ms.head?.map fun n => (n.start, n.row)
  last : ns.getLast?.map Node.stop = ms.getLast?.map Node.stop
  others : (subtrees ns).any (·.kind == .others) = (subtrees ms).any (·.kind == .others)
  /-- A loop that has the row in it goes on in the same way. -/
  parameter : ∀ seen rest,
    forParameter? seen (subtrees ns ++ rest) = forParameter? seen (subtrees ms ++ rest)
  locals : List.Forall₂ SameLocal (localNodesAmong ns) (localNodesAmong ms)
  alternatives : List.Forall₂ SameAlternative
    (collectAll .caseAlternative ns) (collectAll .caseAlternative ms)

namespace SameRow

theorem refl (ns : List Node) : SameRow ns ns where
  first := rfl
  last := rfl
  others := rfl
  parameter := fun _ _ => rfl
  locals := List.forall₂_same.2 fun d _ => .refl d
  alternatives := List.forall₂_same.2 fun _ _ => ⟨rfl, rfl, fun _ _ => rfl⟩

theorem append {ns ms ns' ms' : List Node} (h : SameRow ns ms) (h' : SameRow ns' ms') :
    SameRow (ns ++ ns') (ms ++ ms') where
  first := by
    rw [List.head?_append, List.head?_append, Option.map_or, Option.map_or, h.first, h'.first]
  last := by
    rw [List.getLast?_append, List.getLast?_append, Option.map_or, Option.map_or, h.last, h'.last]
  others := by
    rw [subtrees_append, subtrees_append, List.any_append, List.any_append, h.others, h'.others]
  parameter := fun seen rest => by
    rw [subtrees_append, subtrees_append, List.append_assoc, List.append_assoc, h.parameter]
    -- The second row comes after the first one, whatever that has told.
    have hsecond : ∀ front seen, forParameter? seen (front ++ (subtrees ns' ++ rest)) =
        forParameter? seen (front ++ (subtrees ms' ++ rest)) := by
      intro front
      induction front with
      | nil => exact fun seen => h'.parameter seen rest
      | cons n front ih =>
        intro seen
        simp only [List.cons_append, forParameter?, ih]
    exact hsecond _ seen
  locals := by
    rw [localNodesAmong_append, localNodesAmong_append]
    exact List.rel_append h.locals h'.locals
  alternatives := by
    rw [collectAll_append, collectAll_append]
    exact List.rel_append h.alternatives h'.alternatives

theorem of_forall₂ {ns ms : List Node} (h : List.Forall₂ (fun n m => SameRow [n] [m]) ns ms) :
    SameRow ns ms := by
  induction h with
  | nil => exact refl []
  | cons hnm _ ih => exact hnm.append ih

/-- Nodes that agree in all but their parts are the same as rows if their parts are. A loop tells
its parameter and an alternative its choices, so these have to be given. -/
theorem node {n m : Node} (hbare : n.bare = m.bare) (hrow : SameRow n.children m.children)
    (hdeclares : n.declaresLocals = false)
    (hloop : n.kind = .loopStatement → n.loopParameter? = m.loopParameter?)
    (halternative : n.kind = .caseAlternative → SameAlternative n m) : SameRow [n] [m] := by
  have hkind : n.kind = m.kind := eq_of_bare Node.kind (fun _ => rfl) hbare
  have hnamed : n.named = m.named := eq_of_bare Node.named (fun _ => rfl) hbare
  have htoken : ∀ word, n.isToken word = m.isToken word := fun word =>
    eq_of_bare (Node.isToken · word) (fun _ => rfl) hbare
  have htrimmed : n.trimmed = m.trimmed := eq_of_bare Node.trimmed (fun _ => rfl) hbare
  constructor
  · exact eq_of_bare (fun n => some (n.start, n.row)) (fun _ => rfl) hbare
  · exact eq_of_bare (fun n => some n.stop) (fun _ => rfl) hbare
  · simp only [subtrees, List.append_nil, n.subtree_eq, m.subtree_eq, List.any_cons, hkind,
      hrow.others]
  · intro seen rest
    simp only [subtrees, List.append_nil, n.subtree_eq, m.subtree_eq, List.cons_append,
      forParameter?, hkind, htoken, htrimmed, hrow.parameter]
  · have hlocals : List.Forall₂ SameLocal n.localNodes m.localNodes := by
      rw [localNodes_eq, localNodes_eq]
      exact hrow.locals
    -- The node declares nothing itself. A loop is kept for its parameter, and all other locals come
    -- from the parts.
    have hdeclares' : m.declaresLocals = false := by
      rw [← hdeclares, declaresLocals, declaresLocals, hkind]
    have hsubprogram : n.isSubprogram = m.isSubprogram := by
      rw [isSubprogram, isSubprogram, hkind]
    simp only [localNodesAmong, List.append_nil, hdeclares, hdeclares', hnamed, hsubprogram, hkind]
    split
    · exact .nil
    · rw [if_neg Bool.false_ne_true, if_neg Bool.false_ne_true]
      split
      · rename_i hm
        have hm : m.kind = .loopStatement := beq_iff_eq.1 hm
        have hn : n.kind = .loopStatement := hkind.trans hm
        exact .cons (.loop hn hm (hloop hn)) hlocals
      · exact hlocals
  · have halternatives : List.Forall₂ SameAlternative (collect .caseAlternative n)
        (collect .caseAlternative m) := by
      rw [collect_eq, collect_eq]
      exact hrow.alternatives
    simp only [collectAll, List.append_nil, hnamed, hkind]
    split
    · exact .nil
    · split
      · rename_i hm
        exact .cons (halternative (hkind.trans (beq_iff_eq.1 hm))) .nil
      · exact halternatives

end SameRow

/-! ## Alike nodes -/

/-- Two nodes that a process cannot tell apart. -/
structure Alike (n m : Node) : Prop where
  bare : n.bare = m.bare
  row : SameRow [n] [m]
  same_activity : ∀ s ctx, activity s ctx n = activity s ctx m
  eq_of_isLookedInto : n.isLookedInto = true → n = m

namespace Alike

variable {n m : Node}

theorem refl (n : Node) : Alike n n := ⟨rfl, .refl [n], fun _ _ => rfl, fun _ => rfl⟩

theorem kind_eq (h : Alike n m) : n.kind = m.kind := eq_of_bare Node.kind (fun _ => rfl) h.bare

theorem named_eq (h : Alike n m) : n.named = m.named := eq_of_bare Node.named (fun _ => rfl) h.bare

theorem text_eq (h : Alike n m) : n.text = m.text := eq_of_bare Node.text (fun _ => rfl) h.bare

theorem isUnder_eq (h : Alike n m) (field : String) : n.isUnder field = m.isUnder field :=
  eq_of_bare (Node.isUnder · field) (fun _ => rfl) h.bare

theorem isToken_eq (h : Alike n m) (word : String) : n.isToken word = m.isToken word :=
  eq_of_bare (Node.isToken · word) (fun _ => rfl) h.bare

theorem isComment_eq (h : Alike n m) : n.isComment = m.isComment :=
  eq_of_bare Node.isComment (fun _ => rfl) h.bare

theorem coversOthers_eq (h : Alike n m) : n.coversOthers = m.coversOthers := by
  have hothers := h.row.others
  simp only [subtrees, List.append_nil] at hothers
  simp only [coversOthers, choiceTexts, h.text_eq, hothers]

end Alike

theorem SameRow.of_alike {ns ms : List Node} (h : List.Forall₂ Alike ns ms) : SameRow ns ms :=
  .of_forall₂ (h.imp fun _ _ hnm => hnm.row)

section Parts

variable {n m : Node} (h : List.Forall₂ Alike n.children m.children)

include h

theorem rel_childUnder (field : String) :
    Option.Rel Alike (n.childUnder field) (m.childUnder field) :=
  rel_find? (fun _ _ hcd => hcd.isUnder_eq field) h

theorem map_trimmed_childUnder (field : String) :
    (n.childUnder field).map trimmed = (m.childUnder field).map trimmed := by
  have hrel := rel_childUnder h field
  revert hrel
  cases n.childUnder field <;> cases m.childUnder field <;> intro hrel <;> cases hrel
  · rfl
  · rename_i hnm
    exact congrArg (fun t => some (trim t)) hnm.text_eq

/-- A search for nodes that are looked into finds equal nodes. -/
theorem find?_eq {p : Node → Bool} (hp : ∀ c d, Alike c d → p c = p d)
    (hlooked : ∀ n, p n = true → n.isLookedInto = true) :
    n.children.find? p = m.children.find? p := by
  have hrel := rel_find? hp h
  revert hrel
  cases hn : n.children.find? p <;> cases m.children.find? p <;> intro hrel <;> cases hrel
  · rfl
  · rename_i hnm
    rw [hnm.eq_of_isLookedInto (hlooked _ (List.find?_some hn))]

theorem loopParameter?_eq : n.loopParameter? = m.loopParameter? := by
  have hparameter := map_trimmed_childUnder h "parameter"
  have hnames := (SameRow.of_alike h).parameter false []
  rw [List.append_nil, List.append_nil] at hnames
  unfold loopParameter?
  revert hparameter
  cases n.childUnder "parameter" <;> cases m.childUnder "parameter" <;> intro hparameter
  · exact hnames
  · cases hparameter
  · cases hparameter
  · exact hparameter

theorem sameAlternative : SameAlternative n m := by
  -- Both nodes are cut at the same arrow, so choices and statements come from alike halves.
  have haround : List.Forall₂ Alike n.aroundArrow.1 m.aroundArrow.1 ∧
      List.Forall₂ Alike n.aroundArrow.2 m.aroundArrow.2 := by
    have hrel := rel_splitAt? (fun _ _ hcd => hcd.isToken_eq "=>") h
    unfold aroundArrow
    revert hrel
    cases splitAt? (·.isToken "=>") n.children <;>
      cases splitAt? (·.isToken "=>") m.children <;> intro hrel <;> cases hrel
    · exact ⟨.nil, h⟩
    · rename_i hsides
      exact hsides
  have hmarked : ∀ c d, Alike c d → c.isMarkedChoice = d.isMarkedChoice := fun c d hcd =>
    eq_of_bare isMarkedChoice (fun _ => rfl) hcd.bare
  have hconstruct : ∀ c d, Alike c d →
      (c.named && !c.isComment) = (d.named && !d.isComment) := fun c d hcd => by
    rw [hcd.named_eq, hcd.isComment_eq]
  have hchoices : List.Forall₂ Alike n.choices m.choices :=
    forall₂_filter hconstruct (List.rel_append haround.1 (forall₂_filter hmarked haround.2))
  have hstatements : List.Forall₂ Alike n.alternativeStatements m.alternativeStatements :=
    forall₂_filter (fun c d hcd => by rw [hconstruct c d hcd, hmarked c d hcd]) haround.2
  constructor
  · have htexts : ∀ c d, Alike c d → c.choiceTexts = d.choiceTexts := fun c d hcd =>
      congrArg (fun t => (splitTopLevel '|' t).map squash) hcd.text_eq
    rw [List.flatMap_def, List.flatMap_def, map_eq_of_forall₂ htexts hchoices]
  · have hothers : ∀ l : List Node, l.any coversOthers = (l.map coversOthers).any id := by
      simp
    rw [hothers, hothers, map_eq_of_forall₂ (fun _ _ hcd => hcd.coversOthers_eq) hchoices]
  · exact fun s ctx => map_eq_of_forall₂ (fun _ _ hcd => hcd.same_activity s ctx) hstatements

theorem map_activity_containedStatements (s : ProcessSetting) (ctx : BranchContext) :
    n.containedStatements.map (activity s ctx) = m.containedStatements.map (activity s ctx) := by
  have hbefore := forall₂_takeWhile (p := fun c => !c.isToken "end")
    (fun _ _ hcd => by rw [hcd.isToken_eq]) h
  have hcontained : List.Forall₂ Alike n.containedStatements m.containedStatements :=
    forall₂_filter (fun _ _ hcd => by rw [hcd.named_eq, hcd.isUnder_eq]) hbefore
  exact map_eq_of_forall₂ (fun _ _ hcd => hcd.same_activity s ctx) hcontained

end Parts

namespace Alike

variable {n m : Node}

/-- Nodes with alike parts are the same as rows. -/
theorem row_of_children (hbare : n.bare = m.bare) (h : List.Forall₂ Alike n.children m.children)
    (hdeclares : n.declaresLocals = false) : SameRow [n] [m] :=
  .node hbare (.of_alike h) hdeclares (fun _ => loopParameter?_eq h) fun _ => sameAlternative h

/-- Containers with alike parts are alike. -/
theorem container (hbare : n.bare = m.bare) (h : List.Forall₂ Alike n.children m.children)
    (hform : StatementForm.ofKind n.kind = .container) (hlooked : n.isLookedInto = false) :
    Alike n m where
  bare := hbare
  row := by
    refine row_of_children hbare h ?_
    simp only [declaresLocals, Bool.or_eq_false_iff, beq_eq_false_iff_ne]
    constructor <;> intro hkind <;> rw [hkind] at hform <;> cases hform
  same_activity := fun s ctx => by
    have hform' : StatementForm.ofKind m.kind = .container := by
      rw [← hform]
      exact eq_of_bare (fun n => StatementForm.ofKind n.kind) (fun _ => rfl) hbare.symm
    rw [activity_eq, activity_eq, steps, steps, hform, hform']
    simp only [List.map_cons, List.map_nil, map_activity_containedStatements h]
  eq_of_isLookedInto := fun hn => by rw [hlooked] at hn; cases hn

/-- Subprograms with alike parts are alike: they are not walked. -/
theorem subprogram (hbare : n.bare = m.bare) (h : List.Forall₂ Alike n.children m.children)
    (hsubprogram : n.isSubprogram = true) (hlooked : n.isLookedInto = false) : Alike n m := by
  have hkind : n.kind = m.kind := eq_of_bare Node.kind (fun _ => rfl) hbare
  have hkinds : n.kind = .functionDeclaration ∨ n.kind = .procedureDeclaration := by
    simpa [isSubprogram] using hsubprogram
  refine ⟨hbare, row_of_children hbare h ?_, fun s ctx => ?_, fun hn => ?_⟩
  · rcases hkinds with hk | hk <;> simp [declaresLocals, hk]
  · have hsilent : StatementForm.ofKind n.kind = .silent := by
      rcases hkinds with hk | hk <;> rw [hk] <;> rfl
    rw [activity_eq, activity_eq, steps, steps, ← hkind, hsilent]
  · rw [hlooked] at hn
    cases hn

/-- Case statements with alike parts and the same expression are alike. -/
theorem choice (hbare : n.bare = m.bare) (h : List.Forall₂ Alike n.children m.children)
    (hkind : n.kind = .caseStatement) (hexpression : n.caseExpression? = m.caseExpression?)
    (hlooked : n.isLookedInto = false) : Alike n m := by
  have hkind' : m.kind = .caseStatement := by
    rw [← hkind]
    exact eq_of_bare Node.kind (fun _ => rfl) hbare.symm
  refine ⟨hbare, row_of_children hbare h (by simp [declaresLocals, hkind]), fun s ctx => ?_,
    fun hn => ?_⟩
  · have halternatives : List.Forall₂ SameAlternative n.alternatives m.alternatives := by
      unfold Node.alternatives
      rw [collect_eq, collect_eq]
      exact (SameRow.of_alike h).alternatives
    -- What is reported of the choices is read alternative by alternative.
    have htexts : (n.alternatives.flatMap Node.choices).flatMap Node.choiceTexts =
        (m.alternatives.flatMap Node.choices).flatMap Node.choiceTexts := by
      rw [List.flatMap_assoc, List.flatMap_assoc, List.flatMap_def, List.flatMap_def,
        map_eq_of_forall₂ (fun _ _ hab => hab.choiceTexts) halternatives]
    have hothers : (n.alternatives.flatMap Node.choices).any Node.coversOthers =
        (m.alternatives.flatMap Node.choices).any Node.coversOthers := by
      have hany : ∀ l : List Node, (l.flatMap Node.choices).any Node.coversOthers =
          (l.map fun a => a.choices.any Node.coversOthers).any id := by
        simp [List.any_flatMap]
      rw [hany, hany, map_eq_of_forall₂ (fun _ _ hab => hab.coversOthers) halternatives]
    have hstatements : (n.alternatives.flatMap Node.alternativeStatements).map (activity s ctx) =
        (m.alternatives.flatMap Node.alternativeStatements).map (activity s ctx) := by
      rw [List.map_flatMap, List.map_flatMap, List.flatMap_def, List.flatMap_def,
        map_eq_of_forall₂ (fun _ _ hab => hab.same_activity s ctx) halternatives]
    have hline : n.line = m.line := eq_of_bare Node.line (fun _ => rfl) hbare
    have hfar : n.isFar = m.isFar := eq_of_bare Node.isFar (fun _ => rfl) hbare
    rw [activity_eq, activity_eq, steps, steps, hkind, hkind']
    simp only [StatementForm.ofKind, caseStep, caseStatement, List.map_cons, List.map_nil,
      hexpression, htexts, hothers, hstatements, hline, hfar]
  · rw [hlooked] at hn
    cases hn

end Alike

/-! ## Processes -/

theorem SameLocal.ownLocalNames_eq {d e : Node} (h : SameLocal d e) :
    d.ownLocalNames = e.ownLocalNames := by
  cases h with
  | refl => rfl
  | loop hd he h => simp [ownLocalNames, declaresLocals, hd, he, h]

/-- Locals that declare variables are equal. -/
theorem SameLocal.eq_or_loop {d e : Node} (h : SameLocal d e) :
    d = e ∨ d.declaresLocals = false ∧ e.declaresLocals = false := by
  cases h with
  | refl => exact .inl rfl
  | loop hd he _ => exact .inr ⟨by simp [declaresLocals, hd], by simp [declaresLocals, he]⟩

section Process

variable {n m : Node} (h : List.Forall₂ Alike n.children m.children)

include h

theorem sameLocal_localNodes : List.Forall₂ SameLocal n.localNodes m.localNodes := by
  rw [localNodes_eq, localNodes_eq]
  exact (SameRow.of_alike h).locals

theorem localNames_eq : n.localNames = m.localNames := by
  rw [localNames, localNames, List.flatMap_def, List.flatMap_def,
    map_eq_of_forall₂ (fun _ _ hde => hde.ownLocalNames_eq) (sameLocal_localNodes h)]

theorem declarations_eq :
    n.localNodes.filter declaresLocals = m.localNodes.filter declaresLocals := by
  have hlocals := sameLocal_localNodes h
  generalize n.localNodes = ds at hlocals ⊢
  generalize m.localNodes = es at hlocals ⊢
  induction hlocals with
  | nil => rfl
  | cons hde _ ih =>
    rcases hde.eq_or_loop with rfl | ⟨hd, he⟩
    · rw [List.filter_cons, List.filter_cons, ih]
    · rw [List.filter_cons_of_neg (by simp [hd]), List.filter_cons_of_neg (by simp [he]), ih]

theorem localVariables_eq : n.localVariables = m.localVariables := by
  have hfilter : ∀ ds : List Node, ds.filter (·.kind == .variableDeclaration) =
      (ds.filter declaresLocals).filter (·.kind == .variableDeclaration) := by
    intro ds
    rw [List.filter_filter]
    refine List.filter_congr fun d _ => ?_
    by_cases hd : d.kind = .variableDeclaration <;> simp [hd, declaresLocals]
  rw [localVariables, localVariables, hfilter n.localNodes, hfilter m.localNodes,
    declarations_eq h]

theorem localsAreFar_eq : n.localsAreFar = m.localsAreFar := by
  have hany : ∀ n : Node, n.localsAreFar =
      (n.localNodes.filter declaresLocals).any ObjectDeclaration.needsFarLine := by
    intro n
    rw [localsAreFar, List.any_filter]
  rw [hany, hany, declarations_eq h]

theorem sensitivity_eq : n.sensitivity = m.sensitivity := by
  have hunder : n.childUnder "sensitivity" = m.childUnder "sensitivity" :=
    find?_eq h (fun _ _ hcd => hcd.isUnder_eq _) fun c hc => by simp [isLookedInto, hc]
  have hkind : n.childOfKind .sensitivityList = m.childOfKind .sensitivityList := by
    simp only [childOfKind, namedChildren, List.find?_filter]
    refine find?_eq h (fun _ _ hcd => by rw [hcd.named_eq, hcd.kind_eq]) fun c hc => ?_
    simp only [decide_eq_true_eq, beq_iff_eq] at hc
    simp [isLookedInto, hc.2]
  rw [sensitivity, sensitivity, hunder, hkind]

theorem label?_eq : n.label? = m.label? := by
  have htrimmed := map_trimmed_childUnder h "label"
  have hmap : ∀ c : Option Node, (c.map fun c => trim (dropEnd (· == ':') c.trimmed)) =
      (c.map trimmed).map fun t => trim (dropEnd (· == ':') t) := by
    intro c
    cases c <;> rfl
  rw [label?, label?, hmap, hmap, htrimmed]

/-- **Processes whose parts are alike one by one have the same facts.** -/
theorem processHarvest_congr (hbare : n.bare = m.bare) (config : Config) (L : Lookup)
    (scope : Scope) : processHarvest config L scope n = processHarvest config L scope m := by
  have hsetting : processSetting config L scope n = processSetting config L scope m := by
    rw [processSetting, processSetting, localNames_eq h, label?_eq h]
  have hactivity : processActivity config L scope n = processActivity config L scope m := by
    rw [processActivity, processActivity, hsetting, map_activity_containedStatements h]
  have hline : n.line = m.line := eq_of_bare Node.line (fun _ => rfl) hbare
  have hfar : n.isFar = m.isFar := eq_of_bare Node.isFar (fun _ => rfl) hbare
  have hprocess : ∀ a, processOf scope n a = processOf scope m a := by
    intro a
    rw [processOf, processOf, label?_eq h, sensitivity_eq h, localVariables_eq h, hline]
  rw [processHarvest, processHarvest, hactivity, hprocess, hfar, localsAreFar_eq h]

end Process

end DesignFacts

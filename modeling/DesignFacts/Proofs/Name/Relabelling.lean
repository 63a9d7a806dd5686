import DesignFacts.Proofs.Name.Path
import DesignFacts.Proofs.Tree.Row

/-!
# Expressions with other labels in them

Some nodes of an expression only say where a value goes or what type it has: the formals and choices
of associations, and the type marks of qualified expressions. This file says when two expressions
are the same apart from such nodes, and shows that their names are then the same.

**Replacing labels** (`Node.Relabels`). Labels may be replaced by any nodes, at any depth and at
many places at once. What is replaced lies before the arrow of an association, beside its marked
value, or under `type_mark`. All other nodes stay (`Node.Stays`), though their texts may change with
what is in them.

**Marked trees** (`Node.isMarked`). If the parts of names are not marked by fields, a name may be
read off its text, which has labels in it. So the parts of names have to be marked.

Main result: the spine of a name has no labels on it, so a name keeps its root, its path and its
flags (`Node.MarkedName.relabels`).
-/

namespace DesignFacts

open Text

namespace Node

/-! ## Replacing labels -/

/-- Whether a node is a pair of a label and a value. -/
def isAssociation (n : Node) : Bool :=
  n.kind == .elementAssociation || n.kind == .associationElement

/-- Whether a node is marked as the value of an association. -/
def isMarkedValue (n : Node) : Bool := n.isUnder "value" || n.isUnder "actual"

/-- A node stays, with other parts in it. Its text may change with them, but a leaf keeps its text,
and the node is an arrow if it was one. -/
structure Stays (n m : Node) : Prop where
  tag_eq : m.tag = n.tag
  named_eq : m.named = n.named
  field_eq : m.field = n.field
  arrow_eq : m.isToken "=>" = n.isToken "=>"
  text_eq : n.children = [] → m.text = n.text

/-- Rows of nodes that are related one by one, apart from those that are not marked as values, which
may be any nodes under the same fields. -/
inductive ValueRow (R : Node → Node → Prop) : List Node → List Node → Prop
  | nil : ValueRow R [] []
  | related {c d : Node} {cs ds : List Node} (h : R c d) (hrest : ValueRow R cs ds) :
      ValueRow R (c :: cs) (d :: ds)
  | label {c d : Node} {cs ds : List Node} (hc : c.isMarkedValue = false)
      (hfield : d.field = c.field) (hrest : ValueRow R cs ds) : ValueRow R (c :: cs) (d :: ds)

/-- The second node is the first one with other labels and type marks in it, at any depth. -/
inductive Relabels : Node → Node → Prop
  /-- The node itself has no label, or keeps it. -/
  | parts {n m : Node} (hstays : n.Stays m) (hparts : List.Forall₂ Relabels n.children m.children) :
      Relabels n m
  /-- What stands before the arrow of an association without a marked value is replaced. -/
  | beforeArrow {n m arrow arrow' : Node} {before after before' after' : List Node}
      (hstays : n.Stays m) (hkind : n.isAssociation = true)
      (hvalue : ∀ c ∈ n.children, c.isMarkedValue = false)
      (hn : n.children = before ++ arrow :: after) (hm : m.children = before' ++ arrow' :: after')
      (hbefore : ∀ c ∈ before, c.isToken "=>" = false)
      (hbefore' : ∀ c ∈ before', c.isToken "=>" = false ∧ c.isMarkedValue = false)
      (harrow : arrow.isToken "=>" = true) (harrows : Relabels arrow arrow')
      (hafter : List.Forall₂ Relabels after after') : Relabels n m
  /-- Beside the marked value of an association, any nodes are replaced. -/
  | besideValue {n m : Node} (hstays : n.Stays m) (hkind : n.isAssociation = true)
      (hvalue : ∃ c ∈ n.children, c.isMarkedValue = true)
      (hparts : ValueRow Relabels n.children m.children) : Relabels n m
  /-- The type mark of a qualified expression is replaced. -/
  | typeMark {n m mark mark' : Node} {before after before' after' : List Node}
      (hstays : n.Stays m) (hkind : n.kind = .qualifiedExpression)
      (hn : n.children = before ++ mark :: after) (hm : m.children = before' ++ mark' :: after')
      (hfirst : ∀ c ∈ before, c.isUnder "type_mark" = false)
      (hmark : mark.isUnder "type_mark" = true) (hmark' : mark'.isUnder "type_mark" = true)
      (hbefore : List.Forall₂ Relabels before before')
      (hafter : List.Forall₂ Relabels after after') : Relabels n m

namespace Stays

variable {n m : Node} (h : n.Stays m)

include h

theorem kind_eq : m.kind = n.kind := by rw [kind, kind, h.named_eq, h.tag_eq]

theorem isUnder_eq (field : String) : m.isUnder field = n.isUnder field := by
  rw [isUnder, isUnder, h.field_eq]

theorem isComment_eq : m.isComment = n.isComment := by rw [isComment, isComment, h.kind_eq]

theorem isArgumentList_eq : m.isArgumentList = n.isArgumentList := by
  rw [isArgumentList, isArgumentList, h.kind_eq, h.tag_eq]

end Stays

namespace Relabels

variable {n m : Node}

theorem stays (h : n.Relabels m) : n.Stays m := by
  cases h with
  | parts hstays => exact hstays
  | beforeArrow hstays => exact hstays
  | besideValue hstays => exact hstays
  | typeMark hstays => exact hstays

theorem refl (n : Node) : n.Relabels n := by
  refine .parts ⟨rfl, rfl, rfl, rfl, fun _ => rfl⟩ (List.forall₂_same.2 ?_)
  intro c hc
  have hlt := sizeOf_lt_of_mem_children hc
  exact refl c
termination_by sizeOf n

/-- What is neither an association nor a qualified expression has no labels. -/
theorem forall₂_children (h : n.Relabels m) (hassociation : n.isAssociation = false)
    (hqualified : n.kind ≠ .qualifiedExpression) :
    List.Forall₂ Relabels n.children m.children := by
  cases h with
  | parts _ hparts => exact hparts
  | beforeArrow _ hkind => rw [hassociation] at hkind; cases hkind
  | besideValue _ hkind => rw [hassociation] at hkind; cases hkind
  | typeMark _ hkind => exact absurd hkind hqualified

theorem forall₂_children_of_isName (h : n.Relabels m) (hname : n.kind.isName = true) :
    List.Forall₂ Relabels n.children m.children := by
  apply h.forall₂_children
  · revert hname
    unfold isAssociation
    cases n.kind <;> decide
  · intro hkind
    rw [hkind] at hname
    cases hname

end Relabels

/-! ## Parts of names -/

section Parts

variable {n m : Node} (h : List.Forall₂ Relabels n.children m.children)

include h

theorem rel_childUnder (field : String) :
    Option.Rel Relabels (n.childUnder field) (m.childUnder field) :=
  rel_find? (fun _ _ h => (h.stays.isUnder_eq field).symm) h

theorem exists_childUnder {field : String} {c : Node} (hc : n.childUnder field = some c) :
    ∃ d, m.childUnder field = some d ∧ c.Relabels d := by
  have hrel := rel_childUnder h field
  rw [hc] at hrel
  cases hd : m.childUnder field with
  | none => rw [hd] at hrel; cases hrel
  | some d =>
    rw [hd] at hrel
    cases hrel with
    | some hcd => exact ⟨d, rfl, hcd⟩

theorem forall₂_namedChildren : List.Forall₂ Relabels n.namedChildren m.namedChildren :=
  forall₂_filter (fun _ _ h => h.stays.named_eq.symm) h

theorem headIndex?_eq : n.headIndex? = m.headIndex? := by
  have hunder (field : String) :
      n.children.findIdx? (·.isUnder field) = m.children.findIdx? (·.isUnder field) :=
    findIdx?_eq_of_forall₂ (fun _ _ h => (h.stays.isUnder_eq field).symm) h
  have hnamed : n.children.findIdx? (·.named) = m.children.findIdx? (·.named) :=
    findIdx?_eq_of_forall₂ (fun _ _ h => h.stays.named_eq.symm) h
  rw [headIndex?, headIndex?, hunder, hunder, hnamed]

theorem forall₂_ownArguments : List.Forall₂ Relabels n.ownArguments m.ownArguments := by
  have hbeside : List.Forall₂ Relabels n.besideHead m.besideHead := by
    rw [besideHead, besideHead, headIndex?_eq h]
    apply forall₂_filter
    · intro c d hcd
      rw [hcd.stays.isComment_eq]
    · apply forall₂_filter_zipIdx _ h
      intro c d i hcd
      exact congrArg (· && m.headIndex? != some i) hcd.stays.named_eq.symm
  apply List.rel_flatMap hbeside
  intro c d hcd
  show List.Forall₂ Relabels (if c.isArgumentList then c.namedChildren else [c])
    (if d.isArgumentList then d.namedChildren else [d])
  rw [hcd.stays.isArgumentList_eq]
  by_cases hlist : c.isArgumentList = true
  · have hkind : c.kind = .other := beq_iff_eq.1 (Bool.and_eq_true_iff.1 hlist).1
    rw [if_pos hlist, if_pos hlist]
    apply forall₂_namedChildren
    exact hcd.forall₂_children (by rw [isAssociation, hkind]; rfl) (by rw [hkind]; decide)
  · rw [if_neg hlist, if_neg hlist]
    exact .cons hcd .nil

end Parts

/-! ## Trees with marked parts -/

/-- Whether a name has the parts that its kind asks for, each under its field, and an identifier is
a leaf. -/
def hasMarkedParts (n : Node) : Bool :=
  match n.kind with
  | .identifier => n.children.isEmpty
  | .selectedName =>
    (n.childUnder "prefix").any (·.kind.isName) &&
      (n.childUnder "suffix").any (·.kind == .identifier)
  | .indexedName | .sliceName | .functionCall | .attributeName =>
    (n.childUnder "prefix").any (·.kind.isName)
  | _ => true

/-- Whether all names in a tree have marked parts. -/
def isMarked (n : Node) : Bool := n.subtree.all hasMarkedParts

theorem hasMarkedParts_of_isMarked {n : Node} (hn : n.isMarked = true) : n.hasMarkedParts = true :=
  List.all_eq_true.1 hn n n.mem_subtree_self

theorem isMarked_of_mem_subtree {n m : Node} (hn : n.isMarked = true) (hm : m ∈ n.subtree) :
    m.isMarked = true :=
  all_subtree_of_mem_subtree hn hm

theorem isMarked_of_childUnder {n c : Node} {field : String} (hn : n.isMarked = true)
    (hc : n.childUnder field = some c) : c.isMarked = true :=
  isMarked_of_mem_subtree hn
    (mem_subtree_of_mem_children (mem_children_of_childUnder hc) c.mem_subtree_self)

theorem children_of_isMarked {n : Node} (hn : n.isMarked = true) (hkind : n.kind = .identifier) :
    n.children = [] := by
  have hparts := hasMarkedParts_of_isMarked hn
  rw [hasMarkedParts, hkind] at hparts
  exact List.isEmpty_iff.1 hparts

/-- A name in such a tree has marked parts all along its spine. -/
theorem markedName_of_isMarked (n : Node) (hn : n.isMarked = true) (hname : n.kind.isName = true) :
    n.MarkedName := by
  have hparts := hasMarkedParts_of_isMarked hn
  -- The head is a name in the tree again.
  have hhead : (n.childUnder "prefix").any (·.kind.isName) = true →
      ∃ h, n.childUnder "prefix" = some h ∧ h.MarkedName := by
    intro hany
    obtain ⟨h, hh, hname⟩ := (Option.any_eq_true _ _).1 hany
    have hlt := sizeOf_lt_of_mem_children (mem_children_of_childUnder hh)
    exact ⟨h, hh, markedName_of_isMarked h (isMarked_of_childUnder hn hh) hname⟩
  by_cases hidentifier : n.kind = .identifier
  · exact .identifier hidentifier
  rcases kind_of_isApplied (isApplied_of_isName hname hidentifier) with hkind | hkind | hkind
  · rw [hasMarkedParts, hkind] at hparts
    obtain ⟨hany, hsuffix⟩ := Bool.and_eq_true_iff.1 hparts
    obtain ⟨h, hh, hmarked⟩ := hhead hany
    obtain ⟨s, hs, hsuffix⟩ := (Option.any_eq_true _ _).1 hsuffix
    exact .selection hkind hh hs (beq_iff_eq.1 hsuffix) hmarked
  · have hany : (n.childUnder "prefix").any (·.kind.isName) = true := by
      revert hparts hkind
      unfold hasMarkedParts
      cases n.kind <;> intro hparts hkind <;> first | exact hparts | cases hkind
    obtain ⟨h, hh, hmarked⟩ := hhead hany
    exact .arguments hkind hh hmarked
  · rw [hasMarkedParts, hkind] at hparts
    obtain ⟨h, hh, hmarked⟩ := hhead hparts
    exact .attr hkind hh hmarked
termination_by sizeOf n

end Node

/-! ## Resolving -/

/-- Two resolved names with the same root, path and flags. -/
structure ResolvedName.SameName (r s : ResolvedName) : Prop where
  base_eq : r.base = s.base
  path_eq : r.path = s.path
  isIndexed_eq : r.isIndexed = s.isIndexed
  isAttribute_eq : r.isAttribute = s.isAttribute

theorem ResolvedName.SameName.classify_eq {r s : ResolvedName} (h : r.SameName s) (L : Lookup) :
    classify L r = classify L s := by
  rw [classify, classify, lastSegment, lastSegment, h.base_eq, h.path_eq, h.isIndexed_eq,
    h.isAttribute_eq]

namespace Node

theorem trimmed_of_relabels {n m : Node} (hn : n.isMarked = true) (hkind : n.kind = .identifier)
    (h : n.Relabels m) : m.trimmed = n.trimmed := by
  rw [trimmed, trimmed, h.stays.text_eq (children_of_isMarked hn hkind)]

/-- With other labels in it, a name keeps its root, its path and its flags, and its arguments have
other labels in them. The induction is along the spine, where no labels are. -/
theorem MarkedName.relabels {n m : Node} (hmarked : n.MarkedName) (hn : n.isMarked = true)
    (hnm : n.Relabels m) :
    m.MarkedName ∧ List.Forall₂ Relabels n.arguments m.arguments ∧
      ∃ r s, resolveSpine n = some r ∧ resolveSpine m = some s ∧ r.SameName s := by
  have hparts := hnm.forall₂_children_of_isName hmarked.isName
  have hkind' := hnm.stays.kind_eq
  induction hmarked generalizing m with
  | @identifier n hkind =>
    rw [hkind] at hkind'
    refine ⟨.identifier hkind', ?_, _, _, resolveSpine_of_identifier hkind,
      resolveSpine_of_identifier hkind', ?_⟩
    · rw [arguments_eq, arguments_eq, hkind, hkind']
      exact .nil
    · rw [trimmed_of_relabels hn hkind hnm]
      exact ⟨rfl, rfl, rfl, rfl⟩
  | @selection n h s hkind hh hs hsuffix hhead ih =>
    rw [hkind] at hkind'
    obtain ⟨h', hh', hhrel⟩ := exists_childUnder hparts hh
    obtain ⟨s', hs', hsrel⟩ := exists_childUnder hparts hs
    obtain ⟨hhead', hargs, r, t, hr, ht, hsame⟩ := ih (isMarked_of_childUnder hn hh) hhrel
      (hhrel.forall₂_children_of_isName hhead.isName) hhrel.stays.kind_eq
    have hsuffix' : s'.kind = .identifier := hsrel.stays.kind_eq.trans hsuffix
    have htrimmed := trimmed_of_relabels (isMarked_of_childUnder hn hs) hsuffix hsrel
    refine ⟨.selection hkind' hh' hs' hsuffix' hhead', ?_, _, _,
      resolveSpine_of_applied (nameView_of_suffix hh hhead.isName hkind hs hsuffix) hr,
      resolveSpine_of_applied (nameView_of_suffix hh' hhead'.isName hkind' hs' hsuffix') ht, ?_⟩
    · rw [arguments_of_selectedName hh hhead.isName hkind,
        arguments_of_selectedName hh' hhead'.isName hkind']
      exact hargs
    · rw [htrimmed]
      exact ⟨hsame.base_eq, congrArg (· ++ '.' :: s.trimmed) hsame.path_eq, hsame.isIndexed_eq,
        hsame.isAttribute_eq⟩
  | @arguments n h hkind hh hhead ih =>
    have hindexed : m.kind.isIndexed = true := hkind' ▸ hkind
    obtain ⟨h', hh', hhrel⟩ := exists_childUnder hparts hh
    obtain ⟨hhead', hargs, r, t, hr, ht, hsame⟩ := ih (isMarked_of_childUnder hn hh) hhrel
      (hhrel.forall₂_children_of_isName hhead.isName) hhrel.stays.kind_eq
    refine ⟨.arguments hindexed hh' hhead', ?_, _, _,
      resolveSpine_of_applied (nameView_of_arguments hh hhead.isName hkind) hr,
      resolveSpine_of_applied (nameView_of_arguments hh' hhead'.isName hindexed) ht, ?_⟩
    · rw [arguments_of_isIndexed hh hhead.isName hkind,
        arguments_of_isIndexed hh' hhead'.isName hindexed]
      exact List.rel_append hargs (forall₂_ownArguments hparts)
    · exact ⟨hsame.base_eq, hsame.path_eq, rfl, hsame.isAttribute_eq⟩
  | @attr n h hkind hh hhead ih =>
    rw [hkind] at hkind'
    obtain ⟨h', hh', hhrel⟩ := exists_childUnder hparts hh
    -- An attribute hides the arguments of its prefix, so what the hypothesis says of them is
    -- dropped.
    obtain ⟨hhead', -, r, t, hr, ht, hsame⟩ := ih (isMarked_of_childUnder hn hh) hhrel
      (hhrel.forall₂_children_of_isName hhead.isName) hhrel.stays.kind_eq
    refine ⟨.attr hkind' hh' hhead', ?_, _, _,
      resolveSpine_of_applied (nameView_of_attributeName hh hhead.isName hkind) hr,
      resolveSpine_of_applied (nameView_of_attributeName hh' hhead'.isName hkind') ht, ?_⟩
    · rw [arguments_eq, arguments_eq, hkind, hkind']
      exact .nil
    · exact ⟨hsame.base_eq, hsame.path_eq, hsame.isIndexed_eq, rfl⟩

theorem resolve_relabels (L : Lookup) {n m : Node} (hn : n.isMarked = true)
    (hname : n.kind.isName = true) (h : n.Relabels m) :
    ∃ r s, resolve L n = some r ∧ resolve L m = some s ∧ r.SameName s := by
  obtain ⟨-, -, r, s, hr, hs, hsame⟩ := (markedName_of_isMarked n hn hname).relabels hn h
  exact ⟨_, _, resolve_of_resolveSpine hr, resolve_of_resolveSpine hs, hsame.base_eq,
    hsame.path_eq, hsame.isIndexed_eq, hsame.isAttribute_eq⟩

end Node

end DesignFacts

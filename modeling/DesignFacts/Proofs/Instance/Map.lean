import DesignFacts.Instance.Basic
import DesignFacts.Proofs.Document.Value
import DesignFacts.Proofs.Extraction.Itinerary
import DesignFacts.Proofs.Name.Read
import DesignFacts.Proofs.Tree.Row

/-!
# Maps of an instance

An instance is reported twice: as the list of its associations, and as one map from formals to
actuals for its ports and one for its generics. This file shows that the two agree with each other
and with the map aspects of the instantiation.

**Associations** (`Association.ReadFrom`). Each element of a map aspect gives one association, and
the elements stand in document order. The positional ones of an aspect are numbered from 0
(`formal_of_positional`).

**Maps** (`Instance.get?_namedMap`). Setting the named associations one after another leaves, for
each formal, the actual of the last one.

**Names** (`IsDottedFrom`). However a name is resolved, its path is its base, or its base and a dot
and more (`isDottedFrom_resolve`).

**Written forms.** Positions, maps and names are those that stand in the written documents, under
the keys of their records.

Main result: `mapsAgree_instanceOf`.
-/

namespace DesignFacts

open Text

/-! ## Associations -/

namespace Formal

def isPositional : Formal → Bool
  | named _ => false
  | positional _ => true

/-- The formal that is named, or no text. -/
def text : Formal → Text
  | named formal => formal
  | positional _ => []

/-- The place among the positional associations, or 0. -/
def index : Formal → Nat
  | named _ => 0
  | positional index => index

end Formal

/-- What an association says about the element that it was read from. -/
structure Association.ReadFrom (L : Lookup) (kind : MapKind) (n : Node) (a : Association) :
    Prop where
  kind : a.kind = kind
  named_iff : ∀ f, a.formal = .named f ↔ n.formalText? = some f
  actual : a.actual = actualOf L n
  actualText : a.actualText = n.actualText
  line : a.line = n.line

theorem readFrom_association (L : Lookup) (kind : MapKind) (position : Nat) (n : Node) :
    (association L kind position n).ReadFrom L kind n where
  kind := rfl
  named_iff f := by
    rw [association]
    cases n.formalText? <;> simp
  actual := rfl
  actualText := rfl
  line := rfl

theorem forall₂_readFrom (L : Lookup) (kind : MapKind) (position : Nat) (ns : List Node) :
    List.Forall₂ (Association.ReadFrom L kind) ns (associationsFrom L kind position ns) := by
  induction ns generalizing position with
  | nil => exact .nil
  | cons n ns ih => exact .cons (readFrom_association L kind position n) (ih _)

/-- The positional associations of a row are numbered one after another. -/
theorem formal_of_positional {L : Lookup} {kind : MapKind} {position : Nat} {ns : List Node}
    {k : Nat} {a : Association}
    (h : ((associationsFrom L kind position ns).filter (·.formal.isPositional))[k]? = some a) :
    a.formal = .positional (position + k) := by
  induction ns generalizing position k with
  | nil => simp [associationsFrom] at h
  | cons n ns ih =>
    rw [associationsFrom, List.filter_cons] at h
    cases hformal : n.formalText? with
    | some f =>
      have hnamed : (association L kind position n).formal.isPositional = false := by
        simp [Formal.isPositional, association, hformal]
      rw [hnamed] at h
      simp only [hformal] at h
      exact ih h
    | none =>
      have hpositional : (association L kind position n).formal.isPositional = true := by
        simp [Formal.isPositional, association, hformal]
      rw [hpositional, if_pos rfl] at h
      simp only [hformal, Option.isNone_none, if_true] at h
      -- The first positional association has the place the row begins with, the others one more
      -- each.
      cases k with
      | zero =>
        obtain rfl : association L kind position n = a := by simpa using h
        simp [association, hformal]
      | succ k =>
        rw [List.getElem?_cons_succ] at h
        rw [ih h, Nat.add_assoc, Nat.add_comm 1 k]

namespace Node

def mapAspects (n : Node) : List Node := n.namedChildren.filter (·.mapKind?.isSome)

/-- The elements of the maps stand in document order. -/
theorem mapElements_sublist (n : Node) : (n.mapAspects.flatMap mapElements).Sublist n.subtree := by
  have haspects : n.mapAspects.Sublist n.children :=
    List.filter_sublist.trans List.filter_sublist
  have helements : ∀ m ∈ n.mapAspects, (subtrees m.mapElements).Sublist m.subtree :=
    fun m _ => (subtrees_collect_sublist .associationElement m).trans m.subtrees_children_sublist
  refine (sublist_subtrees _).trans ((subtrees_flatMap_sublist helements).trans ?_)
  exact (subtrees_sublist haspects).trans n.subtrees_children_sublist

end Node

/-! ## Maps -/

namespace Instance

variable (i : Instance) (kind : MapKind)

/-- The last association of a map that names a formal. -/
def lastNamed? (f : Text) : Option Association :=
  (i.associations.filter fun a => a.kind = kind ∧ a.formal = .named f).getLast?

/-- A map with a named association of the right kind set in it. -/
def setNamed (m : Assoc Text Text) (a : Association) : Assoc Text Text :=
  match a.formal with
  | .named formal => if a.kind = kind then Assoc.set formal a.actualText m else m
  | .positional _ => m

theorem namedMap_eq : i.namedMap kind = i.associations.foldl (setNamed kind) [] := rfl

theorem get?_setNamed (m : Assoc Text Text) (a : Association) (f : Text) :
    (setNamed kind m a).get? f =
      if a.kind = kind ∧ a.formal = .named f then some a.actualText else m.get? f := by
  unfold setNamed
  cases a.formal with
  | named formal =>
    by_cases hkind : a.kind = kind
    · simp [hkind, Assoc.get?_set]
    · simp [hkind]
  | positional index => simp

theorem nodup_keys_setNamed {m : Assoc Text Text} (hm : m.keys.Nodup) (a : Association) :
    (setNamed kind m a).keys.Nodup := by
  unfold setNamed
  cases a.formal with
  | named formal =>
    show (if a.kind = kind then Assoc.set formal a.actualText m else m).keys.Nodup
    split
    · exact Assoc.nodup_keys_set hm formal a.actualText
    · exact hm
  | positional index => exact hm

theorem get?_foldl_setNamed (as : List Association) (m : Assoc Text Text) (f : Text) :
    (as.foldl (setNamed kind) m).get? f =
      (((as.filter fun a => a.kind = kind ∧ a.formal = .named f).getLast?).map
        (·.actualText)).or (m.get? f) := by
  induction as generalizing m with
  | nil => rfl
  | cons a as ih =>
    rw [List.foldl_cons, ih, get?_setNamed, List.filter_cons]
    by_cases ha : a.kind = kind ∧ a.formal = .named f
    · rw [if_pos ha, if_pos (decide_eq_true ha), List.getLast?_cons]
      cases (as.filter fun a => a.kind = kind ∧ a.formal = .named f).getLast? <;> rfl
    · rw [if_neg ha, if_neg (by simpa using ha)]

/-- A map has the actual of the last association that names the formal. -/
theorem get?_namedMap (f : Text) :
    (i.namedMap kind).get? f = (i.lastNamed? kind f).map (·.actualText) := by
  rw [namedMap_eq, get?_foldl_setNamed, lastNamed?]
  exact Option.or_none

theorem nodup_keys_namedMap : (i.namedMap kind).keys.Nodup := by
  rw [namedMap_eq]
  have hempty : (Assoc.keys ([] : Assoc Text Text)).Nodup := List.nodup_nil
  refine List.foldlRecOn (motive := fun m => m.keys.Nodup) _ (setNamed kind) hempty ?_
  intro m hm a _
  exact nodup_keys_setNamed kind hm a

theorem isSome_lastNamed?_iff (f : Text) : (i.lastNamed? kind f).isSome = true ↔
    ∃ a ∈ i.associations, a.kind = kind ∧ a.formal = .named f := by
  rw [lastNamed?, List.getLast?_isSome, Ne, List.filter_eq_nil_iff]
  simp

end Instance

/-! ## Names -/

/-- The path of an actual that is a name begins at its base. -/
theorem isDottedFrom_of_actualOf {L : Lookup} {n : Node} {base path : Text}
    (h : actualOf L n = .name base path) : IsDottedFrom base path := by
  unfold actualOf at h
  split at h
  · cases h
  · split at h
    · unfold Actual.ofNode at h
      repeat' split at h
      all_goals try cases h
      rename_i hr _
      exact isDottedFrom_resolve hr
    · unfold Actual.ofText at h
      repeat' split at h
      all_goals try cases h
      exact isDottedFrom_before _

namespace Actual

/-- The base of an actual that is a name. -/
def base : Actual → Text
  | name base _ => base
  | literal | unconnected | expression => []

/-- The path of an actual that is a name. -/
def path : Actual → Text
  | name _ path => path
  | literal | unconnected | expression => []

end Actual

/-! ## Written forms -/

/-- The field of an instance that a map is written under. -/
def MapKind.fieldName : MapKind → String
  | port => "port_map"
  | generic => "generic_map"

/-- The map of an instance as it is written. -/
theorem value?_document_map (i : Instance) (kind : MapKind) :
    i.document.value? kind.fieldName.toList = some (mapDocument (i.namedMap kind)) := by
  unfold Instance.document
  rw [Document.value?_object]
  cases kind <;> simp [Assoc.get?, MapKind.fieldName, Instance.portMap, Instance.genericMap]

namespace Association

theorem document_eq (a : Association) : a.document =
    Document.object [("kind", .word a.kind.keyword), ("formal", .text a.formal.text),
      ("actual", .text a.actualText), ("is_positional", .flag a.formal.isPositional),
      ("position_index", .count a.formal.index), ("actual_kind", .word a.actual.keyword),
      ("actual_base", .text a.actual.base), ("actual_full", .text a.actual.path),
      ("line", .count a.line)] := by
  obtain ⟨kind, formal, actual, actualText, line⟩ := a
  cases formal <;> cases actual <;> rfl

theorem value?_actual (a : Association) :
    a.document.value? "actual".toList = some (.text a.actualText) := by
  rw [document_eq, Document.value?_object]
  simp [Assoc.get?]

/-- How an association writes its formal: its text, whether it is positional, and its place. -/
structure WritesFormal (a : Association) (formal : Text) (isPositional : Bool) (position : Nat) :
    Prop where
  formal : a.document.value? "formal".toList = some (.text formal)
  is_positional : a.document.value? "is_positional".toList = some (.flag isPositional)
  position_index : a.document.value? "position_index".toList = some (.count position)

theorem writesFormal (a : Association) :
    a.WritesFormal a.formal.text a.formal.isPositional a.formal.index := by
  constructor <;>
  · rw [document_eq, Document.value?_object]
    simp [Assoc.get?]

/-- How an association writes its actual: with its base and its path if it is a name, and with two
empty texts otherwise. -/
structure WritesActual (a : Association) (base path : Text) : Prop where
  actual_base : a.document.value? "actual_base".toList = some (.text base)
  actual_full : a.document.value? "actual_full".toList = some (.text path)
  of_name : a.document.value? "actual_kind".toList = some (.word "name") → IsDottedFrom base path
  of_other : a.document.value? "actual_kind".toList ≠ some (.word "name") → base = [] ∧ path = []

theorem writesActual {a : Association}
    (h : ∀ base path, a.actual = .name base path → IsDottedFrom base path) :
    a.WritesActual a.actual.base a.actual.path := by
  have hkind : a.document.value? "actual_kind".toList = some (.word a.actual.keyword) := by
    rw [document_eq, Document.value?_object]
    simp [Assoc.get?]
  constructor
  · rw [document_eq, Document.value?_object]
    simp [Assoc.get?]
  · rw [document_eq, Document.value?_object]
    simp [Assoc.get?]
  · intro hname
    rw [hkind] at hname
    cases hactual : a.actual with
    | name base path => exact h base path hactual
    | literal | unconnected | expression =>
      rw [hactual] at hname
      simp [Document.word, Actual.keyword] at hname
  · intro hother
    rw [hkind] at hother
    cases hactual : a.actual with
    | name base path =>
      rw [hactual] at hother
      exact absurd rfl hother
    | literal | unconnected | expression => exact ⟨rfl, rfl⟩

end Association

/-! ## Instances -/

/-- The associations of an instance agree with the elements of an instantiation and with the written
maps. -/
structure Instance.MapsAgree (L : Lookup) (n : Node) (i : Instance) : Prop where
  written : i.document.value? "associations".toList =
    some (.rows Association.document i.associations)
  /-- The associations are those of the map aspects, in document order. -/
  associations : i.associations = n.mapAspects.flatMap (mapAssociations L)
  elements : ∀ m ∈ n.mapAspects, ∃ kind, m.mapKind? = some kind ∧
    List.Forall₂ (Association.ReadFrom L kind) m.mapElements (mapAssociations L m)
  order : (n.mapAspects.flatMap Node.mapElements).Sublist n.subtree
  /-- The keys of a map are exactly the named formals, so no positional association is in it. Each
  has the actual of the last association that names it. -/
  keys : ∀ kind f, ((i.document.value? kind.fieldName.toList).bind (·.value? f)).isSome = true ↔
    ∃ a ∈ i.associations, a.kind = kind ∧ a.formal = .named f
  values : ∀ kind f, (i.document.value? kind.fieldName.toList).bind (·.value? f) =
    (i.lastNamed? kind f).bind fun a => a.document.value? "actual".toList
  /-- The positional associations of each map aspect are numbered from 0. -/
  positional : ∀ m ∈ n.mapAspects, ∀ k (a : Association),
    ((mapAssociations L m).filter (·.formal.isPositional))[k]? = some a → a.WritesFormal [] true k
  named : ∀ a ∈ i.associations, ∀ f, a.formal = .named f → a.WritesFormal f false 0
  actual : ∀ a ∈ i.associations, ∃ base path, a.WritesActual base path

/-- A map aspect gives the associations of its elements, numbered from 0. -/
theorem exists_mapAssociations_eq (L : Lookup) {n m : Node} (hm : m ∈ n.mapAspects) :
    ∃ kind, m.mapKind? = some kind ∧
      mapAssociations L m = associationsFrom L kind 0 m.mapElements := by
  obtain ⟨kind, hkind⟩ := Option.isSome_iff_exists.1 (List.mem_filter.1 hm).2
  exact ⟨kind, hkind, by rw [mapAssociations, hkind]⟩

theorem associations_instanceOf (L : Lookup) (scope : Scope) (n : Node) :
    (instanceOf L scope n).associations = n.mapAspects.flatMap (mapAssociations L) := by
  show n.namedChildren.flatMap (mapAssociations L) = _
  unfold Node.mapAspects
  induction n.namedChildren with
  | nil => rfl
  | cons m ms ih =>
    rw [List.flatMap_cons, List.filter_cons, ih]
    cases hkind : m.mapKind? with
    | some kind => rfl
    | none =>
      have hempty : mapAssociations L m = [] := by rw [mapAssociations, hkind]
      rw [hempty]
      rfl

/-- The written maps have the written actuals of the last associations. -/
theorem value?_writtenMap (i : Instance) (kind : MapKind) (f : Text) :
    (i.document.value? kind.fieldName.toList).bind (·.value? f) =
      (i.lastNamed? kind f).bind fun a => a.document.value? "actual".toList := by
  rw [value?_document_map, Option.bind_some, value?_mapDocument (i.nodup_keys_namedMap kind),
    i.get?_namedMap, Option.map_map]
  cases i.lastNamed? kind f with
  | none => rfl
  | some a => exact a.value?_actual.symm

/-- **The associations and maps of an instance agree.** The associations are those of the elements
of the map aspects, one for each, in document order. The written port map and generic map have the
formals that some association of their kind names, each with the text of the actual in the last one.
In each map aspect the positional associations are written with their places from 0 on and without a
formal, and the named ones with place 0. Only actuals that are names are written with a base and a
path, and the path is the base, or goes on from the base after a dot. -/
theorem mapsAgree_instanceOf (L : Lookup) (scope : Scope) (n : Node) :
    (instanceOf L scope n).MapsAgree L n := by
  have hassociations := associations_instanceOf L scope n
  refine ⟨?_, hassociations, fun m hm => ?_, n.mapElements_sublist, fun kind f => ?_,
    value?_writtenMap _, fun m hm k a ha => ?_, fun a _ f hf => ?_, fun a ha => ?_⟩
  · unfold Instance.document
    rw [Document.value?_object]
    simp [Assoc.get?]
  · obtain ⟨kind, hkind, hlist⟩ := exists_mapAssociations_eq L hm
    exact ⟨kind, hkind, hlist ▸ forall₂_readFrom L kind 0 m.mapElements⟩
  · rw [← Instance.isSome_lastNamed?_iff, value?_writtenMap]
    cases (instanceOf L scope n).lastNamed? kind f with
    | none => rfl
    | some a => rw [Option.bind_some, a.value?_actual, Option.isSome_some, Option.isSome_some]
  · obtain ⟨kind, -, hlist⟩ := exists_mapAssociations_eq L hm
    rw [hlist] at ha
    have hformal := formal_of_positional ha
    rw [Nat.zero_add] at hformal
    simpa [hformal, Formal.text, Formal.isPositional, Formal.index] using a.writesFormal
  · simpa [hf, Formal.text, Formal.isPositional, Formal.index] using a.writesFormal
  -- An actual is read from some element of some map aspect, which is where its path comes from.
  · rw [hassociations] at ha
    obtain ⟨m, hm, ha⟩ := List.mem_flatMap.1 ha
    obtain ⟨kind, -, hlist⟩ := exists_mapAssociations_eq L hm
    rw [hlist] at ha
    obtain ⟨e, -, hread⟩ := (exists_mem_of_forall₂ (forall₂_readFrom L kind 0 _)).2 a ha
    refine ⟨_, _, a.writesActual fun base path hname => ?_⟩
    exact isDottedFrom_of_actualOf (hread.actual.symm.trans hname)

end DesignFacts

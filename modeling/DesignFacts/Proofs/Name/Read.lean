import DesignFacts.Name.Scan
import DesignFacts.Proofs.Text.Words
import Mathlib.Data.List.Induction
import Mathlib.Data.List.TakeWhile

/-!
# What a scan reads

Every read of a scan, at any depth of the expression, is a name that resolves and that the name
tables let pass as a read (`isRead_of_mem_reads`). A read is shown by its path. If the path has no
dots, it is the root identifier that the tables were asked about (`ResolvedName.Rooted`), so no read
is shown as a name that is excluded (`Lookup.Admits`).

Lists of paths have each of them once: no two are equal up to letter case (`pairwise_distinct`), and
none is lost (`exists_same_of_mem`).
-/

namespace DesignFacts

open Text

namespace Text

/-! ## Distinct texts -/

theorem distinct_concat (ts : List Text) (t : Text) :
    distinct (ts ++ [t]) =
      if (distinct ts).any (same t) then distinct ts else distinct ts ++ [t] := by
  rw [distinct, List.foldl_append]
  rfl

theorem mem_of_mem_distinct {t : Text} {ts : List Text} (h : t ∈ distinct ts) : t ∈ ts := by
  induction ts using List.reverseRecOn with
  | nil => exact h
  | append_singleton ts u ih =>
    rw [distinct_concat] at h
    split at h
    · exact List.mem_append_left _ (ih h)
    · exact List.mem_append.2 ((List.mem_append.1 h).imp_left ih)

/-- No two of the texts that are kept are equal up to letter case. -/
theorem pairwise_distinct (ts : List Text) :
    (distinct ts).Pairwise fun a b => same a b = false := by
  induction ts using List.reverseRecOn with
  | nil => exact .nil
  | append_singleton ts u ih =>
    rw [distinct_concat]
    split
    · exact ih
    · rename_i hnew
      refine List.pairwise_append.2 ⟨ih, List.pairwise_singleton _ _, ?_⟩
      intro a ha b hb
      obtain rfl := List.mem_singleton.1 hb
      rw [Bool.eq_false_iff]
      intro hsame
      exact hnew (List.any_eq_true.2 ⟨a, ha, same_iff.2 (same_iff.1 hsame).symm⟩)

/-- Every text is kept, in some letter case. -/
theorem exists_same_of_mem {t : Text} {ts : List Text} (h : t ∈ ts) :
    ∃ u ∈ distinct ts, same t u = true := by
  induction ts using List.reverseRecOn with
  | nil => cases h
  | append_singleton ts v ih =>
    rw [distinct_concat]
    split
    · rename_i hold
      rcases List.mem_append.1 h with h | h
      · exact ih h
      · obtain rfl := List.mem_singleton.1 h
        exact List.any_eq_true.1 hold
    · rcases List.mem_append.1 h with h | h
      · obtain ⟨u, hu, hsame⟩ := ih h
        exact ⟨u, List.mem_append_left _ hu, hsame⟩
      · obtain rfl := List.mem_singleton.1 h
        exact ⟨t, List.mem_append_right _ (List.mem_singleton_self t), same_iff.2 rfl⟩

end Text

/-! ## Bases and paths -/

/-- A path is its base, or its base, a dot and more. -/
def IsDottedFrom (base path : Text) : Prop := path = base ∨ (base ++ ['.']) <+: path

theorem isDottedFrom_before (t : Text) : IsDottedFrom (before '.' t) t := by
  by_cases hdot : '.' ∈ t
  · obtain ⟨s, rest, rfl, hs⟩ := List.eq_append_cons_of_mem hdot
    rw [before_append_cons hs]
    exact .inr ⟨rest, by simp⟩
  · rw [before_eq_self hdot]
    exact .inl rfl

namespace IsDottedFrom

variable {base path : Text}

theorem append (h : IsDottedFrom base path) (suffix : Text) :
    IsDottedFrom base (path ++ '.' :: suffix) := by
  rcases h with rfl | h
  · exact .inr ⟨suffix, by simp⟩
  · exact .inr (h.trans (List.prefix_append _ _))

theorem eq_of_notMem (h : IsDottedFrom base path) (hdot : '.' ∉ path) : base = path := by
  rcases h with rfl | h
  · rfl
  · exact absurd (h.subset (List.mem_append_right base (List.mem_singleton_self '.'))) hdot

end IsDottedFrom

theorem isDottedFrom_callOfText {t : Text} {line : Nat} {r : ResolvedName}
    (h : callOfText t line = some r) : IsDottedFrom r.base r.path := by
  unfold callOfText at h
  split at h
  · cases h
  · split at h
    · cases h
    · cases h
      exact isDottedFrom_before _

theorem isDottedFrom_nameBeforeTick {t : Text} {line : Nat} {r : ResolvedName}
    (h : nameBeforeTick t line = some r) : IsDottedFrom r.base r.path := by
  simp only [nameBeforeTick] at h
  split at h
  · cases h
  · cases h
    exact isDottedFrom_before _

/-- A selection adds to the path after a dot; other applications change neither base nor path. -/
theorem Application.isDottedFrom_apply (a : Application) {r : ResolvedName}
    (h : IsDottedFrom r.base r.path) : IsDottedFrom (a.apply r).base (a.apply r).path := by
  cases a with
  | selection suffix => exact h.append suffix
  | arguments texts => exact h
  | attr designator => exact h

theorem NameView.eq_some_of_ofRoot {o : Option ResolvedName} {r : ResolvedName}
    (h : ofRoot o = .root r) : o = some r := by
  cases o with
  | none => cases h
  | some r' =>
    cases h
    rfl

theorem Node.isDottedFrom_of_nameView {n : Node} {r : ResolvedName} (h : n.nameView = .root r) :
    IsDottedFrom r.base r.path := by
  unfold nameView at h
  split at h
  · cases h
    exact .inl rfl
  · unfold selectionView at h
    split at h
    · cases h
      exact isDottedFrom_before _
    · split at h <;> cases h
  iterate 3
    · unfold indexedView at h
      split at h
      · cases h
      · exact isDottedFrom_callOfText (NameView.eq_some_of_ofRoot h)
  · unfold attributeView at h
    split at h
    · cases h
    · obtain ⟨head, hhead, rfl⟩ := Option.map_eq_some_iff.1 (NameView.eq_some_of_ofRoot h)
      exact Application.isDottedFrom_apply _ (isDottedFrom_nameBeforeTick hhead)
  · cases h

theorem isDottedFrom_resolveSpine (n : Node) {r : ResolvedName} (h : resolveSpine n = some r) :
    IsDottedFrom r.base r.path := by
  rw [resolveSpine_eq] at h
  split at h
  · rename_i hview
    cases h
    exact Node.isDottedFrom_of_nameView hview
  · rename_i a head hview
    have hlt := Node.sizeOf_lt_of_mem_children (Node.mem_children_of_nameView hview)
    obtain ⟨inner, hinner, rfl⟩ := Option.map_eq_some_iff.1 h
    exact a.isDottedFrom_apply (isDottedFrom_resolveSpine head hinner)
  · cases h
termination_by sizeOf n

/-- The path of a resolved name begins at its base. -/
theorem isDottedFrom_resolve {L : Lookup} {n : Node} {r : ResolvedName} (h : resolve L n = some r) :
    IsDottedFrom r.base r.path := by
  obtain ⟨spine, hspine, rfl⟩ := Option.map_eq_some_iff.1 h
  have hdotted : IsDottedFrom spine.base spine.path := isDottedFrom_resolveSpine n hspine
  exact hdotted

/-- A path without dots is the root of the name. -/
def ResolvedName.Rooted (r : ResolvedName) : Prop := '.' ∉ r.path → r.base = r.path

theorem rooted_resolve {L : Lookup} {n : Node} {r : ResolvedName} (h : resolve L n = some r) :
    r.Rooted :=
  (isDottedFrom_resolve h).eq_of_notMem

theorem Node.named_of_kind_ne_other {n : Node} (h : n.kind ≠ .other) : n.named = true := by
  by_contra hnamed
  exact h (if_neg hnamed)

theorem Node.named_of_isToken {n : Node} {word : String} (h : n.isToken word = true) :
    n.named = false := by
  rw [isToken, Bool.and_eq_true, Bool.not_eq_true'] at h
  exact h.1

theorem Node.named_of_isName {n : Node} (h : n.kind.isName = true) : n.named = true := by
  refine named_of_kind_ne_other fun hother => ?_
  rw [hother] at h
  cases h

/-! ## Reads -/

/-- A name that resolves somewhere and is classified as a read. -/
structure IsRead (L : Lookup) (r : ResolvedName) : Prop where
  resolves : ∃ n, resolve L n = some r
  classified : classify L r = .read

theorem Scan.reads_concat (ss : List Scan) : (concat ss).reads = ss.flatMap (·.reads) := by
  induction ss with
  | nil => rfl
  | cons s ss ih =>
    rw [List.flatMap_cons, ← ih]
    rfl

/-- A node contributes neither reads nor calls, or those of the name that it resolves to. -/
theorem ownScan_cases (L : Lookup) (n : Node) :
    (ownScan L n).reads = [] ∧ (ownScan L n).calls = [] ∨
      ∃ r, resolve L n = some r ∧ (ownScan L n).reads = (contribution L n r).reads ∧
        (ownScan L n).calls = (contribution L n r).calls := by
  unfold ownScan
  split
  · cases resolve L n with
    | none => exact .inl ⟨rfl, rfl⟩
    | some r => exact .inr ⟨r, rfl, rfl, rfl⟩
  · exact .inl ⟨rfl, rfl⟩

theorem resolve_of_mem_ownScan {L : Lookup} {n : Node} {r : ResolvedName}
    (h : r ∈ (ownScan L n).reads) : resolve L n = some r ∧ classify L r = .read := by
  obtain ⟨hown, -⟩ | ⟨found, hr, hown, -⟩ := ownScan_cases L n <;> rw [hown] at h
  · cases h
  · unfold contribution at h
    split at h
    · rename_i hclass
      obtain rfl := List.mem_singleton.1 h
      exact ⟨hr, hclass⟩
    · cases h
    · cases h

/-- The reads of a node are its own ones, then those of its parts. -/
theorem reads_scan (L : Lookup) (n : Node) :
    (scan L n).reads =
      (ownScan L n).reads ++ (scanParts L n).flatMap fun p => (scan L p).reads := by
  rw [scan_eq, ← List.flatMap_map, ← Scan.reads_concat]
  rfl

theorem isRead_of_mem_reads {L : Lookup} {n : Node} {r : ResolvedName}
    (h : r ∈ (scan L n).reads) : IsRead L r := by
  induction n using scan.induct L with
  | case1 n ih =>
    rw [reads_scan, List.mem_append, List.mem_flatMap] at h
    rcases h with h | ⟨p, hp, h⟩
    · obtain ⟨hr, hclass⟩ := resolve_of_mem_ownScan h
      exact ⟨⟨n, hr⟩, hclass⟩
    · exact ih ⟨p, hp⟩ h

theorem IsRead.not_excluded {L : Lookup} {r : ResolvedName} (h : IsRead L r) :
    L.excluded (lower r.base) = false := by
  have hread := h.classified
  unfold classify at hread
  cases hexcluded : L.excluded (lower r.base) with
  | false => rfl
  | true => simp [hexcluded] at hread

/-! ## Excluded names -/

/-- A text is a path with dots or a name that is not excluded. -/
def Lookup.Admits (L : Lookup) (t : Text) : Prop := '.' ∉ t → L.excluded (lower t) = false

theorem IsRead.admits {L : Lookup} {r : ResolvedName} (h : IsRead L r) : L.Admits r.path := by
  intro hdot
  obtain ⟨n, hn⟩ := h.resolves
  rw [← rooted_resolve hn hdot]
  exact h.not_excluded

theorem admits_of_mem_reads {L : Lookup} {ns : List Node} {t : Text}
    (h : t ∈ (scanAll L ns).reads.map (·.path)) : L.Admits t := by
  obtain ⟨r, hr, rfl⟩ := List.mem_map.1 h
  rw [scanAll, Scan.reads_concat, List.flatMap_map] at hr
  obtain ⟨n, -, hr⟩ := List.mem_flatMap.1 hr
  exact (isRead_of_mem_reads hr).admits

theorem admits_of_mem_readPaths {L : Lookup} {ns : List Node} {t : Text}
    (h : t ∈ (scanAll L ns).readPaths) : L.Admits t :=
  admits_of_mem_reads (mem_of_mem_distinct h)

/-- An admitted text is no excluded name, however the letters are written. -/
theorem Lookup.Admits.not_same {L : Lookup} {t name : Text} (h : L.Admits t)
    (hdot : '.' ∉ name) (hexcluded : L.excluded (lower name) = true) : same t name = false := by
  refine Bool.eq_false_iff.2 fun hsame => ?_
  rw [same_iff] at hsame
  have hmem : '.' ∈ t ↔ '.' ∈ name := by
    rw [← mem_lower t (by decide), hsame, mem_lower name (by decide)]
  have hfalse := h (hmem.not.2 hdot)
  rw [hsame, hexcluded] at hfalse
  cases hfalse

/-- Every name is declared. -/
def declaredLookup : Lookup := ⟨fun _ => true, fun _ => false, fun _ => false, fun _ => false⟩

end DesignFacts

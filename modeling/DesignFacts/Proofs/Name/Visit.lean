import DesignFacts.Proofs.Extraction.Record
import DesignFacts.Proofs.Name.Read
import Mathlib.Data.List.Perm.Subperm

/-!
# Where reads and calls come from

**Nodes that are visited.** A scan starts at a node and goes on with its parts (`visited`). Its
result is what the visited nodes contribute one by one (`scan_eq_concat_visited`), and each of them
contributes at most one read or call (`length_ownScan_le_one`).

**No node is visited twice.** The parts of a node are not always its children: the arguments of a
name are taken from its heads as well, and argument lists are opened. But parts never overlap, so
the visited nodes, with repetitions, are among the nodes of the tree (`visited_subperm`).

**What passes.** A resolved name is a read, or a call, just if the name tables say so
(`classify_eq_read_iff`, `classify_eq_call_iff`).

Main result: `scan_sound`.
-/

namespace DesignFacts

open Text

/-! ## Nodes that are visited -/

/-- The nodes that a scan comes to, in order. -/
def visited (L : Lookup) (n : Node) : List Node :=
  n :: (scanParts L n).attach.flatMap fun p => visited L p.1
termination_by sizeOf n
decreasing_by exact sizeOf_lt_of_mem_scanParts p.2

theorem visited_eq (L : Lookup) (n : Node) :
    visited L n = n :: (scanParts L n).flatMap (visited L) := by
  rw [visited]
  simp

namespace Scan

theorem append_assoc (a b c : Scan) : a ++ b ++ c = a ++ (b ++ c) := by
  show append (append a b) c = append a (append b c)
  simp [append, List.append_assoc, Bool.or_assoc]

theorem concat_append (ss ts : List Scan) : concat (ss ++ ts) = concat ss ++ concat ts := by
  induction ss with
  | nil =>
    show concat ts = append {} (concat ts)
    simp [append]
  | cons s ss ih =>
    show s ++ concat (ss ++ ts) = s ++ concat ss ++ concat ts
    rw [ih, append_assoc]

theorem concat_flatMap {α : Type} (as : List α) (f : α → List Scan) :
    concat (as.flatMap f) = concat (as.map fun a => concat (f a)) := by
  induction as with
  | nil => rfl
  | cons a as ih =>
    rw [List.flatMap_cons, concat_append, ih]
    rfl

theorem calls_concat (ss : List Scan) : (concat ss).calls = ss.flatMap (·.calls) := by
  induction ss with
  | nil => rfl
  | cons s ss ih =>
    rw [List.flatMap_cons, ← ih]
    rfl

end Scan

/-- A scan is what the visited nodes contribute, one after another. -/
theorem scan_eq_concat_visited (L : Lookup) (n : Node) :
    scan L n = Scan.concat ((visited L n).map (ownScan L)) := by
  induction n using scan.induct L with
  | case1 n ih =>
    have hparts : (scanParts L n).map (scan L) =
        (scanParts L n).map fun p => Scan.concat ((visited L p).map (ownScan L)) := by
      apply List.map_congr_left
      intro p hp
      exact ih ⟨p, hp⟩
    rw [scan_eq, visited_eq, List.map_cons, List.map_flatMap, hparts, ← Scan.concat_flatMap]
    rfl

theorem flatMap_subperm {α β : Type} {f g : α → List β} {as : List α}
    (h : ∀ a ∈ as, (f a).Subperm (g a)) : (as.flatMap f).Subperm (as.flatMap g) := by
  induction as with
  | nil => exact .refl []
  | cons a as ih =>
    rw [List.flatMap_cons, List.flatMap_cons]
    exact (h a List.mem_cons_self).append (ih fun b hb => h b (List.mem_cons_of_mem a hb))

/-! ## Parts beside a place -/

theorem map_filter_zipIdx_sublist {α : Type} (as : List α) (p : α × Nat → Bool) :
    ((as.zipIdx.filter p).map Prod.fst).Sublist as := by
  have h := (List.filter_sublist (p := p) (l := as.zipIdx)).map Prod.fst
  rwa [List.zipIdx_map_fst] at h

theorem map_filter_zipIdx_eq {α : Type} {as : List α} {k : Nat} {p : α × Nat → Bool} {q : α → Bool}
    (h : ∀ x ∈ as.zipIdx k, p x = q x.1) : ((as.zipIdx k).filter p).map Prod.fst = as.filter q := by
  rw [List.filter_congr (q := q ∘ Prod.fst) h, ← List.filter_map, List.zipIdx_map_fst]

/-- Leaving out one place of a row leaves what stands before and after it. -/
theorem map_filter_zipIdx_middle {before after : List Node} {n : Node} {p : Node × Nat → Bool}
    (hp : ∀ x, p x = (x.1.named && some before.length != some x.2)) :
    ((before ++ n :: after).zipIdx.filter p).map Prod.fst =
      (before ++ after).filter (·.named) := by
  have hbefore : ((before.zipIdx 0).filter p).map Prod.fst = before.filter (·.named) := by
    apply map_filter_zipIdx_eq
    intro x hx
    have hlt := List.snd_lt_of_mem_zipIdx hx
    have hne : before.length ≠ x.2 := by omega
    simp [hp, hne]
  have hmiddle : p (n, 0 + before.length) = false := by simp [hp]
  have hafter : ((after.zipIdx (0 + before.length + 1)).filter p).map Prod.fst =
      after.filter (·.named) := by
    apply map_filter_zipIdx_eq
    intro x hx
    have hle := List.le_snd_of_mem_zipIdx hx
    have hne : before.length ≠ x.2 := by omega
    simp [hp, hne]
  rw [List.zipIdx_append, List.zipIdx_cons, List.filter_append, List.filter_cons, hmiddle,
    if_neg Bool.false_ne_true, List.map_append, hbefore, hafter, List.filter_append]

theorem exists_append_of_getElem? {α : Type} {as : List α} {i : Nat} {a : α} (h : as[i]? = some a) :
    ∃ before after, as = before ++ a :: after ∧ before.length = i := by
  obtain ⟨hi, rfl⟩ := List.getElem?_eq_some_iff.1 h
  refine ⟨as.take i, as.drop (i + 1), ?_, List.length_take_of_le hi.le⟩
  rw [← List.drop_eq_getElem_cons hi, List.take_append_drop]

namespace Node

theorem besideHead_eq {n h : Node} {before after : List Node}
    (hsplit : n.children = before ++ h :: after) (hi : n.headIndex? = some before.length) :
    n.besideHead = ((before ++ after).filter (·.named)).filter fun c => !c.isComment := by
  rw [besideHead, hsplit, hi, map_filter_zipIdx_middle fun _ => rfl]

/-! ## No node is visited twice -/

/-- What stands beside the head of a name stands before or after it. -/
theorem besideHead_sublist {n h : Node} (hh : n.head? = some h) :
    ∃ before after, n.children = before ++ h :: after ∧
      n.besideHead.Sublist (before ++ after) := by
  obtain ⟨i, hi, hget⟩ := Option.bind_eq_some_iff.1 hh
  obtain ⟨before, after, hsplit, rfl⟩ := exists_append_of_getElem? hget
  refine ⟨before, after, hsplit, ?_⟩
  rw [besideHead_eq hsplit hi]
  exact List.filter_sublist.trans List.filter_sublist

/-- Opening argument lists leaves what is in them. -/
theorem subtrees_ownArguments_sublist (n : Node) :
    (subtrees n.ownArguments).Sublist (subtrees n.besideHead) := by
  apply subtrees_flatMap_sublist
  intro c _
  split
  · exact (subtrees_sublist List.filter_sublist).trans c.subtrees_children_sublist
  · rw [subtrees, subtrees, List.append_nil]

/-- The arguments of a name do not overlap. Those of the head lie in the head, the others beside
it. -/
theorem subtrees_arguments_subperm (n : Node) :
    (subtrees n.arguments).Subperm (subtrees n.children) := by
  cases hh : n.nameHead? with
  | none =>
    have hinner : (n.nameHead?.map arguments).getD [] = [] := by rw [hh]; rfl
    have hown : (subtrees n.ownArguments).Subperm (subtrees n.children) := by
      refine (n.subtrees_ownArguments_sublist.trans (subtrees_sublist ?_)).subperm
      exact List.filter_sublist.trans (map_filter_zipIdx_sublist _ _)
    rw [arguments_eq, hinner, List.nil_append]
    split
    · exact hown
    · split <;> exact List.nil_subperm
  | some h =>
    have hlt := sizeOf_lt_of_mem_children (mem_children_of_nameHead? hh)
    have hinner : (subtrees h.arguments).Subperm h.subtree :=
      (subtrees_arguments_subperm h).trans h.subtrees_children_sublist.subperm
    obtain ⟨before, after, hsplit, hbeside⟩ := besideHead_sublist (Option.filter_eq_some_iff.1 hh).1
    -- The head is one of the parts, and the other arguments lie in the parts beside it.
    have hmiddle : (h.subtree ++ subtrees (before ++ after)).Perm (subtrees n.children) := by
      rw [hsplit, subtrees_append, subtrees_append, subtrees]
      exact List.perm_append_comm_assoc _ _ _
    have hboth : (subtrees (h.arguments ++ n.ownArguments)).Subperm (subtrees n.children) := by
      rw [subtrees_append]
      refine (hinner.append ?_).trans hmiddle.subperm
      exact (n.subtrees_ownArguments_sublist.trans (subtrees_sublist hbeside)).subperm
    rw [arguments_eq, hh, Option.map_some, Option.getD_some]
    split
    · exact hboth
    · split
      · rw [subtrees_append] at hboth
        exact (List.sublist_append_left _ _).subperm.trans hboth
      · exact List.nil_subperm
termination_by sizeOf n

theorem associationValue_sublist (n : Node) : n.associationValue.Sublist n.children := by
  unfold associationValue
  split
  · rename_i v hv
    apply List.singleton_sublist.2
    rcases Option.or_eq_some_iff.1 hv with hv | ⟨-, hv⟩ <;> exact mem_children_of_childUnder hv
  · split
    · rename_i hsplit
      exact List.filter_sublist.trans (splitAt?_right_sublist hsplit)
    · exact List.filter_sublist

end Node

/-- The parts that a scan goes on with do not overlap. -/
theorem subtrees_scanParts_subperm (L : Lookup) (n : Node) :
    (Node.subtrees (scanParts L n)).Subperm (Node.subtrees n.children) := by
  have hnamed : (Node.subtrees n.namedChildren).Subperm (Node.subtrees n.children) :=
    (Node.subtrees_sublist List.filter_sublist).subperm
  have hvalue : (Node.subtrees n.associationValue).Subperm (Node.subtrees n.children) :=
    (Node.subtrees_sublist n.associationValue_sublist).subperm
  have hoperand : (Node.subtrees n.qualifiedOperand).Subperm (Node.subtrees n.children) :=
    (Node.subtrees_sublist (map_filter_zipIdx_sublist _ _)).subperm
  unfold scanParts
  split
  · split
    · unfold nameParts
      split
      · exact List.nil_subperm
      · split
        · exact n.subtrees_arguments_subperm
        · exact List.nil_subperm
    · exact hnamed
  · split
    · exact hoperand
    · exact hvalue
    · exact hvalue
    · exact List.nil_subperm
    · exact List.nil_subperm
    · exact List.nil_subperm
    · split
      · exact List.nil_subperm
      · exact hnamed

theorem mem_subtree_of_mem_scanParts {L : Lookup} {n p : Node} (hp : p ∈ scanParts L n) :
    p ∈ n.subtree := by
  have hmem : p ∈ Node.subtrees (scanParts L n) := by
    rw [Node.subtrees_eq_flatMap]
    exact List.mem_flatMap.2 ⟨p, hp, p.mem_subtree_self⟩
  exact n.subtrees_children_sublist.subset ((subtrees_scanParts_subperm L n).subset hmem)

/-- **No node is visited twice.** -/
theorem visited_subperm (L : Lookup) (n : Node) : (visited L n).Subperm n.subtree := by
  induction n using scan.induct L with
  | case1 n ih =>
    have hparts : ((scanParts L n).flatMap (visited L)).Subperm
        (Node.subtrees (scanParts L n)) := by
      rw [Node.subtrees_eq_flatMap]
      apply flatMap_subperm
      intro p hp
      exact ih ⟨p, hp⟩
    rw [visited_eq, Node.subtree_eq]
    exact (List.subperm_cons n).2 (hparts.trans (subtrees_scanParts_subperm L n))

/-! ## What passes as a read or a call -/

/-- The name tables let a name pass as a read. -/
structure Lookup.PassesRead (L : Lookup) (r : ResolvedName) : Prop where
  not_excluded : L.excluded (lower r.base) = false
  declared : r.isAttribute = true ∨ r.isIndexed = true → L.declared (lower r.base) = true
  undeclared : L.declared (lower r.base) = false →
    L.builtin (lower r.base) = false ∧ L.subprogram (lower r.base) = false

/-- The name tables let a name pass as a call. -/
structure Lookup.PassesCall (L : Lookup) (r : ResolvedName) : Prop where
  isIndexed : r.isIndexed = true
  not_attribute : r.isAttribute = false
  not_declared : L.declared (lower r.base) = false
  not_excluded : L.excluded (lower r.base) = false
  not_builtin : L.builtin (lower r.base) = false
  last_not_builtin : L.builtin (lower r.lastSegment) = false

theorem classify_eq_read_iff {L : Lookup} {r : ResolvedName} :
    classify L r = .read ↔ L.PassesRead r := by
  constructor
  · intro h
    unfold classify at h
    constructor <;> grind
  · rintro ⟨hexcluded, hdeclared, hundeclared⟩
    unfold classify
    grind

theorem classify_eq_call_iff {L : Lookup} {r : ResolvedName} :
    classify L r = .call ↔ L.PassesCall r := by
  constructor
  · intro h
    unfold classify at h
    constructor <;> grind
  · rintro ⟨hindexed, hattribute, hdeclared, hexcluded, hbuiltin, hlast⟩
    simp [classify, hindexed, hattribute, hdeclared, hexcluded, hbuiltin, hlast]

theorem length_ownScan_le_one (L : Lookup) (n : Node) :
    (ownScan L n).reads.length + (ownScan L n).calls.length ≤ 1 := by
  obtain ⟨hreads, hcalls⟩ | ⟨r, -, hreads, hcalls⟩ := ownScan_cases L n <;> rw [hreads, hcalls]
  · exact Nat.zero_le 1
  · unfold contribution
    cases classify L r with
    | read => exact Nat.le_refl 1
    | call => exact Nat.le_refl 1
    | neither => exact Nat.zero_le 1

/-- The call that a name stands for. -/
def callSite (n : Node) (r : ResolvedName) : CallSite :=
  ⟨r.path, n.arguments.map Node.trimmed, r.line⟩

theorem call_of_mem_ownScan {L : Lookup} {n : Node} {c : CallSite}
    (h : c ∈ (ownScan L n).calls) :
    ∃ r, resolve L n = some r ∧ c = callSite n r ∧ classify L r = .call := by
  obtain ⟨-, hown⟩ | ⟨r, hr, -, hown⟩ := ownScan_cases L n <;> rw [hown] at h
  · cases h
  · unfold contribution at h
    split at h
    · cases h
    · rename_i hclass
      exact ⟨r, hr, List.mem_singleton.1 h, hclass⟩
    · cases h

/-! ## Scanning -/

section

variable {L : Lookup} {n : Node}

theorem exists_visited_of_mem_reads {r : ResolvedName} (h : r ∈ (scan L n).reads) :
    ∃ m ∈ visited L n, r ∈ (ownScan L m).reads := by
  rw [scan_eq_concat_visited, Scan.reads_concat, List.flatMap_map] at h
  exact List.mem_flatMap.1 h

theorem exists_visited_of_mem_calls {c : CallSite} (h : c ∈ (scan L n).calls) :
    ∃ m ∈ visited L n, c ∈ (ownScan L m).calls := by
  rw [scan_eq_concat_visited, Scan.calls_concat, List.flatMap_map] at h
  exact List.mem_flatMap.1 h

end

/-- **Reads and calls are classified soundly.** Every read and every call is a name of the tree that
the name tables let pass as such. The scan is what the nodes that it visits contribute one by one,
each at most one read or call, and no node of the tree is visited twice. -/
theorem scan_sound (L : Lookup) (n : Node) :
    (∀ r ∈ (scan L n).reads, ∃ m ∈ n.subtree, resolve L m = some r ∧ L.PassesRead r) ∧
      (∀ c ∈ (scan L n).calls,
        ∃ m ∈ n.subtree, ∃ r, resolve L m = some r ∧ c = callSite m r ∧ L.PassesCall r) ∧
      scan L n = Scan.concat ((visited L n).map (ownScan L)) ∧
      (visited L n).Subperm n.subtree ∧
      ∀ m ∈ visited L n, (ownScan L m).reads.length + (ownScan L m).calls.length ≤ 1 := by
  have hsubset := (visited_subperm L n).subset
  refine ⟨fun r hr => ?_, fun c hc => ?_, scan_eq_concat_visited L n, visited_subperm L n,
    fun m _ => length_ownScan_le_one L m⟩
  · obtain ⟨m, hm, hr⟩ := exists_visited_of_mem_reads hr
    obtain ⟨hresolve, hclass⟩ := resolve_of_mem_ownScan hr
    exact ⟨m, hsubset hm, hresolve, classify_eq_read_iff.1 hclass⟩
  · obtain ⟨m, hm, hc⟩ := exists_visited_of_mem_calls hc
    obtain ⟨r, hresolve, rfl, hclass⟩ := call_of_mem_ownScan hc
    exact ⟨m, hsubset hm, r, hresolve, rfl, classify_eq_call_iff.1 hclass⟩

/-- The call `pkg.f(mem(i))`. -/
def memoryCall : Node :=
  .branch "function_call" [
    .under "prefix" (.branch "selected_name" [.under "prefix" (.leaf "identifier" "pkg"),
      .under "suffix" (.leaf "identifier" "f")]),
    .branch "indexed_name" [.under "prefix" (.leaf "identifier" "mem"), .leaf "identifier" "i"]]

/-- Only `mem` is declared. -/
def memoryLookup : Lookup :=
  ⟨fun name => name == "mem".toList, fun _ => false, fun _ => false, fun _ => false⟩

theorem scan_sound_memoryCall :
    (∃ r ∈ (scan memoryLookup memoryCall).reads,
      r.base = "mem".toList ∧ memoryLookup.PassesRead r) ∧
      ∃ c ∈ (scan memoryLookup memoryCall).calls, c.name = "pkg.f".toList ∧
        ∃ m ∈ memoryCall.subtree, ∃ r, resolve memoryLookup m = some r ∧ c = callSite m r ∧
          memoryLookup.PassesCall r := by
  obtain ⟨hreads, hcalls, -⟩ := scan_sound memoryLookup memoryCall
  have hread : ∃ r ∈ (scan memoryLookup memoryCall).reads, r.base = "mem".toList := by
    decide +kernel
  have hcall : ∃ c ∈ (scan memoryLookup memoryCall).calls, c.name = "pkg.f".toList := by
    decide +kernel
  obtain ⟨r, hr, hbase⟩ := hread
  obtain ⟨c, hc, hname⟩ := hcall
  obtain ⟨-, -, -, hpasses⟩ := hreads r hr
  exact ⟨⟨r, hr, hbase, hpasses⟩, c, hc, hname, hcalls c hc⟩

end DesignFacts

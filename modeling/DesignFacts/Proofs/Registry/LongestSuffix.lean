import DesignFacts.Proofs.Text.Bytes
import DesignFacts.Registry.Basic
import Mathlib.Data.List.Infix

/-!
# Which reader takes a path

A registry is filled by a sequence of registrations, and its entries come in no fixed order. The
reader for a path must follow from the registrations alone: it is the one that was registered last
for the longest suffix of the file name.

**Entries.** After a sequence of registrations, a suffix has the reader of its latest registration
(`mem_entries_ofCalls`).

**Order.** The search keeps the longest of the suffixes that end the name. All of these are ends of
one text, so two of them with equally many bytes are the same suffix, and that has one reader. So
the search may go over the entries in any order.

Main result: `forPath?_order_latest_longest`.
-/

namespace DesignFacts.Registry

open Text

variable {α : Type} {calls : List (Text × α)} {entries : List (Text × α)} {e : Text × α}
  {name suffix s t : Text} {reader reader' : α}

/-! ## Registrations -/

/-- The latest registration for a suffix, up to letter case, is the one with the given reader. -/
def IsLatest (calls : List (Text × α)) (suffix : Text) (reader : α) : Prop :=
  ∃ earlier written later, calls = earlier ++ (written, reader) :: later ∧
    lower written = suffix ∧ ∀ call ∈ later, lower call.1 ≠ suffix

theorem isLatest_nil : ¬ IsLatest [] suffix reader := by
  rintro ⟨earlier, written, later, heq, -⟩
  simp at heq

/-- A registration is the latest one for its own suffix and changes no other. -/
theorem isLatest_concat (call : Text × α) :
    IsLatest (calls ++ [call]) suffix reader ↔
      if lower call.1 = suffix then call.2 = reader else IsLatest calls suffix reader := by
  constructor
  · rintro ⟨earlier, written, later, heq, hwritten, hlater⟩
    rcases List.eq_nil_or_concat later with rfl | ⟨later, last, rfl⟩
    · obtain ⟨-, hcall⟩ := List.append_inj' heq rfl
      obtain rfl : call = (written, reader) := by simpa using hcall
      rw [if_pos hwritten]
    · rw [List.concat_eq_append] at heq hlater
      rw [← List.cons_append, ← List.append_assoc] at heq
      obtain ⟨rfl, hcall⟩ := List.append_inj' heq rfl
      obtain rfl : call = last := by simpa using hcall
      rw [if_neg (hlater call (by simp))]
      exact ⟨earlier, written, later, rfl, hwritten, fun c hc => hlater c (by simp [hc])⟩
  · split
    · rename_i hsuffix
      rintro rfl
      exact ⟨calls, call.1, [], rfl, hsuffix, by simp⟩
    · rename_i hother
      rintro ⟨earlier, written, later, rfl, hwritten, hlater⟩
      refine ⟨earlier, written, later ++ [call], by simp, hwritten, fun c hc => ?_⟩
      rcases List.mem_append.1 hc with hc | hc
      · exact hlater c hc
      · rw [List.mem_singleton.1 hc]
        exact hother

theorem IsLatest.unique (h : IsLatest calls suffix reader) (h' : IsLatest calls suffix reader') :
    reader = reader' := by
  induction calls using List.reverseRecOn with
  | nil => exact absurd h isLatest_nil
  | append_singleton calls call ih =>
    rw [isLatest_concat] at h h'
    split at h
    · rename_i hsuffix
      rw [if_pos hsuffix] at h'
      exact h.symm.trans h'
    · rename_i hother
      rw [if_neg hother] at h'
      exact ih h h'

theorem exists_isLatest_of_mem {call : Text × α} (h : call ∈ calls) :
    ∃ reader, IsLatest calls (lower call.1) reader := by
  induction calls using List.reverseRecOn with
  | nil => simp at h
  | append_singleton calls last ih =>
    by_cases hsuffix : lower last.1 = lower call.1
    · exact ⟨last.2, (isLatest_concat last).2 (by rw [if_pos hsuffix])⟩
    · have hmem : call ∈ calls := by
        rcases List.mem_append.1 h with h | h
        · exact h
        · rw [List.mem_singleton.1 h] at hsuffix
          exact absurd rfl hsuffix
      obtain ⟨reader, hlatest⟩ := ih hmem
      exact ⟨reader, (isLatest_concat last).2 (by rwa [if_neg hsuffix])⟩

theorem IsLatest.exists_mem (h : IsLatest calls suffix reader) :
    ∃ call ∈ calls, lower call.1 = suffix := by
  obtain ⟨earlier, written, later, rfl, hwritten, -⟩ := h
  exact ⟨(written, reader), by simp, hwritten⟩

/-! ## Entries -/

theorem mem_entries_register (r : Registry α) (call e : Text × α) :
    e ∈ (r.register call.1 call.2).entries ↔
      if lower call.1 = e.1 then call.2 = e.2 else e ∈ r.entries := by
  rw [register, List.mem_append, List.mem_filter, List.mem_singleton, bne_iff_ne]
  split
  · rename_i hsuffix
    rw [Prod.ext_iff]
    exact ⟨fun h => (h.resolve_left fun hold => hold.2 hsuffix.symm).2.symm,
      fun h => .inr ⟨hsuffix.symm, h.symm⟩⟩
  · rename_i hother
    exact ⟨fun h => (h.resolve_right fun hnew => hother (by rw [hnew])).1,
      fun h => .inl ⟨h, Ne.symm hother⟩⟩

/-- The entries of a registry are the latest registrations. -/
theorem mem_entries_ofCalls : e ∈ (ofCalls calls).entries ↔ IsLatest calls e.1 e.2 := by
  induction calls using List.reverseRecOn with
  | nil => exact iff_of_false List.not_mem_nil isLatest_nil
  | append_singleton calls call ih =>
    have hstep : ofCalls (calls ++ [call]) = (ofCalls calls).register call.1 call.2 := by
      simp [ofCalls]
    rw [hstep, mem_entries_register, isLatest_concat, ih]

/-! ## The longest entry -/

theorem longest?_eq_none_iff {es : List (Text × α)} : longest? es = none ↔ es = [] := by
  cases es with
  | nil => exact iff_of_true rfl rfl
  | cons e es =>
    rw [longest?]
    split
    · simp
    · split <;> simp

theorem exists_longest?_iff {es : List (Text × α)} :
    (∃ e, longest? es = some e) ↔ ∃ e, e ∈ es := by
  rw [← Option.isSome_iff_exists, Option.isSome_iff_ne_none, Ne, longest?_eq_none_iff]
  constructor
  · exact List.exists_mem_of_ne_nil es
  · rintro ⟨e, he⟩
    exact List.ne_nil_of_mem he

/-- The longest entry is one of the entries, and none is longer. -/
theorem mem_and_le_of_longest? {es : List (Text × α)} (h : longest? es = some e) :
    e ∈ es ∧ ∀ e' ∈ es, bytes e'.1 ≤ bytes e.1 := by
  induction es generalizing e with
  | nil => cases h
  | cons first es ih =>
    rw [longest?] at h
    split at h
    · rename_i hnone
      obtain rfl := Option.some.inj h
      simp [longest?_eq_none_iff.1 hnone]
    -- The best of the later entries stays unless the first one is strictly longer.
    · rename_i best hbest
      obtain ⟨hmem, hle⟩ := ih hbest
      split at h
      · rename_i hlonger
        obtain rfl := Option.some.inj h
        refine ⟨List.mem_cons_self, fun e' he' => ?_⟩
        rcases List.mem_cons.1 he' with rfl | he'
        · exact Nat.le_refl _
        · exact (hle e' he').trans (Nat.le_of_lt hlonger)
      · rename_i hnot
        obtain rfl := Option.some.inj h
        refine ⟨List.mem_cons_of_mem _ hmem, fun e' he' => ?_⟩
        rcases List.mem_cons.1 he' with rfl | he'
        · exact Nat.le_of_not_lt hnot
        · exact hle e' he'

/-! ## Suffixes of one name -/

/-- Two ends of a text with equally many bytes are the same. -/
theorem suffix_eq_of_bytes_eq (hs : s <:+ name) (ht : t <:+ name) (h : bytes s = bytes t) :
    s = t := by
  obtain ⟨before, rfl⟩ := hs
  obtain ⟨before', heq⟩ := ht
  have hbytes := congrArg bytes heq
  rw [bytes_append, bytes_append] at hbytes
  exact (append_inj_of_bytes_eq heq (by omega)).2.symm

/-- A suffix is the longest of the registered ones that end a file name, all in small letters. -/
structure IsLongest (calls : List (Text × α)) (name suffix : Text) : Prop where
  registered : ∃ call ∈ calls, lower call.1 = suffix
  ends_name : suffix <:+ lower name
  longest : ∀ call ∈ calls, lower call.1 <:+ lower name → bytes (lower call.1) ≤ bytes suffix

theorem mem_candidates {r : Registry α} : e ∈ r.candidates name ↔
    e ∈ r.entries ∧ e.1 <:+ lower name := by
  rw [candidates, List.mem_filter, List.isSuffixOf_iff_suffix]

/-! ## The reader of a name -/

section Order

variable (horder : entries.Perm (ofCalls calls).entries)
include horder

theorem mem_candidates_order :
    e ∈ candidates ⟨entries⟩ name ↔ IsLatest calls e.1 e.2 ∧ e.1 <:+ lower name := by
  rw [mem_candidates, horder.mem_iff, mem_entries_ofCalls]

/-- The entry that the search keeps is the latest registration of the longest suffix. -/
theorem isLongest_of_longest? (h : longest? (candidates ⟨entries⟩ name) = some e) :
    IsLongest calls name e.1 ∧ IsLatest calls e.1 e.2 := by
  obtain ⟨hmem, hle⟩ := mem_and_le_of_longest? h
  obtain ⟨hlatest, hends⟩ := (mem_candidates_order horder).1 hmem
  refine ⟨⟨hlatest.exists_mem, hends, fun call hcall hother => ?_⟩, hlatest⟩
  obtain ⟨reader, hreader⟩ := exists_isLatest_of_mem hcall
  exact hle (lower call.1, reader) ((mem_candidates_order horder).2 ⟨hreader, hother⟩)

/-- The latest registration of the longest suffix is the entry that the search keeps. -/
theorem longest?_of_isLongest (hlongest : IsLongest calls name suffix)
    (hlatest : IsLatest calls suffix reader) :
    longest? (candidates ⟨entries⟩ name) = some (suffix, reader) := by
  have hmem : (suffix, reader) ∈ candidates ⟨entries⟩ name :=
    (mem_candidates_order horder).2 ⟨hlatest, hlongest.ends_name⟩
  obtain ⟨e, he⟩ := exists_longest?_iff.2 ⟨_, hmem⟩
  obtain ⟨hkept, hreader⟩ := isLongest_of_longest? horder he
  -- Both suffixes end the name, and neither is longer than the other.
  obtain ⟨call, hcall, hsuffix⟩ := hkept.registered
  have hbytes : bytes e.1 ≤ bytes suffix := by
    rw [← hsuffix]
    exact hlongest.longest call hcall (hsuffix ▸ hkept.ends_name)
  have hbytes' := (mem_and_le_of_longest? he).2 _ hmem
  have hsame : e.1 = suffix := suffix_eq_of_bytes_eq hkept.ends_name hlongest.ends_name
    (Nat.le_antisymm hbytes hbytes')
  rw [he, hlatest.unique (hsame ▸ hreader), ← hsame]

theorem exists_candidate_iff :
    (∃ e, e ∈ candidates ⟨entries⟩ name) ↔ ∃ call ∈ calls, lower call.1 <:+ lower name := by
  constructor
  · rintro ⟨e, he⟩
    obtain ⟨hlatest, hends⟩ := (mem_candidates_order horder).1 he
    obtain ⟨call, hcall, hsuffix⟩ := hlatest.exists_mem
    exact ⟨call, hcall, hsuffix ▸ hends⟩
  · rintro ⟨call, hcall, hends⟩
    obtain ⟨reader, hlatest⟩ := exists_isLatest_of_mem hcall
    exact ⟨(lower call.1, reader), (mem_candidates_order horder).2 ⟨hlatest, hends⟩⟩

end Order

/-! ## The reader of a path -/

section Path

variable {path : Text} (hname : Path.fileName? path = some name)
include hname

theorem forPath?_of_fileName (r : Registry α) :
    r.forPath? path = (longest? (r.candidates name)).map (·.2) := by
  rw [forPath?, hname, Option.bind_some]

theorem isSupported_iff (r : Registry α) :
    r.isSupported path = true ↔ ∃ e, e ∈ r.candidates name := by
  simp only [isSupported, hname, Option.any_some, List.any_eq_true, mem_candidates,
    List.isSuffixOf_iff_suffix]

theorem exists_forPath?_iff (r : Registry α) :
    (∃ reader, r.forPath? path = some reader) ↔ ∃ e, e ∈ r.candidates name := by
  rw [← exists_longest?_iff, forPath?_of_fileName hname]
  simp only [Option.map_eq_some_iff]
  constructor
  · rintro ⟨reader, e, he, -⟩
    exact ⟨e, he⟩
  · rintro ⟨e, he⟩
    exact ⟨e.2, e, he, rfl⟩

end Path

/-- **A path is read by the latest reader of the longest suffix.** In whatever order the entries of
a registry stand, the reader for a path is the one registered last for the longest of the suffixes
that end the file name, letter case apart. There is one as soon as some suffix does, and just then
the path counts as supported. -/
theorem forPath?_order_latest_longest {path : Text} (hname : Path.fileName? path = some name)
    (horder : entries.Perm (ofCalls calls).entries) :
    (∀ reader, forPath? ⟨entries⟩ path = some reader ↔
      ∃ suffix, IsLongest calls name suffix ∧ IsLatest calls suffix reader) ∧
    forPath? ⟨entries⟩ path = forPath? (ofCalls calls) path ∧
    (isSupported ⟨entries⟩ path = true ↔ ∃ reader, forPath? ⟨entries⟩ path = some reader) ∧
    (isSupported ⟨entries⟩ path = true ↔ ∃ call ∈ calls, lower call.1 <:+ lower name) := by
  have hreader : ∀ {es : List (Text × α)}, es.Perm (ofCalls calls).entries → ∀ reader,
      forPath? ⟨es⟩ path = some reader ↔
        ∃ suffix, IsLongest calls name suffix ∧ IsLatest calls suffix reader := by
    intro es hes reader
    rw [forPath?_of_fileName hname, Option.map_eq_some_iff]
    constructor
    · rintro ⟨e, he, rfl⟩
      exact ⟨e.1, isLongest_of_longest? hes he⟩
    · rintro ⟨suffix, hlongest, hlatest⟩
      exact ⟨(suffix, reader), longest?_of_isLongest hes hlongest hlatest, rfl⟩
  refine ⟨hreader horder, ?_, ?_, ?_⟩
  · ext reader
    rw [hreader horder, ← hreader (.refl _)]
  · rw [isSupported_iff hname, exists_forPath?_iff hname]
  · rw [isSupported_iff hname, exists_candidate_iff horder]

theorem forPath?_order_overlapping :
    Path.fileName? "rtl/TOP.Cst.json".toList = some "TOP.Cst.json".toList ∧
    [(".cst.json".toList, 3), (".json".toList, 1), ([], 0)].Perm
      (ofCalls [([], 0), (".json".toList, 1), (".CST.json".toList, 2),
        (".cst.JSON".toList, 3)]).entries ∧
    forPath? ⟨[(".cst.json".toList, 3), (".json".toList, 1), ([], 0)]⟩
      "rtl/TOP.Cst.json".toList = some 3 := by
  have hname : Path.fileName? "rtl/TOP.Cst.json".toList = some "TOP.Cst.json".toList := by
    decide +kernel
  have horder : [(".cst.json".toList, 3), (".json".toList, 1), ([], 0)].Perm
      (ofCalls [([], 0), (".json".toList, 1), (".CST.json".toList, 2),
        (".cst.JSON".toList, 3)]).entries := by
    decide +kernel
  refine ⟨hname, horder, ((forPath?_order_latest_longest hname horder).1 3).2
    ⟨".cst.json".toList, ⟨⟨(".cst.JSON".toList, 3), ?_, ?_⟩, ?_, ?_⟩, ?_⟩⟩
  · simp
  · decide
  · decide +kernel
  · decide +kernel
  · exact ⟨[([], 0), (".json".toList, 1), (".CST.json".toList, 2)], ".cst.JSON".toList, [], rfl,
      by decide, by simp⟩

end DesignFacts.Registry

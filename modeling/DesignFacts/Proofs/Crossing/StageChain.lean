import DesignFacts.Analysis.Crossing
import Mathlib.Data.List.Chain
import Mathlib.Data.List.Nodup
import Mathlib.Order.Lattice.Nat

/-!
# Chains of synchronizer stages

`synchronizerStages` follows chains backwards from their ends, over at most `maxStages` stages, and
keeps the longest one for every head. This file reads the result forwards.

**The table.** `LastStage ps output s` says that among the processes `ps` the last stage that
writes `output` is `s`. The stage table holds exactly these stages.

**Chains.** `Feeds ps clock a b` says that the stage of `b` copies `a` on the clock. A chain from
`h` is a list of outputs, the first fed by `h` and every other one by the output before it.

**Heads.** Every output is fed by one signal only, so a chain is determined by its end as soon as
nothing feeds its head. That is why a chain from such a head never meets an output twice, why there
is a longest one, and why the backward walk from its end comes out at the head.

Main result: `synchronizerStages_longest_chain`.
-/

namespace DesignFacts

open Text

/-! ## Stages -/

/-- A signal that a process reads besides its clock and its reset, up to letter case. -/
def ProcessStatement.IsData (p : ProcessStatement) (clock r : Text) : Prop :=
  lower r ≠ lower clock ∧ ∀ x, p.reset.bind (·.signal) = some x → lower r ≠ lower x

/-- A process is a stage: it has a clock, writes one signal and reads one piece of data. -/
def ProcessStatement.IsStage (p : ProcessStatement) (output : Text) (s : Stage) : Prop :=
  p.kind = .sequential ∧
    ∃ clock out source pre post, p.clock = some clock ∧ clock ≠ [] ∧ p.assigned = [out] ∧
      p.reads = pre ++ source :: post ∧ p.IsData clock source ∧
      (∀ r ∈ pre ++ post, ¬ p.IsData clock r) ∧
      output = lower out ∧ s = ⟨lower source, lower clock⟩

/-- The last stage among some processes that writes an output. -/
def LastStage (ps : List ProcessStatement) (output : Text) (s : Stage) : Prop :=
  ∃ pre p post, ps = pre ++ p :: post ∧ p.IsStage output s ∧ ∀ q ∈ post, ∀ s', ¬ q.IsStage output s'

theorem ProcessStatement.clock?_eq_some_iff {p : ProcessStatement} {clock : Text} :
    p.clock? = some clock ↔ p.kind = .sequential ∧ p.clock = some clock ∧ clock ≠ [] := by
  unfold ProcessStatement.clock? ProcessStatement.isSequential
  by_cases hk : p.kind = .sequential
  · simp [hk, Option.filter_eq_some_iff]
  · simp [hk]

theorem ProcessStatement.dataReads_eq_singleton_iff {p : ProcessStatement} {clock source : Text} :
    p.dataReads clock = [source] ↔
      ∃ pre post, p.reads = pre ++ source :: post ∧ p.IsData clock source ∧
        ∀ r ∈ pre ++ post, ¬ p.IsData clock r := by
  have hdata : ∀ r, (!(same r clock || (p.reset.bind (·.signal)).any fun x => same r x)) = true ↔
      p.IsData clock r := by
    intro r
    cases hr : p.reset.bind (·.signal) <;> simp [IsData, same, hr]
  unfold ProcessStatement.dataReads
  rw [List.filter_eq_cons_iff]
  simp only [hdata, List.filter_eq_nil_iff, List.mem_append, or_imp, forall_and]
  constructor
  · rintro ⟨pre, post, hreads, hpre, hsource, hpost⟩
    exact ⟨pre, post, hreads, hsource, hpre, hpost⟩
  · rintro ⟨pre, post, hreads, hsource, hpre, hpost⟩
    exact ⟨pre, post, hreads, hpre, hsource, hpost⟩

theorem ProcessStatement.stage?_eq_some_iff {p : ProcessStatement} {output : Text} {s : Stage} :
    p.stage? = some (output, s) ↔ p.IsStage output s := by
  constructor
  · intro h
    obtain ⟨clock, hclock, h⟩ := Option.bind_eq_some_iff.1 h
    obtain ⟨hkind, hsome, hne⟩ := clock?_eq_some_iff.1 hclock
    split at h
    · rename_i out source hassigned hreads
      obtain ⟨pre, post, hsplit, hsource, hrest⟩ := dataReads_eq_singleton_iff.1 hreads
      obtain ⟨rfl, rfl⟩ := Prod.mk.inj (Option.some.inj h)
      exact ⟨hkind, clock, out, source, pre, post, hsome, hne, hassigned, hsplit, hsource, hrest,
        rfl, rfl⟩
    · cases h
  · rintro ⟨hkind, clock, out, source, pre, post, hsome, hne, hassigned, hsplit, hsource, hrest,
      rfl, rfl⟩
    have hreads := dataReads_eq_singleton_iff.2 ⟨pre, post, hsplit, hsource, hrest⟩
    unfold ProcessStatement.stage?
    rw [clock?_eq_some_iff.2 ⟨hkind, hsome, hne⟩]
    simp [hassigned, hreads]

/-! ## The table -/

theorem stageTable_concat (ps : List ProcessStatement) (p : ProcessStatement) :
    stageTable (ps ++ [p]) = match p.stage? with
      | some (output, s) => (stageTable ps).set output s
      | none => stageTable ps := by
  unfold stageTable
  rw [List.filterMap_append, List.foldl_append]
  cases h : p.stage? <;> simp [h]

theorem nodup_keys_stageTable (ps : List ProcessStatement) :
    (Assoc.keys (stageTable ps)).Nodup := by
  induction ps using List.reverseRecOn with
  | nil => simp [stageTable, Assoc.keys]
  | append_singleton ps p ih =>
    rw [stageTable_concat]
    split
    · exact Assoc.nodup_keys_set ih _ _
    · exact ih

theorem lastStage_concat {ps : List ProcessStatement} {p : ProcessStatement} {output : Text}
    {s : Stage} : LastStage (ps ++ [p]) output s ↔
      p.IsStage output s ∨ (∀ s', ¬ p.IsStage output s') ∧ LastStage ps output s := by
  constructor
  · rintro ⟨pre, q, post, hps, hq, hpost⟩
    rcases List.eq_nil_or_concat post with rfl | ⟨post, r, rfl⟩
    · obtain ⟨-, hpq⟩ := List.append_inj' hps rfl
      exact Or.inl (List.singleton_inj.1 hpq ▸ hq)
    · have hsplit : ps ++ [p] = (pre ++ q :: post) ++ [r] := by simpa using hps
      obtain ⟨hps', hpr⟩ := List.append_inj' hsplit rfl
      obtain rfl := List.singleton_inj.1 hpr
      exact Or.inr ⟨hpost p (by simp), pre, q, post, hps', hq, fun r hr => hpost r (by simp [hr])⟩
  · rintro (hp | ⟨hp, pre, q, post, rfl, hq, hpost⟩)
    · exact ⟨ps, p, [], rfl, hp, by simp⟩
    · refine ⟨pre, q, post ++ [p], by simp, hq, fun r hr => ?_⟩
      rcases List.mem_append.1 hr with hr | hr
      · exact hpost r hr
      · exact List.mem_singleton.1 hr ▸ hp

/-- The table holds the last stage of every output. -/
theorem get?_stageTable {ps : List ProcessStatement} {output : Text} {s : Stage} :
    (stageTable ps).get? output = some s ↔ LastStage ps output s := by
  induction ps using List.reverseRecOn with
  | nil => simp [stageTable, Assoc.get?, LastStage]
  | append_singleton ps p ih =>
    rw [stageTable_concat, lastStage_concat, ← ih]
    simp only [← ProcessStatement.stage?_eq_some_iff]
    cases hstage : p.stage? with
    | none => simp
    | some e =>
      obtain ⟨o, s'⟩ := e
      by_cases ho : o = output
      · subst ho
        simp [Assoc.get?_set]
      · simp [Assoc.get?_set, ho]

/-! ## Paths in a table -/

/-- `t.Path clock h o n`: following `n` stages on the clock forwards from `h` leads to `o`. -/
inductive StageTable.Path (t : StageTable) (clock h : Text) : Text → Nat → Prop
  | refl : Path t clock h h 0
  | step {a b : Text} {n : Nat} :
      Path t clock h a n → t.get? b = some ⟨a, clock⟩ → Path t clock h b (n + 1)

/-- A signal that no stage of the table writes on the clock. -/
def StageTable.IsHead (t : StageTable) (clock h : Text) : Prop :=
  ∀ a, t.get? h ≠ some ⟨a, clock⟩

namespace StageTable

variable {t : StageTable} {clock h : Text}

/-- Paths from a head are determined by their ends, so they never come back to an output. -/
theorem Path.length_unique (hh : t.IsHead clock h) {o : Text} {n m : Nat}
    (hn : t.Path clock h o n) (hm : t.Path clock h o m) : n = m := by
  induction hn generalizing m with
  | refl =>
    cases hm with
    | refl => rfl
    | step _ hfed => exact absurd hfed (hh _)
  | step _ hfed ih =>
    cases hm with
    | refl => exact absurd hfed (hh _)
    | step hm' hfed' =>
      obtain ⟨rfl, -⟩ := Stage.mk.inj (Option.some.inj (hfed.symm.trans hfed'))
      rw [ih hm']

/-- Paths are chains of outputs. -/
theorem exists_path_iff {n : Nat} :
    (∃ o, t.Path clock h o n) ↔
      ∃ os : List Text, os.length = n ∧
        (h :: os).IsChain fun a b => t.get? b = some ⟨a, clock⟩ := by
  constructor
  · rintro ⟨o, hpath⟩
    -- The induction needs to know where the chain ends.
    suffices ∃ os : List Text, os.length = n ∧ (h :: os).getLast? = some o ∧
        (h :: os).IsChain fun a b => t.get? b = some ⟨a, clock⟩ by
      obtain ⟨os, hlen, -, hchain⟩ := this
      exact ⟨os, hlen, hchain⟩
    induction hpath with
    | refl => exact ⟨[], rfl, rfl, List.isChain_singleton h⟩
    | @step a b n _ hfed ih =>
      obtain ⟨os, hlen, hlast, hchain⟩ := ih
      refine ⟨os ++ [b], by simp [hlen], List.getLast?_concat (l := h :: os), ?_⟩
      rw [← List.cons_append, List.isChain_append]
      refine ⟨hchain, List.isChain_singleton b, ?_⟩
      intro x hx y hy
      obtain rfl : a = x := Option.some.inj (hlast.symm.trans hx)
      obtain rfl : b = y := by simpa using hy
      exact hfed
  · rintro ⟨os, rfl, hchain⟩
    suffices ∃ o, (h :: os).getLast? = some o ∧ t.Path clock h o os.length by
      obtain ⟨o, -, hpath⟩ := this
      exact ⟨o, hpath⟩
    induction os using List.reverseRecOn with
    | nil => exact ⟨h, rfl, .refl⟩
    | append_singleton os b ih =>
      rw [← List.cons_append, List.isChain_append] at hchain
      obtain ⟨hchain, -, hlink⟩ := hchain
      obtain ⟨a, hlast, hpath⟩ := ih hchain
      refine ⟨b, List.getLast?_concat (l := h :: os), ?_⟩
      rw [List.length_append]
      exact .step hpath (hlink a hlast b (by simp))

/-- The outputs of a chain are reached by paths of growing length. -/
theorem path_getElem {os : List Text}
    (hchain : (h :: os).IsChain fun a b => t.get? b = some ⟨a, clock⟩) (i : Nat)
    (hi : i < os.length) : t.Path clock h os[i] (i + 1) := by
  have hlink := List.isChain_iff_getElem.1 hchain
  induction i with
  | zero => exact .step .refl (by simpa using hlink 0 (by simpa using hi))
  | succ i ih =>
    exact .step (ih (Nat.lt_of_succ_lt hi)) (hlink (i + 1) (Nat.succ_lt_succ hi))

/-- The chains from a head are no longer than the table. -/
theorem length_le_of_isChain (hh : t.IsHead clock h) {os : List Text}
    (hchain : (h :: os).IsChain fun a b => t.get? b = some ⟨a, clock⟩) : os.length ≤ t.length := by
  have hnodup : os.Nodup := by
    rw [List.nodup_iff_injective_getElem]
    intro i j hij
    have hi := path_getElem hchain i i.2
    have hj := path_getElem hchain j j.2
    simp only at hij
    rw [hij] at hi
    exact Fin.ext (Nat.succ.inj (hi.length_unique hh hj))
  have hsub : os ⊆ Assoc.keys t := by
    intro o ho
    obtain ⟨i, hi, rfl⟩ := List.getElem_of_mem ho
    cases path_getElem hchain i hi with
    | step _ hfed =>
    obtain ⟨e, he, -⟩ := Option.map_eq_some_iff.1 hfed
    have hkey : e.1 = os[i] := by simpa using List.find?_some he
    exact List.mem_map.2 ⟨e, List.mem_of_find?_eq_some he, hkey⟩
  simpa [Assoc.keys] using (hnodup.subperm hsub).length_le

/-- The longest chain from a head. -/
theorem exists_longest (hh : t.IsHead clock h) :
    ∃ n, IsGreatest {n | ∃ os : List Text, os.length = n ∧
      (h :: os).IsChain fun a b => t.get? b = some ⟨a, clock⟩} n := by
  set S := {n | ∃ os : List Text, os.length = n ∧
    (h :: os).IsChain fun a b => t.get? b = some ⟨a, clock⟩}
  have hbound : t.length ∈ upperBounds S := by
    rintro n ⟨os, rfl, hchain⟩
    exact length_le_of_isChain hh hchain
  have hne : S.Nonempty := ⟨0, [], rfl, List.isChain_singleton h⟩
  exact ⟨sSup S, Nat.sSup_mem hne ⟨_, hbound⟩, fun n hn => le_csSup ⟨_, hbound⟩ hn⟩

/-- A path can be cut off at any length. -/
theorem Path.shorten {o : Text} {n : Nat} (hpath : t.Path clock h o n) {m : Nat} (hm : m ≤ n) :
    ∃ o', t.Path clock h o' m := by
  induction hpath with
  | refl =>
    obtain rfl := Nat.le_zero.1 hm
    exact ⟨h, .refl⟩
  | @step a b n hpath hfed ih =>
    rcases Nat.lt_or_ge m (n + 1) with hlt | hge
    · exact ih (Nat.le_of_lt_succ hlt)
    · obtain rfl := Nat.le_antisymm hm hge
      exact ⟨b, .step hpath hfed⟩

/-! ## The backward walk -/

/-- Walking backwards goes along a path, from the signal at which it ends. -/
theorem path_follow (t : StageTable) (output clock : Text) (fuel : Nat) (x : Text) :
    t.Path clock (t.follow output clock fuel x).1 x (t.follow output clock fuel x).2 ∧
      (t.follow output clock fuel x).2 ≤ fuel := by
  induction fuel generalizing x with
  | zero => exact ⟨.refl, Nat.le_refl 0⟩
  | succ fuel ih =>
    unfold follow
    split
    · rename_i s hs
      split
      · rename_i hgo
        obtain ⟨hpath, hle⟩ := ih s.source
        have hfed : t.get? x = some ⟨s.source, clock⟩ := by rw [hs, ← hgo.1]
        exact ⟨.step hpath hfed, Nat.succ_le_succ hle⟩
      · exact ⟨.refl, Nat.zero_le _⟩
    · exact ⟨.refl, Nat.zero_le _⟩

theorem follow_of_isHead (hh : t.IsHead clock h) (output : Text) (fuel : Nat) :
    t.follow output clock fuel h = (h, 0) := by
  cases fuel with
  | zero => rfl
  | succ fuel =>
    unfold follow
    split
    · rename_i s hs
      rw [if_neg]
      rintro ⟨rfl, -⟩
      exact hh s.source hs
    · rfl

/-- Walking backwards along a path that leads on to the output comes out at the head. -/
theorem follow_of_path (hh : t.IsHead clock h) {output x : Text} {k N fuel : Nat}
    (hout : t.Path clock h output N) (hpath : t.Path clock h x k) (hk : k < N)
    (hfuel : k ≤ fuel) : t.follow output clock fuel x = (h, k) := by
  induction hpath generalizing fuel with
  | refl => exact follow_of_isHead hh output fuel
  | @step a b n hpath hfed ih =>
    obtain ⟨fuel, rfl⟩ := Nat.exists_eq_succ_of_ne_zero (Nat.ne_of_gt (Nat.zero_lt_of_lt hfuel))
    have hne : b ≠ output := by
      rintro rfl
      exact Nat.ne_of_lt hk ((hpath.step hfed).length_unique hh hout)
    have hrest := ih (Nat.lt_of_succ_lt hk) (Nat.le_of_succ_le_succ hfuel)
    simp [follow, hfed, hne, hrest]

theorem path_chain {output : Text} {last : Stage} (hlast : t.get? output = some last) :
    (t.chain output last).1.2 = last.clock ∧
      t.Path last.clock (t.chain output last).1.1 output (t.chain output last).2 ∧
      1 ≤ (t.chain output last).2 ∧ (t.chain output last).2 ≤ maxStages := by
  obtain ⟨hpath, hle⟩ := path_follow t output last.clock (maxStages - 1) last.source
  exact ⟨rfl, .step hpath hlast, Nat.succ_pos _, Nat.succ_le_succ hle⟩

/-- A path from a head that is no longer than `maxStages` is found as a whole. -/
theorem chain_of_path (hh : t.IsHead clock h) {output : Text} {n : Nat}
    (hpath : t.Path clock h output n) (hpos : 1 ≤ n) (hn : n ≤ maxStages) :
    ∃ last, t.get? output = some last ∧ t.chain output last = ((h, clock), n) := by
  cases hpath with
  | refl => exact absurd hpos (by simp)
  | @step a _ n hpath hfed =>
    refine ⟨⟨a, clock⟩, hfed, ?_⟩
    have hfollow : t.follow output clock (maxStages - 1) a = (h, n) :=
      follow_of_path hh (hpath.step hfed) hpath (Nat.lt_succ_self n) (Nat.le_sub_one_of_lt hn)
    simp [chain, hfollow]

end StageTable

/-! ## Counting -/

namespace StageCounts

theorem max?_concat (ns : List Nat) (n : Nat) :
    (ns ++ [n]).max? = some (max (ns.max?.getD 0) n) := by
  cases ns with
  | nil => simp
  | cons m ns =>
    rw [List.cons_append, List.max?_cons', List.max?_cons', List.foldl_append]
    rfl

/-- Counting keeps the greatest number for every key. -/
theorem get?_foldl_add (chains : List ((Text × Text) × Nat)) (k : Text × Text) :
    (chains.foldl add []).get? k = ((chains.filter fun e => e.1 = k).map Prod.snd).max? := by
  induction chains using List.reverseRecOn with
  | nil => rfl
  | append_singleton chains e ih =>
    rw [List.foldl_append, List.filter_append]
    show Assoc.get? (add (chains.foldl add []) e) k = _
    rw [add, Assoc.get?_set]
    by_cases he : e.1 = k
    · simp [he, max?_concat, ih]
    · simp [he, ih]

theorem nodup_keys_foldl_add (chains : List ((Text × Text) × Nat)) :
    (Assoc.keys (chains.foldl add [])).Nodup := by
  induction chains using List.reverseRecOn with
  | nil => simp [Assoc.keys]
  | append_singleton chains e ih =>
    rw [List.foldl_append]
    exact Assoc.nodup_keys_set ih _ _

end StageCounts

namespace StageTable

variable {t : StageTable} {entries : List (Text × Stage)}

/-- The chains of a table with a given head and clock, by their lengths. -/
def lengths (t : StageTable) (k : Text × Text) : Set Nat :=
  {d | ∃ output last, t.get? output = some last ∧ t.chain output last = (k, d)}

/-- In whatever order the entries come, the greatest length counts. -/
theorem get?_countsIn (hkeys : (Assoc.keys t).Nodup) (horder : entries.Perm t) {k : Text × Text}
    {d : Nat} : (t.countsIn entries).get? k = some d ↔ IsGreatest (t.lengths k) d := by
  have hmem : ∀ n, n ∈ (((entries.map fun e => t.chain e.1 e.2).filter fun e => e.1 = k).map
      Prod.snd) ↔ n ∈ t.lengths k := by
    intro n
    simp only [List.mem_map, List.mem_filter, decide_eq_true_eq]
    constructor
    · rintro ⟨_, ⟨⟨⟨output, last⟩, he, rfl⟩, rfl⟩, rfl⟩
      exact ⟨output, last, (Assoc.mem_iff_get? hkeys _ _).1 (horder.mem_iff.1 he), rfl⟩
    · rintro ⟨output, last, hlast, hchain⟩
      have he := horder.mem_iff.2 ((Assoc.mem_iff_get? hkeys _ _).2 hlast)
      exact ⟨(k, n), ⟨⟨(output, last), he, hchain⟩, rfl⟩, rfl⟩
  unfold countsIn
  rw [StageCounts.get?_foldl_add, List.max?_eq_some_iff]
  simp only [hmem]
  rfl

theorem perm_countsIn (hkeys : (Assoc.keys t).Nodup) (horder : entries.Perm t) :
    (t.countsIn entries).Perm (t.countsIn t) := by
  have hnodup : ∀ es, (Assoc.keys (t.countsIn es)).Nodup :=
    fun es => StageCounts.nodup_keys_foldl_add _
  rw [List.perm_ext_iff_of_nodup (hnodup _).of_map (hnodup _).of_map]
  rintro ⟨k, d⟩
  rw [Assoc.mem_iff_get? (hnodup _), Assoc.mem_iff_get? (hnodup _), get?_countsIn hkeys horder,
    get?_countsIn hkeys (List.Perm.refl t)]

/-- Every length belongs to a path. -/
theorem path_of_mem_lengths {h clock : Text} {d : Nat} (hd : d ∈ t.lengths (h, clock)) :
    1 ≤ d ∧ d ≤ maxStages ∧ ∃ o, t.Path clock h o d := by
  obtain ⟨output, last, hlast, hchain⟩ := hd
  obtain ⟨hclock, hpath, hpos, hle⟩ := path_chain hlast
  rw [hchain] at hclock hpath hpos hle
  obtain rfl : clock = last.clock := hclock
  exact ⟨hpos, hle, output, hpath⟩

theorem mem_lengths_of_path {h clock : Text} (hh : t.IsHead clock h) {o : Text} {d : Nat}
    (hpath : t.Path clock h o d) (hpos : 1 ≤ d) (hle : d ≤ maxStages) :
    d ∈ t.lengths (h, clock) := by
  obtain ⟨last, hlast, hchain⟩ := chain_of_path hh hpath hpos hle
  exact ⟨o, last, hlast, hchain⟩

/-- From a head the greatest length is that of the longest path, cut off at `maxStages`. -/
theorem isGreatest_lengths {h clock : Text} (hh : t.IsHead clock h) {n : Nat}
    (hn : IsGreatest {n | ∃ o, t.Path clock h o n} n) (hpos : 1 ≤ n) :
    IsGreatest (t.lengths (h, clock)) (min maxStages n) := by
  obtain ⟨⟨o, hpath⟩, hmax⟩ := hn
  constructor
  · obtain ⟨o', hshort⟩ := hpath.shorten (Nat.min_le_right maxStages n)
    exact mem_lengths_of_path hh hshort (Nat.le_min.2 ⟨by decide, hpos⟩) (Nat.min_le_left _ _)
  · intro d hd
    obtain ⟨-, hle, hsome⟩ := path_of_mem_lengths hd
    exact Nat.le_min.2 ⟨hle, hmax hsome⟩

end StageTable

/-! ## Exactness -/

/-- The stage of `b` copies `a` on the clock. -/
def Feeds (ps : List ProcessStatement) (clock a b : Text) : Prop := LastStage ps b ⟨a, clock⟩

/-- **Stage counts are chain lengths**, in whatever order the stage table is gone through. Every
count is the length of a chain with at most eight stages. Where nothing feeds the head on the
clock, there is a count exactly if the head feeds something, and it is the length of the longest
chain from the head, cut off at eight. The counts do not depend on the order. -/
theorem synchronizerStages_longest_chain (ps : List ProcessStatement)
    (entries : List (Text × Stage)) (horder : entries.Perm (stageTable ps)) :
    (∀ h clock d, ((h, clock), d) ∈ (stageTable ps).countsIn entries →
      1 ≤ d ∧ d ≤ 8 ∧ ∃ os : List Text, os.length = d ∧ (h :: os).IsChain (Feeds ps clock)) ∧
    (∀ h clock, (∀ a, ¬ Feeds ps clock a h) →
      (((stageTable ps).countsIn entries).get? (h, clock) = none ↔ ∀ b, ¬ Feeds ps clock h b) ∧
      ((∃ b, Feeds ps clock h b) → ∃ n,
        IsGreatest {n | ∃ os : List Text, os.length = n ∧ (h :: os).IsChain (Feeds ps clock)} n ∧
        ((stageTable ps).countsIn entries).get? (h, clock) = some (min 8 n))) ∧
    ((stageTable ps).countsIn entries).Perm (synchronizerStages ps) := by
  set t := stageTable ps with ht
  have hkeys : (Assoc.keys t).Nodup := nodup_keys_stageTable ps
  have hfeeds : ∀ clock, Feeds ps clock = fun a b => t.get? b = some ⟨a, clock⟩ := by
    intro clock
    funext a b
    exact propext get?_stageTable.symm
  have hcounts : ∀ {k d}, (t.countsIn entries).get? k = some d ↔ IsGreatest (t.lengths k) d :=
    StageTable.get?_countsIn hkeys horder
  refine ⟨?_, ?_, StageTable.perm_countsIn hkeys horder⟩
  · intro h clock d hd
    have hget := (Assoc.mem_iff_get? (StageCounts.nodup_keys_foldl_add _) _ _).1 hd
    obtain ⟨hpos, hle, hpath⟩ := StageTable.path_of_mem_lengths (hcounts.1 hget).1
    rw [hfeeds]
    exact ⟨hpos, hle, StageTable.exists_path_iff.1 hpath⟩
  · intro h clock hhead
    simp only [hfeeds] at hhead ⊢
    have hh : t.IsHead clock h := hhead
    obtain ⟨n, hn⟩ := StageTable.exists_longest hh
    have hsome : (∃ b, t.get? b = some ⟨h, clock⟩) →
        (t.countsIn entries).get? (h, clock) = some (min 8 n) := by
      rintro ⟨b, hb⟩
      have hone : 1 ≤ n := hn.2 ⟨[b], rfl, List.isChain_pair.2 hb⟩
      simp only [← StageTable.exists_path_iff] at hn
      exact hcounts.2 (StageTable.isGreatest_lengths hh hn hone)
    refine ⟨⟨fun hnone b hb => ?_, fun hnone => ?_⟩, fun hfed => ⟨n, hn, hsome hfed⟩⟩
    · rw [hsome ⟨b, hb⟩] at hnone
      cases hnone
    · rw [Option.eq_none_iff_forall_ne_some]
      intro d hd
      -- The first stage of the chain that gives a count is fed by the head.
      obtain ⟨hpos, -, hpath⟩ := StageTable.path_of_mem_lengths (hcounts.1 hd).1
      obtain ⟨os, rfl, hchain⟩ := StageTable.exists_path_iff.1 hpath
      cases os with
      | nil => exact absurd hpos (by simp)
      | cons b os => exact hnone b (List.isChain_cons_cons.1 hchain).1

/-- A process that copies a signal on a rising clock edge. -/
def register (clock output source : Text) : ProcessStatement where
  label := none
  sensitivity := [clock]
  kind := .sequential
  clock := some clock
  edge := some .rising
  reset := none
  assigned := [output]
  reads := [clock, source]
  localVariables := []
  procedureCalls := []
  functionCalls := []
  waits := []
  inArch := []
  line := 1

/-- Two stages on the clock `b` behind a register on the clock `a`, and a loop of two stages. -/
def synchronizerAndLoop : List ProcessStatement :=
  [register ['a'] ['R'] ['d'], register ['b'] ['m'] ['r'], register ['b'] ['s'] ['m'],
    register ['b'] ['x'] ['y'], register ['b'] ['y'] ['x']]

theorem synchronizerStages_longest_chain_backwards :
    (stageTable synchronizerAndLoop).reverse.Perm (stageTable synchronizerAndLoop) ∧
      (∀ a, ¬ Feeds synchronizerAndLoop ['b'] a ['r']) ∧
      Feeds synchronizerAndLoop ['b'] ['r'] ['m'] ∧
      ∃ n, IsGreatest {n | ∃ os : List Text, os.length = n ∧
          (['r'] :: os).IsChain (Feeds synchronizerAndLoop ['b'])} n ∧
        ((stageTable synchronizerAndLoop).countsIn
          (stageTable synchronizerAndLoop).reverse).get? (['r'], ['b']) = some (min 8 n) := by
  have horder := List.reverse_perm (stageTable synchronizerAndLoop)
  have hhead : ∀ a, ¬ Feeds synchronizerAndLoop ['b'] a ['r'] := by
    intro a ha
    have hother : (stageTable synchronizerAndLoop).get? ['r'] = some ⟨['d'], ['a']⟩ := by decide
    have hclock := Option.some.inj (hother.symm.trans (get?_stageTable.2 ha))
    exact absurd (Stage.mk.inj hclock).2 (by decide)
  have hfed : Feeds synchronizerAndLoop ['b'] ['r'] ['m'] := get?_stageTable.1 (by decide)
  obtain ⟨-, hlongest, -⟩ := synchronizerStages_longest_chain synchronizerAndLoop _ horder
  exact ⟨horder, hhead, hfed, (hlongest _ _ hhead).2 ⟨_, hfed⟩⟩

end DesignFacts

import DesignFacts.Proofs.Crossing.Comprehension
import DesignFacts.Proofs.Crossing.StageChain
import Mathlib.Data.List.Perm.Basic

/-!
# Crossings and the order of processes

Two tables behind `crossings` remember the order of the processes: of several stages with one
output the stage table keeps the last, and the groups of the writer table list writes in document
order. The second only reorders crossings. The first can change a stage count, but not if every
output belongs to one stage (`DistinctOutputs`): then the table holds the stages of all processes
and nothing else, so its look-ups agree for every order, and stage counts are made of look-ups.

Main result: `crossings_perm`.
-/

namespace DesignFacts

open Text

/-! ## One stage for every output -/

/-- No two processes are stages with the same output. -/
def DistinctOutputs (ps : List ProcessStatement) : Prop :=
  ps.Pairwise fun p q => ∀ output s s', p.IsStage output s → ¬ q.IsStage output s'

variable {ps qs : List ProcessStatement}

theorem DistinctOutputs.perm (h : DistinctOutputs ps) (hperm : ps.Perm qs) : DistinctOutputs qs :=
  List.Pairwise.perm h hperm fun hpq output s s' hq hp => hpq output s' s hp hq

theorem distinctOutputs_iff_nodup :
    DistinctOutputs ps ↔ ((ps.filterMap ProcessStatement.stage?).map Prod.fst).Nodup := by
  unfold DistinctOutputs
  rw [List.Nodup, List.pairwise_map, List.pairwise_filterMap]
  refine List.Pairwise.iff fun p q => ?_
  simp only [← ProcessStatement.stage?_eq_some_iff, Prod.forall]
  constructor
  · rintro h output s hp output' s' hq rfl
    exact h output s s' hp hq
  · intro h output s s' hp hq
    exact h output s hp output s' hq rfl

/-- With one stage for every output, no stage is overwritten. -/
theorem DistinctOutputs.lastStage_iff (h : DistinctOutputs ps) {output : Text} {s : Stage} :
    LastStage ps output s ↔ ∃ p ∈ ps, p.IsStage output s := by
  constructor
  · rintro ⟨pre, p, post, rfl, hp, -⟩
    exact ⟨p, by simp, hp⟩
  · rintro ⟨p, hmem, hp⟩
    obtain ⟨pre, post, rfl⟩ := List.append_of_mem hmem
    have hpost := (List.pairwise_cons.1 (List.pairwise_append.1 h).2.1).1
    exact ⟨pre, p, post, rfl, hp, fun q hq s' => hpost q hq output s s' hp⟩

theorem DistinctOutputs.get?_stageTable_perm (h : DistinctOutputs ps) (hperm : ps.Perm qs)
    (output : Text) : (stageTable qs).get? output = (stageTable ps).get? output := by
  refine Option.ext fun s => ?_
  rw [get?_stageTable, get?_stageTable, h.lastStage_iff, (h.perm hperm).lastStage_iff]
  simp only [hperm.mem_iff]

/-! ## Stage counts are made of look-ups -/

namespace StageTable

variable {t u : StageTable}

theorem follow_congr (htu : ∀ k, t.get? k = u.get? k) (output clock : Text) (fuel : Nat)
    (x : Text) : t.follow output clock fuel x = u.follow output clock fuel x := by
  induction fuel generalizing x with
  | zero => rfl
  | succ fuel ih => simp only [follow, htu, ih]

theorem lengths_congr (htu : ∀ k, t.get? k = u.get? k) (k : Text × Text) :
    t.lengths k = u.lengths k := by
  simp only [lengths, chain, htu, follow_congr htu]

end StageTable

theorem DistinctOutputs.get?_synchronizerStages_perm (h : DistinctOutputs ps) (hperm : ps.Perm qs)
    (k : Text × Text) : (synchronizerStages qs).get? k = (synchronizerStages ps).get? k := by
  refine Option.ext fun d => ?_
  unfold synchronizerStages
  rw [StageTable.get?_countsIn (nodup_keys_stageTable qs) (List.Perm.refl _),
    StageTable.get?_countsIn (nodup_keys_stageTable ps) (List.Perm.refl _),
    StageTable.lengths_congr (h.get?_stageTable_perm hperm)]

/-! ## Crossings -/

theorem writers_writerTable_perm (hperm : ps.Perm qs) (signal : Text) :
    ((writerTable qs).writers signal).Perm ((writerTable ps).writers signal) := by
  rw [writers_writerTable, writers_writerTable, clocked, clocked]
  exact (hperm.symm.filterMap _).flatMap_right _

/-- The crossings of one read depend on the counts at that signal and clock only, and come in the
order of the writers. -/
theorem crossingsOf_perm {h h' : Harvest} (hsignals : h'.signals = h.signals)
    (hports : h'.ports = h.ports) {counts counts' : StageCounts}
    (hcounts : ∀ k, counts'.get? k = counts.get? k) (reader : ProcessStatement)
    (clock signal : Text) {writers writers' : List (Text × ProcessStatement)}
    (hwriters : writers'.Perm writers) :
    (crossingsOf h' counts' reader clock signal writers').Perm
      (crossingsOf h counts reader clock signal writers) := by
  have hbits : isMultiBit h' signal = isMultiBit h signal := by
    simp only [isMultiBit, Harvest.declaredType?, Harvest.signal?, hsignals, hports]
  unfold crossingsOf
  rw [hbits, hcounts]
  exact (hwriters.filter _).map _

/-- **The order of processes does not matter to crossings.** If no two processes are stages with
the same output, the processes in another order have the same crossings in another order, equal in
every field. -/
theorem crossings_perm (h : Harvest) (ps : List ProcessStatement) (hperm : h.processes.Perm ps)
    (hdistinct : DistinctOutputs h.processes) :
    (crossings { h with processes := ps }).Perm (crossings h) := by
  have hcounts := hdistinct.get?_synchronizerStages_perm hperm
  unfold crossings
  refine hperm.symm.flatMap fun reader _ => ?_
  cases reader.clock? with
  | none => exact List.Perm.refl _
  | some clock =>
    refine List.Perm.flatMap_left _ fun signal _ => ?_
    exact crossingsOf_perm rfl rfl hcounts reader clock signal
      (writers_writerTable_perm hperm signal)

/-- Two registers on the clock `a`, read on the clock `b` through two stages and through one. -/
def twoCrossings : Harvest where
  processes := [register ['a'] ['p'] ['d'], register ['a'] ['q'] ['d'], register ['b'] ['m'] ['P'],
    register ['b'] ['n'] ['q'], register ['b'] ['s'] ['M']]

theorem crossings_perm_reverse :
    twoCrossings.processes.Perm twoCrossings.processes.reverse ∧
      DistinctOutputs twoCrossings.processes ∧
      (crossings twoCrossings).map (fun c => (c.signal, c.stages)) = [(['P'], 2), (['q'], 1)] ∧
      (crossings { twoCrossings with processes := twoCrossings.processes.reverse }).Perm
        (crossings twoCrossings) := by
  have hperm := (List.reverse_perm twoCrossings.processes).symm
  have hdistinct : DistinctOutputs twoCrossings.processes :=
    distinctOutputs_iff_nodup.2 (by decide)
  exact ⟨hperm, hdistinct, by decide, crossings_perm twoCrossings _ hperm hdistinct⟩

end DesignFacts

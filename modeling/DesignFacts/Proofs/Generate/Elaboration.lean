import DesignFacts.Document.Behaviour
import DesignFacts.Proofs.Extraction.Record
import DesignFacts.Proofs.LetterCase.Extraction
import DesignFacts.Proofs.Text.Numeral

/-!
# Elaborating generate statements

Elaborating goes over trees of generate statements, says of each whether it can be elaborated and
how many iterations it has, and counts those that can. This file says exactly which statements get
which number, whatever they held before, and when there is no result at all.

**One scheme.** The bounds of a loop have a distance if both have values and the direction is `to`
or `downto` (`Scheme.Spans`). The number of iterations is the distance plus one, unless this is
negative. Both the distance and the number have to be signed 64-bit numbers (`Scheme.Overflows`).

**Trees.** Elaborating runs into a fault exactly if some scheme does. Otherwise the statements
before and after correspond one by one, at all depths, and differ in their iterations only
(`Elaborated`). The count grows with every statement that is elaborated (`count_elaborateAll`).

Main result: `elaborateAll_exact`.
-/

namespace DesignFacts

open Text Numeral

/-! ## Distances -/

/-- `Distance direction low high d`: between two bounds in a direction there is the distance `d`. -/
inductive Bound.Distance (direction : Text) (low high : Int) : Int → Prop
  | up (h : isWord direction "to" = true) : Distance direction low high (high - low)
  | down (h : isWord direction "downto" = true) : Distance direction low high (low - high)

namespace Bound

variable {direction : Text} {low high d : Int}

theorem isWord_to_of_downto (h : isWord direction "downto" = true) :
    isWord direction "to" = false := by
  rw [Bool.eq_false_iff]
  intro hto
  have hlower : lower "downto".toList = lower "to".toList :=
    (same_iff.1 h).symm.trans (same_iff.1 hto)
  exact absurd hlower (by decide)

/-- Two bounds with a distance are that far apart, if machine numbers can say so. -/
theorem iterationsBetween_of_distance (h : Distance direction low high d) :
    iterationsBetween direction low high =
      if IsWord d ∧ IsWord (d + 1) then .ok (if d + 1 < 0 then none else some (d + 1))
      else .error .iterations := by
  have hfits : (fits d && fits (d + 1)) = true ↔ IsWord d ∧ IsWord (d + 1) := by
    rw [Bool.and_eq_true, fits_iff_isWord, fits_iff_isWord]
  unfold iterationsBetween
  cases h with
  | up hto =>
    rw [if_pos hto]
    simp only [hfits]
  | down hdown =>
    rw [isWord_to_of_downto hdown, if_neg (by simp), if_pos hdown]
    simp only [hfits]

theorem iterationsBetween_eq_none (h : ∀ d, ¬ Distance direction low high d) :
    iterationsBetween direction low high = .ok none := by
  have hto : ¬ isWord direction "to" = true := fun hto => h _ (.up hto)
  have hdown : ¬ isWord direction "downto" = true := fun hdown => h _ (.down hdown)
  rw [iterationsBetween, if_neg hto, if_neg hdown]

end Bound

/-! ## Schemes -/

namespace Scheme

variable {m : Constants} {s : Scheme}

def bounds : Scheme → List Text
  | loop _ low high _ => [low, high]
  | _ => []

/-- `s.Spans m d`: the scheme is a loop, both bounds have values, and there is the distance `d`
between them in its direction. -/
inductive Spans (m : Constants) : Scheme → Int → Prop
  | intro {parameter low high direction : Text} {l h d : Int}
      (hlow : Bound.evaluate m low = .ok (some l)) (hhigh : Bound.evaluate m high = .ok (some h))
      (hdistance : Bound.Distance direction l h d) : Spans m (loop parameter low high direction) d

/-- The distance between the bounds, or the number of iterations, is no signed 64-bit number. -/
def Overflows (m : Constants) (s : Scheme) : Prop :=
  ∃ d, s.Spans m d ∧ (¬ IsWord d ∨ ¬ IsWord (d + 1))

/-- The number of iterations is the one that a scheme has, or none if it has none. -/
def HasIterations (m : Constants) (s : Scheme) (iterations : Option Int) : Prop :=
  (∃ d, s.Spans m d ∧ 0 ≤ d + 1 ∧ iterations = some (d + 1)) ∨
    (∀ d, s.Spans m d → d + 1 < 0) ∧ iterations = none

theorem iterations_of_spans {d : Int} (h : s.Spans m d) :
    s.iterations m =
      if IsWord d ∧ IsWord (d + 1) then .ok (if d + 1 < 0 then none else some (d + 1))
      else .error .iterations := by
  obtain ⟨hlow, hhigh, hdistance⟩ := h
  rw [← Bound.iterationsBetween_of_distance hdistance, iterations, hlow, hhigh]
  rfl

theorem Spans.unique {d d' : Int} (h : s.Spans m d) (h' : s.Spans m d') : d = d' := by
  obtain ⟨hlow, hhigh, hdistance⟩ := h
  obtain ⟨hlow', hhigh', hdistance'⟩ := h'
  cases hlow.symm.trans hlow'
  cases hhigh.symm.trans hhigh'
  cases hdistance with
  | up hto =>
    cases hdistance' with
    | up _ => rfl
    | down hdown =>
      rw [Bound.isWord_to_of_downto hdown] at hto
      cases hto
  | down hdown =>
    cases hdistance' with
    | up hto =>
      rw [Bound.isWord_to_of_downto hdown] at hto
      cases hto
    | down _ => rfl

/-- Without a distance there are no iterations. -/
theorem iterations_eq_none (hbounds : ∀ t ∈ s.bounds, ∀ e, Bound.evaluate m t ≠ .error e)
    (h : ∀ d, ¬ s.Spans m d) : s.iterations m = .ok none := by
  cases s with
  | loop parameter low high direction =>
    cases hlow : Bound.evaluate m low with
    | error e => exact absurd hlow (hbounds low (by simp [bounds]) e)
    | ok l? =>
      cases hhigh : Bound.evaluate m high with
      | error e => exact absurd hhigh (hbounds high (by simp [bounds]) e)
      | ok h? =>
        rw [iterations, hlow, hhigh]
        cases l? with
        | none => rfl
        | some l =>
          cases h? with
          | none => rfl
          | some h' =>
            exact Bound.iterationsBetween_eq_none fun d hd => h d ⟨hlow, hhigh, hd⟩
  | condition _ => rfl
  | choice _ _ => rfl

/-- **The iterations of one scheme.** -/
theorem iterations_spec (hbounds : ∀ t ∈ s.bounds, ∀ e, Bound.evaluate m t ≠ .error e) :
    (s.Overflows m ∧ s.iterations m = .error .iterations) ∨
      ¬ s.Overflows m ∧ ∃ iterations, s.iterations m = .ok iterations ∧
        s.HasIterations m iterations := by
  by_cases hspans : ∃ d, s.Spans m d
  · obtain ⟨d, hd⟩ := hspans
    rw [iterations_of_spans hd]
    by_cases hword : IsWord d ∧ IsWord (d + 1)
    · refine .inr ⟨?_, _, if_pos hword, ?_⟩
      · rintro ⟨d', hd', hlarge⟩
        obtain rfl := hd.unique hd'
        exact hlarge.elim (absurd hword.1) (absurd hword.2)
      · by_cases hneg : d + 1 < 0
        · refine .inr ⟨fun d' hd' => ?_, if_pos hneg⟩
          rwa [← hd.unique hd']
        · exact .inl ⟨d, hd, by omega, if_neg hneg⟩
    · refine .inl ⟨⟨d, hd, ?_⟩, if_neg hword⟩
      by_cases hd : IsWord d
      · exact .inr fun hnext => hword ⟨hd, hnext⟩
      · exact .inl hd
  · have hnone : ∀ d, ¬ s.Spans m d := fun d hd => hspans ⟨d, hd⟩
    refine .inr ⟨fun ⟨d, hd, _⟩ => hnone d hd, none, iterations_eq_none hbounds hnone, ?_⟩
    exact .inr ⟨fun d hd => absurd hd (hnone d), rfl⟩

/-- Schemes run into no fault exactly if none of them does. -/
theorem faults_eq_ok_iff {ss : List Scheme} :
    faults m ss = .ok () ↔ ∀ s ∈ ss, ∃ iterations, s.iterations m = .ok iterations := by
  induction ss with
  | nil => exact ⟨fun _ s hs => absurd hs List.not_mem_nil, fun _ => rfl⟩
  | cons s ss ih =>
    rw [List.forall_mem_cons, ← ih]
    show (((s.iterations m).map fun _ => ()).bind fun _ => faults m ss) = .ok () ↔ _
    cases s.iterations m with
    | error e => exact ⟨fun h => (nomatch h), fun ⟨⟨_, h⟩, _⟩ => (nomatch h)⟩
    | ok iterations => exact ⟨fun h => ⟨⟨iterations, rfl⟩, h⟩, fun h => h.2⟩

end Scheme

/-! ## Trees -/

namespace Generate

variable {m : Constants}

/-- `g.Elaborated m g'`: the statement `g'` is `g` with its number of iterations, and with nothing
else changed but the iterations of the statements in it. -/
structure Elaborated (m : Constants) (g g' : Generate) : Prop where
  unchanged : g'.forget = g.forget
  counted :
    (∃ d, g.scheme.Spans m d ∧ 0 ≤ d + 1 ∧ g'.canElaborate = true ∧ g'.iterationCount = d + 1) ∨
    (∀ d, g.scheme.Spans m d → d + 1 < 0) ∧ g'.canElaborate = false ∧ g'.iterationCount = -1

theorem elaborated_of_hasIterations {g g' : Generate} {iterations : Option Int}
    (hforget : g'.forget = g.forget) (h : g.scheme.HasIterations m iterations)
    (hcan : g'.canElaborate = iterations.isSome)
    (hcount : g'.iterationCount = iterations.getD (-1)) : g.Elaborated m g' := by
  refine ⟨hforget, ?_⟩
  rw [hcan, hcount]
  rcases h with ⟨d, hd, hnonneg, rfl⟩ | ⟨hneg, rfl⟩
  · exact .inl ⟨d, hd, hnonneg, rfl, rfl⟩
  · exact .inr ⟨hneg, rfl, rfl⟩

/-- The bounds of all schemes are evaluated without a fault. -/
def BoundsEvaluate (m : Constants) (gs : List Generate) : Prop :=
  ∀ g ∈ gs, ∀ t ∈ g.scheme.bounds, ∀ e, Bound.evaluate m t ≠ .error e

mutual

theorem forall₂_elaborate : ∀ {g g' : Generate} {count : Nat}, BoundsEvaluate m g.walk →
    elaborate m g = .ok (count, g') → List.Forall₂ (Elaborated m) g.walk g'.walk
  | ⟨label, scheme, inArch, line, canElaborate, iterationCount, signals, instances, processes,
      assignments, generates⟩, g', count, hbounds, h => by
    have hforget := forget_elaborate h
    obtain ⟨iterations, innerCount, inner, hscheme, hinner, -, rfl⟩ := exists_of_elaborate h
    have hown : scheme.HasIterations m iterations := by
      rcases Scheme.iterations_spec (hbounds _ List.mem_cons_self) with
        ⟨-, hfault⟩ | ⟨-, n, hn, hhas⟩
      · cases hscheme.symm.trans hfault
      · cases hscheme.symm.trans hn
        exact hhas
    have hrest : List.Forall₂ (Elaborated m) (walkAll generates) (walkAll inner) :=
      forall₂_elaborateAll (fun g hg => hbounds g (List.mem_cons_of_mem _ hg)) hinner
    exact .cons (elaborated_of_hasIterations hforget hown rfl rfl) hrest

theorem forall₂_elaborateAll : ∀ {gs gs' : List Generate} {count : Nat},
    BoundsEvaluate m (walkAll gs) → elaborateAll m gs = .ok (count, gs') →
      List.Forall₂ (Elaborated m) (walkAll gs) (walkAll gs')
  | [], gs', count, _, h => by
    cases h
    exact .nil
  | g :: gs, all, count, hbounds, h => by
    rw [elaborateAll] at h
    obtain ⟨⟨own, g'⟩, hg, h⟩ := bind_eq_ok_iff.1 h
    obtain ⟨⟨rest, gs'⟩, hgs, h⟩ := bind_eq_ok_iff.1 h
    cases h
    rw [walkAll, walkAll]
    refine List.rel_append ?_ ?_
    · exact forall₂_elaborate (fun g hg => hbounds g (List.mem_append_left _ hg)) hg
    · exact forall₂_elaborateAll (fun g hg => hbounds g (List.mem_append_right _ hg)) hgs

end

mutual

theorem count_elaborate : ∀ {g g' : Generate} {count : Nat}, elaborate m g = .ok (count, g') →
    count = g'.walk.countP (·.canElaborate)
  | ⟨label, scheme, inArch, line, canElaborate, iterationCount, signals, instances, processes,
      assignments, generates⟩, g', count, h => by
    obtain ⟨iterations, innerCount, inner, -, hinner, rfl, rfl⟩ := exists_of_elaborate h
    have hcount : innerCount = (walkAll inner).countP (·.canElaborate) := count_elaborateAll hinner
    rw [walk, List.countP_cons, ← hcount, Nat.add_comm]

/-- The number that is returned counts the statements that can be elaborated, at all depths. -/
theorem count_elaborateAll : ∀ {gs gs' : List Generate} {count : Nat},
    elaborateAll m gs = .ok (count, gs') → count = (walkAll gs').countP (·.canElaborate)
  | [], gs', count, h => by
    cases h
    rfl
  | g :: gs, all, count, h => by
    rw [elaborateAll] at h
    obtain ⟨⟨own, g'⟩, hg, h⟩ := bind_eq_ok_iff.1 h
    obtain ⟨⟨rest, gs'⟩, hgs, h⟩ := bind_eq_ok_iff.1 h
    cases h
    rw [walkAll, List.countP_append, ← count_elaborate hg, ← count_elaborateAll hgs]

end

theorem elaborateAll_eq_ok_iff {gs : List Generate} :
    (∃ count gs', elaborateAll m gs = .ok (count, gs')) ↔
      ∀ g ∈ walkAll gs, ∃ iterations, g.scheme.iterations m = .ok iterations := by
  have hfaults : Scheme.faults m ((walkAll gs).map (·.scheme)) = .ok () ↔
      ∀ g ∈ walkAll gs, ∃ iterations, g.scheme.iterations m = .ok iterations := by
    rw [Scheme.faults_eq_ok_iff, List.forall_mem_map]
  rw [← hfaults, ← elaborateAll_map m gs]
  cases elaborateAll m gs with
  | error e => exact ⟨fun ⟨_, _, h⟩ => (nomatch h), fun h => (nomatch h)⟩
  | ok done => exact ⟨fun _ => rfl, fun _ => ⟨done.1, done.2, rfl⟩⟩

/-- **Elaborating is exact.** Let the bounds of all generate statements, at all depths, be evaluated
without a fault. There is no result exactly if the distance between the bounds of some loop, or the
number of its iterations, is no signed 64-bit number. Otherwise every statement at every depth is
marked with the number of its iterations, or as without one where it has none, whatever it held
before; nothing else changes; and the number that is returned is that of the marked statements. -/
theorem elaborateAll_exact (m : Constants) (gs : List Generate)
    (hbounds : ∀ g ∈ walkAll gs, ∀ t ∈ g.scheme.bounds, ∀ e, Bound.evaluate m t ≠ .error e) :
    ((∃ e, elaborateAll m gs = .error e) ↔ ∃ g ∈ walkAll gs, g.scheme.Overflows m) ∧
    ((∀ g ∈ walkAll gs, ¬ g.scheme.Overflows m) →
      ∃ count gs', elaborateAll m gs = .ok (count, gs') ∧ forgetAll gs' = forgetAll gs ∧
        List.Forall₂ (Elaborated m) (walkAll gs) (walkAll gs') ∧
        count = (walkAll gs').countP (·.canElaborate)) := by
  -- One statement overflows exactly if its own count fails, and the first failure ends the run.
  have hok : (∃ count gs', elaborateAll m gs = .ok (count, gs')) ↔
      ∀ g ∈ walkAll gs, ¬ g.scheme.Overflows m := by
    rw [elaborateAll_eq_ok_iff]
    refine forall₂_congr fun g hg => ?_
    rcases Scheme.iterations_spec (hbounds g hg) with ⟨hlarge, hfault⟩ | ⟨hsmall, n, hn, -⟩
    · exact ⟨fun ⟨n, hn⟩ => (nomatch hfault.symm.trans hn), fun h => absurd hlarge h⟩
    · exact ⟨fun _ => hsmall, fun _ => ⟨n, hn⟩⟩
  constructor
  · rw [← not_iff_not, not_exists, not_exists]
    simp only [not_and]
    rw [← hok]
    cases elaborateAll m gs with
    | error e => exact ⟨fun h => absurd rfl (h e), fun ⟨_, _, h⟩ => (nomatch h)⟩
    | ok done => exact ⟨fun _ => ⟨done.1, done.2, rfl⟩, fun _ e h => (nomatch h)⟩
  · intro hsmall
    obtain ⟨count, gs', hgs'⟩ := hok.2 hsmall
    exact ⟨count, gs', hgs', forgetAll_elaborateAll hgs', forall₂_elaborateAll hbounds hgs',
      count_elaborateAll hgs'⟩

/-- A statement with what an earlier elaboration has left in it. -/
def stale (canElaborate : Bool) (iterationCount : Int) (scheme : Scheme)
    (generates : List Generate) : Generate :=
  ⟨[], scheme, [], 1, canElaborate, iterationCount, [], [], [], [], generates⟩

/-- Eight lanes, and in each a loop down from `N - 1`, a conditional part, an empty loop, and a loop
whose bound is unknown. What they hold before is right for none of them. -/
def lanes : List Generate :=
  [stale false 8 (.loop ['i'] ['0'] ['7'] ['T', 'o'])
    [stale true (-1) (.loop ['j'] ['N', '-', '1'] ['0'] ['d', 'o', 'w', 'n', 't', 'o']) [],
      stale true 77 (.condition ['e', 'n']) [],
      stale false 77 (.loop ['k'] ['3'] ['1'] ['t', 'o']) [],
      stale true (-1) (.loop ['k'] ['0'] ['M'] ['t', 'o']) []]]

/-- A loop over all nonnegative signed 64-bit numbers, in a conditional part. -/
def longest : List Generate :=
  [stale false (-1) (.condition ['e', 'n'])
    [stale false (-1) (.loop ['i'] ['0'] (decimal 9223372036854775807) ['t', 'o']) []]]

theorem elaborateAll_exact_lanes :
    (∀ g ∈ walkAll lanes, ∀ t ∈ g.scheme.bounds, ∀ e, Bound.evaluate [(['n'], 4)] t ≠ .error e) ∧
    (∃ count gs', elaborateAll [(['n'], 4)] lanes = .ok (count, gs') ∧
      List.Forall₂ (Elaborated [(['n'], 4)]) (walkAll lanes) (walkAll gs') ∧
      (walkAll gs').map (fun g => (g.canElaborate, g.iterationCount)) =
        [(true, 8), (true, 4), (false, -1), (false, -1), (false, -1)] ∧
      count = 2) ∧
    (∃ g ∈ walkAll longest, g.scheme.Overflows []) ∧
    ∃ e, elaborateAll [] longest = .error e := by
  have hevaluates {m : Constants} {gs : List Generate}
      (h : ∀ g ∈ walkAll gs, ∀ t ∈ g.scheme.bounds, (Bound.evaluate m t).toOption.isSome = true) :
      ∀ g ∈ walkAll gs, ∀ t ∈ g.scheme.bounds, ∀ e, Bound.evaluate m t ≠ .error e := by
    intro g hg t ht e hfault
    have hsome := h g hg t ht
    rw [hfault] at hsome
    cases hsome
  have hlanes : ∀ g ∈ walkAll lanes, ∀ t ∈ g.scheme.bounds, ∀ e,
      Bound.evaluate [(['n'], 4)] t ≠ .error e := hevaluates (by decide +kernel)
  have hlongest : ∀ g ∈ walkAll longest, ∀ t ∈ g.scheme.bounds, ∀ e,
      Bound.evaluate [] t ≠ .error e := hevaluates (by decide +kernel)
  obtain ⟨⟨count, gs'⟩, hgs', hnumbers⟩ := exists_ok_of_any
    (x := elaborateAll [(['n'], 4)] lanes)
    (p := fun done => (walkAll done.2).map (fun g => (g.canElaborate, g.iterationCount)) ==
      [(true, 8), (true, 4), (false, -1), (false, -1), (false, -1)] && done.1 == 2)
    (by decide +kernel)
  obtain ⟨hfault, hexact⟩ := elaborateAll_exact [(['n'], 4)] lanes hlanes
  have hsmall : ∀ g ∈ walkAll lanes, ¬ g.scheme.Overflows [(['n'], 4)] := by
    intro g hg hlarge
    obtain ⟨e, he⟩ := hfault.2 ⟨g, hg, hlarge⟩
    cases he.symm.trans hgs'
  obtain ⟨count', gs'', hgs'', -, helaborated, -⟩ := hexact hsmall
  cases hgs'.symm.trans hgs''
  simp only [Bool.and_eq_true, beq_iff_eq] at hnumbers
  have hlarge : ∃ g ∈ walkAll longest, g.scheme.Overflows [] := by
    refine ⟨_, List.mem_cons_of_mem _ List.mem_cons_self, 9223372036854775807, ?_, .inr (by decide)⟩
    exact .intro (l := 0) (h := 9223372036854775807) (by decide +kernel) (by decide +kernel)
      (.up (by decide))
  exact ⟨hlanes, ⟨count, gs', hgs', helaborated, hnumbers⟩, hlarge,
    (elaborateAll_exact [] longest hlongest).1.2 hlarge⟩

end Generate

end DesignFacts

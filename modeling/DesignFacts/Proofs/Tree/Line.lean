import DesignFacts.Tree.Dump
import Mathlib.Data.List.Pairwise

/-!
# Rows and line ends

The row of an offset is searched by halving the list of the places where lines start. This file
shows that it is the number of line ends before the offset, for every offset: before, at and behind
a line end, inside a character and beyond the end of the source.

**The search.** A test that holds up to a place and fails from there on is decided by that place,
and halving keeps the place between its two ends (`partitionFrom_eq`). In a row without a pass behind
a failure, the place is the number of passes (`partitionPoint_eq_countP`).

**Line starts** increase (`pairwise_offsetsFrom`), and those at an offset or before it are the first
line and one for each line end before the offset (`countP_offsetsFrom`).

Main result: `rowAt_lineStarts`.
-/

namespace DesignFacts

open Text

/-! ## The search -/

section Search

variable {p : Nat → Bool} {xs : List Nat}

/-- The search finds the place that decides the test, if this lies between its two ends. -/
theorem partitionFrom_eq {xs : Array Nat} {place base size : Nat}
    (hplace : ∀ i, xs[i]?.any p = true ↔ i < place) (hbase : base ≤ place)
    (hsize : place ≤ base + size) : partitionFrom p xs base size = place := by
  induction size using Nat.strongRecOn generalizing base with
  | _ size ih =>
    rw [partitionFrom]
    split
    · -- The half that is left still has the place between its ends.
      dsimp only
      split
      · rename_i hmid
        rw [hplace] at hmid
        exact ih _ (by omega) (by omega) (by omega)
      · rename_i hmid
        rw [hplace] at hmid
        exact ih _ (by omega) hbase (by omega)
    · split
      · rename_i hlast
        rw [hplace] at hlast
        omega
      · rename_i hlast
        rw [hplace] at hlast
        omega

/-- In a row without a pass behind a failure, the passes are those before their number. -/
theorem any_getElem?_iff_lt_countP (hmono : xs.Pairwise fun x y => p y = true → p x = true)
    (i : Nat) : xs[i]?.any p = true ↔ i < xs.countP p := by
  induction xs generalizing i with
  | nil => simp
  | cons x xs ih =>
    obtain ⟨hhead, htail⟩ := List.pairwise_cons.1 hmono
    by_cases hx : p x = true
    · cases i with
      | zero => simp [hx]
      | succ i => simpa [hx] using ih htail i
    · have hnone : xs.countP p = 0 := List.countP_eq_zero.2 fun y hy hpy => hx (hhead y hy hpy)
      cases i with
      | zero => simp [hx, hnone]
      | succ i => simpa [hx, hnone] using ih htail i

theorem partitionPoint_eq_countP (hmono : xs.Pairwise fun x y => p y = true → p x = true) :
    partitionPoint p xs.toArray = xs.countP p := by
  refine partitionFrom_eq (fun i => ?_) (Nat.zero_le _) ?_
  · rw [List.getElem?_toArray]
    exact any_getElem?_iff_lt_countP hmono i
  · rw [List.size_toArray, Nat.zero_add]
    exact List.countP_le_length

end Search

/-! ## Line starts -/

theorem le_of_mem_offsetsFrom {c : Char} {offset i : Nat} {t : Text}
    (h : i ∈ offsetsFrom c offset t) : offset ≤ i := by
  induction t generalizing offset with
  | nil => simp [offsetsFrom] at h
  | cons d t ih =>
    rw [offsetsFrom] at h
    split at h
    · rcases List.mem_cons.1 h with rfl | h
      · exact Nat.le_refl _
      · exact Nat.le_trans (Nat.le_add_right _ _) (ih h)
    · exact Nat.le_trans (Nat.le_add_right _ _) (ih h)

theorem pairwise_offsetsFrom (c : Char) (offset : Nat) (t : Text) :
    (offsetsFrom c offset t).Pairwise (· < ·) := by
  induction t generalizing offset with
  | nil => exact .nil
  | cons d t ih =>
    rw [offsetsFrom]
    split
    · refine List.pairwise_cons.2 ⟨fun i hi => ?_, ih _⟩
      have hle := le_of_mem_offsetsFrom hi
      have hpos := d.utf8Size_pos
      omega
    · exact ih _

/-- The line ends before an offset are those of the characters before it. -/
theorem countP_offsetsFrom (n offset : Nat) (t : Text) :
    (offsetsFrom '\n' offset t).countP (fun i => decide (i + 1 ≤ offset + n)) =
      (takeBytes n t).count '\n' := by
  induction t generalizing n offset with
  | nil => rfl
  | cons d t ih =>
    by_cases hd : d.utf8Size ≤ n
    · have hlater := ih (n - d.utf8Size) (offset + d.utf8Size)
      rw [Nat.add_assoc, Nat.add_sub_of_le hd] at hlater
      rw [offsetsFrom, takeBytes, if_pos hd, List.count_cons, ← hlater]
      split
      · rename_i hline
        have hpos := d.utf8Size_pos
        rw [List.countP_cons, if_pos (by simp; omega)]
      · rfl
    · -- The offset lies in this character or before it.
      have hnone : ∀ i ∈ offsetsFrom '\n' (offset + d.utf8Size) t, ¬ i + 1 ≤ offset + n := by
        intro i hi
        have hle := le_of_mem_offsetsFrom hi
        omega
      rw [offsetsFrom, takeBytes, if_neg hd, List.count_nil, List.countP_eq_zero]
      intro i hi
      split at hi
      · rename_i hline
        obtain rfl := beq_iff_eq.1 hline
        have hsize : '\n'.utf8Size = 1 := rfl
        rcases List.mem_cons.1 hi with rfl | hi
        · simp
          omega
        · simpa using hnone i hi
      · simpa using hnone i hi

/-- **The row of an offset is the number of line ends before it.** -/
theorem rowAt_lineStarts (source : Text) (offset : Nat) :
    rowAt (lineStarts source) offset = (takeBytes offset source).count '\n' := by
  have hmono : (0 :: (offsetsFrom '\n' 0 source).map (· + 1)).Pairwise fun x y =>
      decide (y ≤ offset) = true → decide (x ≤ offset) = true := by
    refine List.pairwise_cons.2 ⟨fun _ _ _ => by simp, ?_⟩
    refine List.pairwise_map.2 ((pairwise_offsetsFrom '\n' 0 source).imp fun {i j} hij => ?_)
    simp only [decide_eq_true_eq]
    omega
  have hcount := countP_offsetsFrom offset 0 source
  rw [Nat.zero_add] at hcount
  rw [rowAt, lineStarts, partitionPoint_eq_countP hmono, List.countP_cons, List.countP_map]
  simpa [Function.comp_def] using hcount

end DesignFacts

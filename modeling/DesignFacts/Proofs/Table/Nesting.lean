import DesignFacts.Table.Basic
import Mathlib.Data.List.Basic

/-!
# Rows of nested generate statements

The generate rows of a file come from a traversal of their own, `Generate.nestedAll`, which hands
the label of every statement down to the statements in it. Here it is compared with `walkAll`, the
plain pre-order walk.

**Places.** `Placed gs i around g` says where a statement stands without any traversal: `i`
statements come before `g` in document order, and `around` is the one directly around it. A place
is a block of rows, those of `g` and of everything in it, with `i` rows before the block
(`Placed.exists_block`). Conversely every row has a place (`exists_placed`).

Main result: `getElem?_nestedAll_iff`.
-/

namespace DesignFacts.Generate

variable {gs : List Generate} {parent : Text}

/-- `Placed gs i around g`: `g` is one of the statements `gs` or stands in one of them at any depth,
`i` statements begin before it, and `around` is the statement directly around it. -/
inductive Placed (gs : List Generate) : Nat → Option Generate → Generate → Prop
  | top {pre post : List Generate} {g : Generate} (hsplit : gs = pre ++ g :: post) :
      Placed gs (walkAll pre).length none g
  | inner {i : Nat} {around : Option Generate} {p : Generate} (hp : Placed gs i around p)
      {pre post : List Generate} {g : Generate} (hsplit : p.generates = pre ++ g :: post) :
      Placed gs (i + 1 + (walkAll pre).length) (some p) g

/-- The label of the statement around another one, or another text at the top. -/
def labelOr (parent : Text) (around : Option Generate) : Text :=
  (around.map Generate.label).getD parent

/-! ## The two traversals -/

theorem nested_eq_cons (parent : Text) (g : Generate) :
    nested parent g = ⟨parent, g⟩ :: nestedAll g.label g.generates := by
  cases g
  rfl

theorem nestedAll_append (parent : Text) (gs gs' : List Generate) :
    nestedAll parent (gs ++ gs') = nestedAll parent gs ++ nestedAll parent gs' := by
  induction gs with
  | nil => rfl
  | cons g gs ih => rw [List.cons_append, nestedAll, nestedAll, ih, List.append_assoc]

mutual

theorem map_generate_nested (parent : Text) :
    (g : Generate) → (nested parent g).map NestedGenerate.generate = g.walk
  | ⟨label, _, _, _, _, _, _, _, _, _, generates⟩ => by
    rw [nested, walk, List.map_cons, map_generate_nestedAll label generates]

/-- The rows are the statements of the walk, in order. -/
theorem map_generate_nestedAll (parent : Text) :
    (gs : List Generate) → (nestedAll parent gs).map NestedGenerate.generate = walkAll gs
  | [] => rfl
  | g :: gs => by
    rw [nestedAll, walkAll, List.map_append, map_generate_nested parent g,
      map_generate_nestedAll parent gs]

end

@[simp] theorem length_nestedAll (parent : Text) (gs : List Generate) :
    (nestedAll parent gs).length = (walkAll gs).length := by
  rw [← map_generate_nestedAll parent, List.length_map]

/-! ## A place is a block of rows -/

theorem nestedAll_split (parent : Text) (pre post : List Generate) (g : Generate) :
    nestedAll parent (pre ++ g :: post) =
      nestedAll parent pre ++ (nested parent g ++ nestedAll parent post) := by
  rw [nestedAll_append, nestedAll]

theorem Placed.exists_block {i : Nat} {around : Option Generate} {g : Generate}
    (h : Placed gs i around g) (parent : Text) :
    ∃ before after, nestedAll parent gs = before ++ (nested (labelOr parent around) g ++ after) ∧
      before.length = i := by
  induction h with
  | @top pre post g hsplit =>
    rw [hsplit, nestedAll_split]
    exact ⟨_, _, rfl, length_nestedAll parent pre⟩
  | @inner i around p hp pre post g hsplit ih =>
    obtain ⟨before, after, hrows, rfl⟩ := ih
    -- The block of `p` is its own row and then the rows of the statements in it.
    rw [nested_eq_cons, hsplit, nestedAll_split] at hrows
    refine ⟨before ++ ⟨labelOr parent around, p⟩ :: nestedAll p.label pre,
      nestedAll p.label post ++ after, ?_, ?_⟩
    · rw [hrows]
      simp [labelOr]
    · simp only [List.length_append, List.length_cons, length_nestedAll]
      omega

theorem Placed.getElem?_nestedAll {i : Nat} {around : Option Generate} {g : Generate}
    (h : Placed gs i around g) (parent : Text) :
    (nestedAll parent gs)[i]? = some ⟨labelOr parent around, g⟩ := by
  obtain ⟨before, after, hrows, rfl⟩ := h.exists_block parent
  rw [hrows, nested_eq_cons]
  simp

/-! ## Every row has a place -/

mutual

theorem exists_placed_of_walk {i : Nat} {around : Option Generate} :
    (g : Generate) → Placed gs i around g → ∀ k < g.walk.length,
      ∃ around' g', Placed gs (i + k) around' g'
  | ⟨label, scheme, inArch, line, canElaborate, iterationCount, signals, instances, processes,
      assignments, generates⟩, hg, k, hk => by
    cases k with
    | zero => exact ⟨_, _, hg⟩
    | succ k =>
      rw [walk, List.length_cons] at hk
      have hinner := exists_placed_of_walkAll generates (fun pre g post hsplit =>
        ⟨_, hg.inner hsplit⟩) k (by omega)
      rwa [Nat.add_assoc, Nat.add_comm 1 k] at hinner

/-- Statements that follow one another at places from `i` on fill all of these places. -/
theorem exists_placed_of_walkAll {i : Nat} :
    (rest : List Generate) → (∀ pre g post, rest = pre ++ g :: post →
      ∃ around, Placed gs (i + (walkAll pre).length) around g) →
      ∀ k < (walkAll rest).length, ∃ around g, Placed gs (i + k) around g
  | [], _, k, hk => absurd hk (Nat.not_lt_zero k)
  | g :: rest, hrest, k, hk => by
    obtain ⟨around, hg⟩ := hrest [] g rest rfl
    by_cases hfirst : k < g.walk.length
    · exact exists_placed_of_walk g hg k hfirst
    · rw [walkAll, List.length_append] at hk
      have hlater := exists_placed_of_walkAll (i := i + g.walk.length) rest
        (fun pre g' post hsplit => by
          obtain ⟨around', hg'⟩ := hrest (g :: pre) g' post (by rw [hsplit]; rfl)
          rw [walkAll, List.length_append, ← Nat.add_assoc] at hg'
          exact ⟨around', hg'⟩)
        (k - g.walk.length) (by omega)
      rwa [Nat.add_assoc, Nat.add_sub_cancel' (Nat.le_of_not_lt hfirst)] at hlater

end

theorem exists_placed {i : Nat} (hi : i < (walkAll gs).length) :
    ∃ around g, Placed gs i around g := by
  have htop := exists_placed_of_walkAll (i := 0) gs
    (fun pre g post hsplit => ⟨none, by rw [Nat.zero_add]; exact .top hsplit⟩) i hi
  rwa [Nat.zero_add] at htop

/-- The rows of generate statements, place by place: the row at `i` is the statement placed there,
with the label of the statement directly around it. -/
theorem getElem?_nestedAll_iff {i : Nat} {row : NestedGenerate} :
    (nestedAll parent gs)[i]? = some row ↔
      ∃ around, Placed gs i around row.generate ∧ row.parent = labelOr parent around := by
  constructor
  · intro hrow
    have hi : i < (walkAll gs).length := by
      rw [← length_nestedAll parent]
      exact (List.getElem?_eq_some_iff.1 hrow).1
    obtain ⟨around, g, hg⟩ := exists_placed hi
    obtain rfl := Option.some.inj ((hg.getElem?_nestedAll parent).symm.trans hrow)
    exact ⟨around, hg, rfl⟩
  · rintro ⟨around, hg, hparent⟩
    rw [hg.getElem?_nestedAll parent, ← hparent]

end DesignFacts.Generate

import DesignFacts.Analysis.Elaborate
import DesignFacts.Proofs.Bound.Extension

/-!
# Constants of declarations

Constants are evaluated in the order of their declarations, each with the constants before it, and
the defaults of generics come last. So every value is computed with a table that grows afterwards.
If all names are different identifiers, the final table says of every declaration what was computed
for it: a declaration only adds a constant (`Fresh.extends`), and more constants leave values as
they are (`evaluate_of_extends`).

With different names, generics are like constants that are declared last
(`constantsOf_eq_declareAll`), so all is shown for one row of declarations.

Main result: `constantsOf_consistent`.
-/

namespace DesignFacts.Bound

open Text

variable {m m' : Constants} {d : Text × Option Text} {ds : List (Text × Option Text)}

/-! ## One declaration -/

/-- The name under which a declaration is kept. -/
def key (d : Text × Option Text) : Text := lower d.1

/-- A declaration without a value changes nothing, any other one sets its name. -/
theorem defineConstant_eq_ok (h : defineConstant m d.1 d.2 = .ok m') :
    (m' = m ∧ ∀ t, d.2 = some t → evaluate m t = .ok none) ∨
      ∃ t v, d.2 = some t ∧ evaluate m t = .ok (some v) ∧ m' = m.set (key d) v := by
  unfold defineConstant at h
  split at h
  · rename_i t ht
    obtain ⟨value?, hvalue, h⟩ := bind_eq_ok_iff.1 h
    cases value? with
    | none =>
      cases h
      refine .inl ⟨rfl, fun u hu => ?_⟩
      rw [ht] at hu
      cases hu
      exact hvalue
    | some v =>
      cases h
      exact .inr ⟨t, v, ht, hvalue, rfl⟩
  · rename_i hnone
    cases h
    refine .inl ⟨rfl, fun t ht => ?_⟩
    rw [hnone] at ht
    cases ht

/-- A declaration breaks off where the evaluation of its value does. -/
theorem defineConstant_eq_error {e : Fault} (h : defineConstant m d.1 d.2 = .error e) :
    ∃ t, d.2 = some t ∧ evaluate m t = .error e := by
  unfold defineConstant at h
  split at h
  · rename_i t ht
    refine ⟨t, ht, ?_⟩
    unfold define at h
    cases hvalue : evaluate m t with
    | error e' =>
      rw [hvalue] at h
      cases h
      rfl
    | ok value? =>
      rw [hvalue] at h
      cases value? <;> cases h
  · cases h

theorem mem_keys_defineConstant (h : defineConstant m d.1 d.2 = .ok m') {k : Text}
    (hk : k ∈ m'.keys) : k ∈ m.keys ∨ k = key d := by
  rcases defineConstant_eq_ok h with ⟨rfl, -⟩ | ⟨t, v, -, -, rfl⟩
  · exact .inl hk
  · rw [Assoc.keys_set] at hk
    split at hk
    · exact .inl hk
    · rcases List.mem_append.1 hk with hk | hk
      · exact .inl hk
      · exact .inr (List.mem_singleton.1 hk)

/-! ## Rows of declarations -/

/-- The constants with those of some declarations. -/
def declareAll (m : Constants) (ds : List (Text × Option Text)) : Except Fault Constants :=
  ds.foldlM (fun m d => defineConstant m d.1 d.2) m

theorem declareAll_cons (m : Constants) (d : Text × Option Text) (ds : List (Text × Option Text)) :
    declareAll m (d :: ds) = defineConstant m d.1 d.2 >>= fun m' => declareAll m' ds :=
  List.foldlM_cons

theorem declareAll_append (m : Constants) (front back : List (Text × Option Text)) :
    declareAll m (front ++ back) = declareAll m front >>= fun m' => declareAll m' back :=
  List.foldlM_append

theorem constantsOf_nil (ds : List (Text × Option Text)) : constantsOf ds [] = declareAll [] ds :=
  bind_pure _

theorem mem_keys_declareAll (h : declareAll m ds = .ok m') {k : Text} (hk : k ∈ m'.keys) :
    k ∈ m.keys ∨ k ∈ ds.map key := by
  induction ds generalizing m with
  | nil =>
    cases h
    exact .inl hk
  | cons d ds ih =>
    rw [declareAll_cons] at h
    obtain ⟨next, hd, h⟩ := bind_eq_ok_iff.1 h
    rw [List.map_cons, List.mem_cons]
    rcases ih h with hk | hk
    · rcases mem_keys_defineConstant hd hk with hk | hk
      · exact .inl hk
      · exact .inr (.inl hk)
    · exact .inr (.inr hk)

theorem identified_declareAll (hnames : ∀ d ∈ ds, IsIdentifier d.1)
    (h : declareAll [] ds = .ok m) : Identified m := by
  intro k hk
  rcases mem_keys_declareAll h hk with hk | hk
  · exact absurd hk List.not_mem_nil
  · obtain ⟨d, hd, rfl⟩ := List.mem_map.1 hk
    exact (hnames d hd).lower

/-- A row breaks off at the first declaration whose value does. -/
theorem declareAll_eq_error {e : Fault} (h : declareAll m ds = .error e) :
    ∃ front d back m' t, ds = front ++ d :: back ∧ declareAll m front = .ok m' ∧
      d.2 = some t ∧ evaluate m' t = .error e := by
  induction ds generalizing m with
  | nil => cases h
  | cons d ds ih =>
    rw [declareAll_cons] at h
    cases hd : defineConstant m d.1 d.2 with
    | error e' =>
      rw [hd] at h
      cases h
      obtain ⟨t, ht, hfault⟩ := defineConstant_eq_error hd
      exact ⟨[], d, ds, m, t, rfl, rfl, ht, hfault⟩
    | ok next =>
      rw [hd] at h
      obtain ⟨front, d', back, m', t, rfl, hfront, ht, hfault⟩ := ih h
      refine ⟨d :: front, d', back, m', t, rfl, ?_, ht, hfault⟩
      rw [declareAll_cons, hd]
      exact hfront

/-! ## Different names -/

/-- Declarations with new names, all different. -/
structure Fresh (m : Constants) (ds : List (Text × Option Text)) : Prop where
  new : ∀ d ∈ ds, key d ∉ m.keys
  distinct : (ds.map key).Nodup

theorem Fresh.head (hf : Fresh m (d :: ds)) : key d ∉ m.keys := hf.new d List.mem_cons_self

/-- A new name leaves the other constants as they are, and the later names are still new. -/
theorem Fresh.step (hf : Fresh m (d :: ds)) (h : defineConstant m d.1 d.2 = .ok m') :
    Extends m m' ∧ Fresh m' ds := by
  have hdistinct := List.nodup_cons.1 hf.distinct
  constructor
  · rcases defineConstant_eq_ok h with ⟨rfl, -⟩ | ⟨t, v, -, -, rfl⟩
    · exact .refl m'
    · intro k w hk
      have hne : key d ≠ k := fun heq => hf.head (heq ▸ mem_keys_of_get? hk)
      rw [Assoc.get?_set, if_neg hne]
      exact hk
  · refine ⟨fun d' hd' hmem => ?_, hdistinct.2⟩
    rcases mem_keys_defineConstant h hmem with hmem | heq
    · exact hf.new d' (List.mem_cons_of_mem d hd') hmem
    · exact hdistinct.1 (heq ▸ List.mem_map_of_mem hd')

theorem Fresh.extends (hf : Fresh m ds) (h : declareAll m ds = .ok m') : Extends m m' := by
  induction ds generalizing m with
  | nil =>
    cases h
    exact .refl _
  | cons d ds ih =>
    rw [declareAll_cons] at h
    obtain ⟨next, hd, h⟩ := bind_eq_ok_iff.1 h
    obtain ⟨hstep, hrest⟩ := hf.step hd
    exact hstep.trans (ih hrest h)

/-- A generic with a new name is declared like a constant. -/
theorem Fresh.foldlM_defineGeneric (hf : Fresh m ds) :
    ds.foldlM (fun m d => defineGeneric m d.1 d.2) m = declareAll m ds := by
  induction ds generalizing m with
  | nil => rfl
  | cons d ds ih =>
    have hnone : m.get? (lower d.1) = none := get?_eq_none_of_not_mem_keys hf.head
    have hfirst : defineGeneric m d.1 d.2 = defineConstant m d.1 d.2 := by
      rw [defineGeneric, hnone, Option.isSome_none, if_neg (by simp)]
    rw [List.foldlM_cons, declareAll_cons, hfirst]
    cases hd : defineConstant m d.1 d.2 with
    | error e => rfl
    | ok next => exact ih (hf.step hd).2

theorem fresh_of_declareAll {front : List (Text × Option Text)}
    (hdistinct : ((front ++ ds).map key).Nodup) (h : declareAll [] front = .ok m) : Fresh m ds := by
  rw [List.map_append] at hdistinct
  obtain ⟨-, hback, hdisjoint⟩ := List.nodup_append.1 hdistinct
  refine ⟨fun d hd hmem => ?_, hback⟩
  rcases mem_keys_declareAll h hmem with hmem | hmem
  · exact absurd hmem List.not_mem_nil
  · exact hdisjoint _ hmem _ (List.mem_map_of_mem hd) rfl

theorem constantsOf_eq_declareAll {constants generics : List (Text × Option Text)}
    (hdistinct : ((constants ++ generics).map key).Nodup) :
    constantsOf constants generics = declareAll [] (constants ++ generics) := by
  rw [declareAll_append]
  show (declareAll [] constants >>= fun m => _) = _
  cases hconstants : declareAll [] constants with
  | error e => rfl
  | ok m => exact (fresh_of_declareAll hdistinct hconstants).foldlM_defineGeneric

/-! ## The final table -/

/-- Constants agree with the declarations they come from. -/
structure Consistent (ds : List (Text × Option Text)) (m : Constants) : Prop where
  /-- Only names of declarations have values. -/
  names : ∀ k ∈ m.keys, ∃ d ∈ ds, k = lower d.1
  /-- A declaration has the value that its text has. -/
  values : ∀ d ∈ ds, ∀ v, m.get? (lower d.1) = some v →
    ∃ t, d.2 = some t ∧ evaluate m t = .ok (some v)
  /-- What has no value had none when it was declared. -/
  missing : ∀ front d back, ds = front ++ d :: back → m.get? (lower d.1) = none →
    ∀ t, d.2 = some t → ∃ m', constantsOf front [] = .ok m' ∧ evaluate m' t = .ok none

/-- What the final table says about a declaration is what was computed for it. -/
theorem get?_declareAll {front back : List (Text × Option Text)}
    (hdistinct : ((front ++ d :: back).map key).Nodup)
    (h : declareAll [] (front ++ d :: back) = .ok m) :
    ∃ m', declareAll [] front = .ok m' ∧ Extends m' m ∧
      ((m.get? (key d) = none ∧ ∀ t, d.2 = some t → evaluate m' t = .ok none) ∨
        ∃ t v, d.2 = some t ∧ evaluate m' t = .ok (some v) ∧ m.get? (key d) = some v) := by
  rw [declareAll_append] at h
  obtain ⟨m', hfront, h⟩ := bind_eq_ok_iff.1 h
  have hfresh : Fresh m' (d :: back) := fresh_of_declareAll hdistinct hfront
  rw [declareAll_cons] at h
  obtain ⟨next, hd, hback⟩ := bind_eq_ok_iff.1 h
  obtain ⟨hstep, hrest⟩ := hfresh.step hd
  refine ⟨m', hfront, hstep.trans (hrest.extends hback), ?_⟩
  rcases defineConstant_eq_ok hd with ⟨rfl, hnone⟩ | ⟨t, v, ht, hv, rfl⟩
  · -- No later declaration has this name.
    refine .inl ⟨get?_eq_none_of_not_mem_keys fun hmem => ?_, hnone⟩
    rcases mem_keys_declareAll hback hmem with hmem | hmem
    · exact hfresh.head hmem
    · exact (List.nodup_cons.1 hfresh.distinct).1 hmem
  · refine .inr ⟨t, v, ht, hv, hrest.extends hback _ _ ?_⟩
    rw [Assoc.get?_set, if_pos rfl]

theorem consistent_declareAll (hnames : ∀ d ∈ ds, IsIdentifier d.1)
    (hdistinct : (ds.map key).Nodup) (h : declareAll [] ds = .ok m) : Consistent ds m where
  names := by
    intro k hk
    rcases mem_keys_declareAll h hk with hk | hk
    · exact absurd hk List.not_mem_nil
    · obtain ⟨d, hd, rfl⟩ := List.mem_map.1 hk
      exact ⟨d, hd, rfl⟩
  values := by
    intro d hd v hv
    have hidentified := identified_declareAll hnames h
    obtain ⟨front, back, rfl⟩ := List.append_of_mem hd
    obtain ⟨m', -, hextends, ⟨hnone, -⟩ | ⟨t, w, ht, hw, hget⟩⟩ := get?_declareAll hdistinct h
    · rw [show m.get? (lower d.1) = none from hnone] at hv
      cases hv
    · rw [show m.get? (lower d.1) = some w from hget] at hv
      cases hv
      exact ⟨t, ht, evaluate_of_extends hidentified hextends hw⟩
  missing := by
    rintro front d back rfl hnone t ht
    obtain ⟨m', hfront, -, ⟨-, hvalue⟩ | ⟨_, w, -, -, hget⟩⟩ := get?_declareAll hdistinct h
    · exact ⟨m', (constantsOf_nil front).trans hfront, hvalue t ht⟩
    · rw [show m.get? (lower d.1) = some w from hget] at hnone
      cases hnone

/-- **Constants agree with their declarations.** A text that has a value keeps it when constants are
added. So for constants and generics with different identifiers as names, the final table holds only
names of declarations, gives each of them the value that its text has with this table, and leaves
out only those whose text had no value with the declarations before them. If there is no table, the
evaluation of some text breaks off. -/
theorem constantsOf_consistent :
    (∀ (m m' : Constants) (t : Text) (v : Int), Identified m' → Extends m m' →
      evaluate m t = .ok (some v) → evaluate m' t = .ok (some v)) ∧
    ∀ constants generics : List (Text × Option Text),
      (∀ d ∈ constants ++ generics, IsIdentifier d.1) →
      ((constants ++ generics).map fun d => lower d.1).Nodup →
      (∀ m, constantsOf constants generics = .ok m → Consistent (constants ++ generics) m) ∧
      ∀ e, constantsOf constants generics = .error e →
        ∃ front d back m t, constants ++ generics = front ++ d :: back ∧
          constantsOf front [] = .ok m ∧ d.2 = some t ∧ evaluate m t = .error e := by
  refine ⟨fun m m' t v hm' h hv => evaluate_of_extends hm' h hv, ?_⟩
  intro constants generics hnames hdistinct
  rw [constantsOf_eq_declareAll hdistinct]
  refine ⟨fun m h => consistent_declareAll hnames hdistinct h, fun e h => ?_⟩
  obtain ⟨front, d, back, m, t, hsplit, hfront, ht, hfault⟩ := declareAll_eq_error h
  exact ⟨front, d, back, m, t, hsplit, (constantsOf_nil front).trans hfront, ht, hfault⟩

/-- `W` is 8, `\a+b\` is twice as much, and `N` is `X`. -/
def laneConstants : List (Text × Option Text) :=
  [(['W'], some ['8']), (['\\', 'a', '+', 'b', '\\'], some ['W', '*', '2']), (['N'], some ['X'])]

/-- `X` is the difference of the first two constants by default. -/
def laneGenerics : List (Text × Option Text) :=
  [(['X'], some ['\\', 'A', '+', 'B', '\\', ' ', '-', 'W'])]

/-- The values of the declarations: `N` has none, because `X` comes after it. -/
def laneTable : Constants := [(['w'], 8), (['\\', 'a', '+', 'b', '\\'], 16), (['x'], 8)]

theorem constantsOf_consistent_lanes :
    (∀ d ∈ laneConstants ++ laneGenerics, IsIdentifier d.1) ∧
      ((laneConstants ++ laneGenerics).map fun d => lower d.1).Nodup ∧
      constantsOf laneConstants laneGenerics = .ok laneTable ∧
      Consistent (laneConstants ++ laneGenerics) laneTable ∧
      Identified laneTable ∧ Extends [(['w'], 8)] laneTable ∧
      evaluate [(['w'], 8)] ['(', 'W', '+', '1', ')', '*', '2'] = .ok (some 18) ∧
      evaluate laneTable ['(', 'W', '+', '1', ')', '*', '2'] = .ok (some 18) := by
  have hsum : Escaped ['a', '+', 'b'] :=
    .char (by decide) (.char (by decide) (.char (by decide) .nil))
  have hnames : ∀ d ∈ laneConstants ++ laneGenerics, IsIdentifier d.1 := by
    intro d hd
    simp only [laneConstants, laneGenerics, List.cons_append, List.nil_append, List.mem_cons,
      List.not_mem_nil, or_false] at hd
    rcases hd with rfl | rfl | rfl | rfl
    · exact .basic (by decide) (by decide)
    · exact .extended hsum
    · exact .basic (by decide) (by decide)
    · exact .basic (by decide) (by decide)
  have htable : constantsOf laneConstants laneGenerics = .ok laneTable := by decide +kernel
  have hdistinct : ((laneConstants ++ laneGenerics).map fun d => lower d.1).Nodup := by decide
  obtain ⟨hmore, hconsistent⟩ := constantsOf_consistent
  have hlanes := (hconsistent laneConstants laneGenerics hnames hdistinct).1 laneTable htable
  have hidentified : Identified laneTable := by
    intro k hk
    obtain ⟨d, hd, rfl⟩ := hlanes.names k hk
    exact (hnames d hd).lower
  have hextends : Extends [(['w'], 8)] laneTable := by
    intro k v hk
    have hmem : k = ['w'] := List.mem_singleton.1 (mem_keys_of_get? hk)
    subst hmem
    exact hk
  have hvalue : evaluate [(['w'], 8)] ['(', 'W', '+', '1', ')', '*', '2'] = .ok (some 18) := by
    decide +kernel
  exact ⟨hnames, hdistinct, htable, hlanes, hidentified, hextends, hvalue,
    hmore _ _ _ _ hidentified hextends hvalue⟩

end DesignFacts.Bound

/-!
# Association lists

A finite map as the list of its entries, in the order in which their keys were first set.
-/

namespace DesignFacts

/-- A finite map, as a list of entries. -/
abbrev Assoc (κ ν : Type) := List (κ × ν)

namespace Assoc

variable {κ ν : Type} [DecidableEq κ]

/-- The value of a key. -/
def get? (m : Assoc κ ν) (key : κ) : Option ν := (m.find? fun e => e.1 = key).map Prod.snd

/-- The map with one key set: in place if it was set before, at the end otherwise. -/
def set (key : κ) (value : ν) : Assoc κ ν → Assoc κ ν
  | [] => [(key, value)]
  | (k, v) :: rest => if k = key then (key, value) :: rest else (k, v) :: set key value rest

theorem get?_set (m : Assoc κ ν) (key k : κ) (value : ν) :
    get? (set key value m) k = if key = k then some value else get? m k := by
  induction m with
  | nil => by_cases h : key = k <;> simp [set, get?, h]
  | cons e rest ih =>
    obtain ⟨k', v⟩ := e
    unfold set
    by_cases h : k' = key
    · subst h
      by_cases h' : k' = k <;> simp [get?, h']
    · by_cases h' : k' = k
      · subst h'
        simp [get?, h, Ne.symm h]
      · simpa [get?, h, h'] using ih

/-! ## Keys -/

/-- The keys of a map, in the order in which they were first set. -/
def keys (m : Assoc κ ν) : List κ := m.map Prod.fst

theorem keys_set (m : Assoc κ ν) (key : κ) (value : ν) :
    keys (set key value m) = if key ∈ keys m then keys m else keys m ++ [key] := by
  induction m with
  | nil => simp [set, keys]
  | cons e rest ih =>
    obtain ⟨k, v⟩ := e
    unfold set
    by_cases h : k = key
    · simp [keys, h]
    · have hne : key ≠ k := Ne.symm h
      rw [if_neg h]
      simp only [keys, List.map_cons] at ih ⊢
      rw [ih]
      by_cases hm : key ∈ List.map Prod.fst rest <;> simp [hm, hne]

/-- Setting a key keeps the keys distinct. -/
theorem nodup_keys_set {m : Assoc κ ν} (h : (keys m).Nodup) (key : κ) (value : ν) :
    (keys (set key value m)).Nodup := by
  rw [keys_set]
  split
  · exact h
  · rename_i hm
    refine List.nodup_append.2 ⟨h, by simp, ?_⟩
    rintro a ha b hb rfl
    exact hm (List.mem_singleton.1 hb ▸ ha)

/-- With distinct keys, the entries of a map are what it says about its keys. -/
theorem mem_iff_get? {m : Assoc κ ν} (h : (keys m).Nodup) (key : κ) (value : ν) :
    (key, value) ∈ m ↔ get? m key = some value := by
  induction m with
  | nil => simp [get?]
  | cons e rest ih =>
    obtain ⟨k, v⟩ := e
    obtain ⟨hk, hrest⟩ := List.nodup_cons.1 h
    by_cases hkey : k = key
    · subst hkey
      have hout : (k, value) ∉ rest := fun hm => hk (List.mem_map.2 ⟨_, hm, rfl⟩)
      simp [get?, hout, eq_comm]
    · simpa [get?, hkey, Ne.symm hkey] using ih hrest

end Assoc

end DesignFacts

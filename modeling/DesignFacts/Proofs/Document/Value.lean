import DesignFacts.Document.Design
import Mathlib.Data.List.Perm.Basic

/-!
# Values in documents

A document is looked at by the keys of its records. A record with known field names is looked up
like the list of its fields (`Document.value?_object`), and the document of a map like the map,
since its order does not matter when no key comes twice (`value?_mapDocument`).
-/

namespace DesignFacts

namespace Assoc

variable {κ ν μ : Type} [DecidableEq κ]

/-- With distinct keys, a map may be listed in any order. -/
theorem get?_perm {m m' : Assoc κ ν} (h : m.Perm m') (hkeys : (keys m).Nodup) (key : κ) :
    get? m' key = get? m key := by
  have hkeys' : (keys m').Nodup := (h.map Prod.fst).nodup_iff.1 hkeys
  refine Option.ext fun value => ?_
  rw [← mem_iff_get? hkeys', ← mem_iff_get? hkeys, h.mem_iff]

theorem get?_map (f : ν → μ) (m : Assoc κ ν) (key : κ) :
    get? (m.map fun e => (e.1, f e.2)) key = (get? m key).map f := by
  rw [get?, get?, List.find?_map, Option.map_map, Option.map_map]
  rfl

end Assoc

namespace Document

/-- The value of a record under a key. -/
def value? (d : Document) (key : Text) : Option Document :=
  match d with
  | record fields => Assoc.get? fields key
  | _ => none

/-- Known field names are looked up as such. -/
theorem value?_object (fields : List (String × Document)) (key : String) :
    (object fields).value? key.toList = Assoc.get? fields key := by
  show Assoc.get? (fields.map _) key.toList = _
  induction fields with
  | nil => rfl
  | cons f fields ih =>
    simp only [Assoc.get?, List.map_cons, List.find?_cons, String.toList_inj] at ih ⊢
    split
    · rfl
    · exact ih

end Document

/-- The document of a map has the entries of the map. -/
theorem value?_mapDocument {m : Assoc Text Text} (hkeys : m.keys.Nodup) (key : Text) :
    (mapDocument m).value? key = (m.get? key).map .text := by
  have hperm := (List.mergeSort_perm m fun a b => !Text.precedes b.1 a.1).symm
  rw [← Assoc.get?_perm hperm hkeys key, ← Assoc.get?_map]
  rfl

end DesignFacts

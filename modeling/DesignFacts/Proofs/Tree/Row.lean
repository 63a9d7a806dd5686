import DesignFacts.Tree.Node
import Mathlib.Data.List.Forall2

/-!
# Rows of nodes that are related one by one

Two rows whose nodes are related one by one give related results when they are searched, cut or
filtered, if the relation keeps what is searched for. The weakest relation of use is agreement in
all but the parts (`Node.bare`). What looks at the children of a node but not at their parts depends
on its `shallow` form only (`Node.eq_of_shallow`).
-/

namespace DesignFacts

section Related

variable {α β γ : Type} {R : α → β → Prop} {as : List α} {bs : List β}

/-- Rows that are related one by one through a third row. -/
theorem forall₂_comp {S : β → γ → Prop} {T : α → γ → Prop}
    (hcomp : ∀ a b c, R a b → S b c → T a c) {cs : List γ} (h : List.Forall₂ R as bs)
    (h' : List.Forall₂ S bs cs) : List.Forall₂ T as cs := by
  induction h generalizing cs with
  | nil =>
    cases h'
    exact .nil
  | cons hab _ ih =>
    cases h' with
    | cons hbc hrest => exact .cons (hcomp _ _ _ hab hbc) (ih hrest)

/-- Of two related rows, each has an entry where the other one has. -/
theorem exists_getElem?_of_forall₂ (h : List.Forall₂ R as bs) {k : Nat} :
    (∀ a, as[k]? = some a → ∃ b, bs[k]? = some b ∧ R a b) ∧
      ∀ b, bs[k]? = some b → ∃ a, as[k]? = some a ∧ R a b := by
  induction h generalizing k with
  | nil => simp
  | cons hab _ ih =>
    cases k with
    | zero => simpa using hab
    | succ k => exact ih

theorem exists_mem_of_forall₂ (h : List.Forall₂ R as bs) :
    (∀ a ∈ as, ∃ b ∈ bs, R a b) ∧ ∀ b ∈ bs, ∃ a ∈ as, R a b := by
  constructor
  · intro a ha
    obtain ⟨k, hk⟩ := List.mem_iff_getElem?.1 ha
    obtain ⟨b, hb, hab⟩ := (exists_getElem?_of_forall₂ h).1 a hk
    exact ⟨b, List.mem_of_getElem? hb, hab⟩
  · intro b hb
    obtain ⟨k, hk⟩ := List.mem_iff_getElem?.1 hb
    obtain ⟨a, ha, hab⟩ := (exists_getElem?_of_forall₂ h).2 b hk
    exact ⟨a, List.mem_of_getElem? ha, hab⟩

end Related

section Rows

variable {R : Node → Node → Prop} {p : Node → Bool} {ns ms : List Node}

theorem forall₂_takeWhile (hp : ∀ n m, R n m → p n = p m) (h : List.Forall₂ R ns ms) :
    List.Forall₂ R (ns.takeWhile p) (ms.takeWhile p) := by
  induction h with
  | nil => exact .nil
  | @cons n m ns ms hnm _ ih =>
    rw [List.takeWhile_cons, List.takeWhile_cons, hp n m hnm]
    split
    · exact .cons hnm ih
    · exact .nil

theorem forall₂_filter (hp : ∀ n m, R n m → p n = p m) (h : List.Forall₂ R ns ms) :
    List.Forall₂ R (ns.filter p) (ms.filter p) :=
  List.rel_filter (fun n m hnm => show p n = true ↔ p m = true by rw [hp n m hnm]) h

theorem rel_find? (hp : ∀ n m, R n m → p n = p m) (h : List.Forall₂ R ns ms) :
    Option.Rel R (ns.find? p) (ms.find? p) := by
  induction h with
  | nil => exact .none
  | @cons n m ns ms hnm _ ih =>
    rw [List.find?_cons, List.find?_cons, hp n m hnm]
    split
    · exact .some hnm
    · exact ih

theorem rel_or {a b a' b' : Option Node} (h : Option.Rel R a b) (h' : Option.Rel R a' b') :
    Option.Rel R (a.or a') (b.or b') := by
  cases h with
  | some h => exact .some h
  | none => exact h'

theorem findIdx?_eq_of_forall₂ (hp : ∀ n m, R n m → p n = p m) (h : List.Forall₂ R ns ms) :
    ns.findIdx? p = ms.findIdx? p := by
  induction h with
  | nil => rfl
  | @cons n m ns ms hnm _ ih => rw [List.findIdx?_cons, List.findIdx?_cons, hp n m hnm, ih]

theorem forall_eq_false_of_forall₂ (hp : ∀ n m, R n m → p n = p m) (h : List.Forall₂ R ns ms)
    (hns : ∀ n ∈ ns, p n = false) : ∀ m ∈ ms, p m = false := by
  rw [← List.findIdx?_eq_none_iff, ← findIdx?_eq_of_forall₂ hp h]
  exact List.findIdx?_eq_none_iff.2 hns

theorem findIdx?_append_cons {before after : List Node} {n : Node}
    (hbefore : ∀ c ∈ before, p c = false) (hn : p n = true) :
    (before ++ n :: after).findIdx? p = some before.length := by
  rw [List.findIdx?_append, List.findIdx?_eq_none_iff.2 hbefore, List.findIdx?_cons, if_pos hn]
  simp

/-- Rows from which the same places are taken stay related. -/
theorem forall₂_filter_zipIdx {q : Node × Nat → Bool} (hq : ∀ n m i, R n m → q (n, i) = q (m, i))
    (h : List.Forall₂ R ns ms) (k : Nat) :
    List.Forall₂ R (((ns.zipIdx k).filter q).map Prod.fst)
      (((ms.zipIdx k).filter q).map Prod.fst) := by
  induction h generalizing k with
  | nil => exact .nil
  | @cons n m ns ms hnm _ ih =>
    rw [List.zipIdx_cons, List.zipIdx_cons, List.filter_cons, List.filter_cons, hq n m k hnm]
    split
    · exact .cons hnm (ih (k + 1))
    · exact ih (k + 1)

theorem rel_splitAt? (hp : ∀ n m, R n m → p n = p m) (h : List.Forall₂ R ns ms) :
    Option.Rel (fun a b => List.Forall₂ R a.1 b.1 ∧ List.Forall₂ R a.2 b.2)
      (Node.splitAt? p ns) (Node.splitAt? p ms) := by
  induction h with
  | nil => exact .none
  | @cons n m ns ms hnm hrest ih =>
    rw [Node.splitAt?, Node.splitAt?, hp n m hnm]
    split
    · exact .some ⟨.nil, hrest⟩
    · revert ih
      cases Node.splitAt? p ns <;> cases Node.splitAt? p ms <;> intro ih <;> cases ih
      · exact .none
      · rename_i ih
        exact .some ⟨.cons hnm ih.1, ih.2⟩

theorem map_eq_of_forall₂ {α β : Type} {R : α → α → Prop} {f : α → β} {as bs : List α}
    (hf : ∀ a b, R a b → f a = f b) (h : List.Forall₂ R as bs) : as.map f = bs.map f := by
  rw [← List.forall₂_eq_eq_eq, List.forall₂_map_left_iff, List.forall₂_map_right_iff]
  exact h.imp hf

theorem forall₂_middle (hrefl : ∀ n, R n n) {n m : Node} (h : R n m) (ns ms : List Node) :
    List.Forall₂ R (ns ++ n :: ms) (ns ++ m :: ms) :=
  List.rel_append (List.forall₂_same.2 fun c _ => hrefl c)
    (.cons h (List.forall₂_same.2 fun c _ => hrefl c))

end Rows

namespace Node

/-- The node without its parts. -/
def bare (n : Node) : Node := { n with children := [] }

/-- What does not look at parts is the same for nodes that agree in all else. -/
theorem eq_of_bare {α : Type} (f : Node → α) (hf : ∀ n : Node, f n.bare = f n) {n m : Node}
    (h : n.bare = m.bare) : f n = f m := by
  rw [← hf n, h, hf m]

theorem splitAt?_append_cons {p : Node → Bool} {before after : List Node} {n : Node}
    (hbefore : ∀ c ∈ before, p c = false) (hn : p n = true) :
    splitAt? p (before ++ n :: after) = some (before, after) := by
  induction before with
  | nil => rw [List.nil_append, splitAt?, if_pos hn]
  | cons c cs ih =>
    have hc : ¬ p c = true := by simp [hbefore c List.mem_cons_self]
    rw [List.cons_append, splitAt?, if_neg hc,
      ih fun d hd => hbefore d (List.mem_cons_of_mem c hd)]
    rfl

theorem splitAt?_eq_none {p : Node → Bool} {ns : List Node} (h : ∀ c ∈ ns, p c = false) :
    splitAt? p ns = none := by
  induction ns with
  | nil => rfl
  | cons c cs ih =>
    have hc : ¬ p c = true := by simp [h c List.mem_cons_self]
    rw [splitAt?, if_neg hc, ih fun d hd => h d (List.mem_cons_of_mem c hd)]
    rfl

theorem splitAt?_map (f : Node → Node) (p : Node → Bool) (ns : List Node) :
    splitAt? p (ns.map f) =
      (splitAt? (p ∘ f) ns).map (Prod.map (List.map f) (List.map f)) := by
  induction ns with
  | nil => rfl
  | cons n ns ih =>
    rw [List.map_cons, splitAt?, splitAt?, ih]
    by_cases hn : p (f n) <;> simp [hn, Function.comp_def]

/-- The node with its children, but without their parts. -/
def shallow (n : Node) : Node := { n with children := n.children.map bare }

/-- What does not look below the children is the same for nodes that agree down to there. -/
theorem eq_of_shallow {α : Type} (f : Node → α) (hf : ∀ n : Node, f n.shallow = f n) {n m : Node}
    (h : n.bare = m.bare) (hchildren : n.children.map bare = m.children.map bare) : f n = f m := by
  have hshallow : n.shallow = m.shallow := by
    obtain ⟨tag, named, field, start, stop, row, ahead, ns⟩ := n
    obtain ⟨tag', named', field', start', stop', row', ahead', ms⟩ := m
    simp only [bare, mk.injEq, and_true] at h
    obtain ⟨rfl, rfl, rfl, rfl, rfl, rfl, rfl⟩ := h
    exact congrArg (mk tag named field start stop row ahead) hchildren
  rw [← hf n, hshallow, hf m]

theorem splitAt?_isToken_map_bare (word : String) (ns : List Node) :
    splitAt? (·.isToken word) (ns.map bare) =
      (splitAt? (·.isToken word) ns).map (Prod.map (List.map bare) (List.map bare)) :=
  splitAt?_map bare (·.isToken word) ns

theorem filter_map_bare {p : Node → Bool} (hp : ∀ n : Node, p n.bare = p n) (ns : List Node) :
    (ns.map bare).filter p = (ns.filter p).map bare := by
  rw [List.filter_map]
  exact congrArg (fun q => (ns.filter q).map bare) (funext hp)

@[simp] theorem childUnder_shallow (n : Node) (field : String) :
    n.shallow.childUnder field = (n.childUnder field).map bare := List.find?_map

@[simp] theorem namedChildren_shallow (n : Node) :
    n.shallow.namedChildren = n.namedChildren.map bare := List.filter_map

@[simp] theorem spanText_map_bare (ns : List Node) : spanText (ns.map bare) = spanText ns := by
  rw [spanText, spanText, List.head?_map, List.getLast?_map]
  cases ns.head? <;> cases ns.getLast? <;> rfl

end Node

end DesignFacts

import DesignFacts.Proofs.Process.Likeness

/-!
# Rows of arms

The arms of an `if` statement are read off its pieces from left to right, with one arm open. This
file cuts such rows into arms and compares them.

**Cutting.** A row that is empty, or begins with a keyword of an arm or with clauses, closes the arm
before it (`ArmPiece.Led`), so what stands before it and the row itself are read one after the
other (`ArmPiece.Led.arms_append`).

**Comparing.** Arms are the same if their conditions are equal and their bodies alike (`SameArm`).
An arm with neither does nothing, so rows may differ by such arms (`SameArms`), except at the front,
where a reset is looked for.

Main result: `if` statements with the same arms do the same (`SameArms.activity_eq`).
-/

namespace DesignFacts

open Text Node

/-- The pieces that a row of children of an `if` statement makes. -/
def Node.armPieces (ns : List Node) : List ArmPiece :=
  ns.filterMap fun c => if c.isArmClause then some (.clause c.arms) else c.armPiece?

theorem Node.armPieces_append (ns ms : List Node) :
    armPieces (ns ++ ms) = armPieces ns ++ armPieces ms := by
  rw [armPieces, List.filterMap_append]
  rfl

theorem Node.arms_eq_armPieces (n : Node) :
    n.arms = ArmPiece.arms none false (armPieces n.armChildren) := n.arms_eq

/-! ## Cutting -/

namespace ArmPiece

/-- A row of pieces that closes the arm before it. -/
inductive Led : List ArmPiece → Prop
  | nil : Led []
  | start (conditional : Bool) (ps : List ArmPiece) : Led (.start conditional :: ps)
  | clause (inner : List Arm) {ps : List ArmPiece} (h : Led ps) : Led (.clause inner :: ps)

variable {rest : List ArmPiece}

theorem Led.append {ps : List ArmPiece} (h : Led ps) (hrest : Led rest) : Led (ps ++ rest) := by
  induction h with
  | nil => exact hrest
  | start conditional ps => exact .start conditional (ps ++ rest)
  | clause inner _ ih => exact .clause inner ih

/-- It does not matter to such a row whether a condition is expected. -/
theorem Led.arms_eq (h : Led rest) (current : Option Arm) (expects : Bool) :
    arms current expects rest = current.toList ++ arms none false rest := by
  induction h generalizing current expects with
  | nil => simp [arms]
  | start => simp [arms]
  | clause inner _ ih => simp [arms, ih none expects]

theorem Led.arms_append (h : Led rest) (ps : List ArmPiece) (current : Option Arm)
    (expects : Bool) :
    arms current expects (ps ++ rest) = arms current expects ps ++ arms none false rest := by
  induction ps generalizing current expects with
  | nil => exact h.arms_eq current expects
  | cons p ps ih =>
    cases p with
    | start conditional => simp only [List.cons_append, arms, ih, List.append_assoc]
    | conditionEnd => simp only [List.cons_append, arms, ih]
    | clause inner => simp only [List.cons_append, arms, ih, List.append_assoc]
    | part n =>
      simp only [List.cons_append, arms, ih]
      split <;> rfl

end ArmPiece

/-- Whether a child of an `if` statement lets the arms go on: it is no keyword `end`. -/
def Node.isBeforeEnd (n : Node) : Bool := n.isUnder "label" || !n.isToken "end"

/-- The arms of a statement whose children come in rows: what stands in front, the first arm, the
later ones, and the end. -/
theorem Node.arms_of_rows {n : Node} {front arm later back : List Node}
    (hchildren : n.children = front ++ arm ++ later ++ back)
    (hbefore : ∀ c ∈ front ++ arm ++ later, c.isBeforeEnd = true)
    (hback : back.takeWhile isBeforeEnd = []) (harm : ArmPiece.Led (armPieces arm))
    (hlater : ArmPiece.Led (armPieces later)) :
    n.arms = ArmPiece.arms none false (armPieces front) ++
      ArmPiece.arms none false (armPieces arm) ++ ArmPiece.arms none false (armPieces later) := by
  have harmChildren : n.armChildren = front ++ arm ++ later := by
    show n.children.takeWhile isBeforeEnd = _
    rw [hchildren, List.takeWhile_append_of_pos hbefore, hback, List.append_nil]
  rw [arms_eq_armPieces, harmChildren, armPieces_append, armPieces_append, hlater.arms_append,
    harm.arms_append]

/-! ## Comparing -/

/-- Two arms with the same condition, whose bodies are alike. -/
structure SameArm (a b : Arm) : Prop where
  condition : a.condition = b.condition
  body : List.Forall₂ Alike a.body b.body

/-- Two rows of arms that are the same one by one, up to arms that have nothing. -/
inductive SameArms : List Arm → List Arm → Prop
  | nil : SameArms [] []
  | cons {a b : Arm} {as bs : List Arm} (hab : SameArm a b) (h : SameArms as bs) :
      SameArms (a :: as) (b :: bs)
  | left {as bs : List Arm} (h : SameArms as bs) : SameArms ({} :: as) bs
  | right {as bs : List Arm} (h : SameArms as bs) : SameArms as ({} :: bs)

namespace SameArm

theorem refl (a : Arm) : SameArm a a := ⟨rfl, List.forall₂_same.2 fun n _ => .refl n⟩

variable {a b : Arm} (h : SameArm a b)

include h

theorem eq_empty_iff : a = {} ↔ b = {} := by
  obtain ⟨condition, body⟩ := a
  obtain ⟨condition', body'⟩ := b
  obtain ⟨hcondition, hbody⟩ := h
  simp only [Arm.mk.injEq] at hcondition ⊢
  subst hcondition
  refine and_congr_right fun _ => ?_
  cases hbody <;> simp

theorem edge?_eq (s : ProcessSetting) : a.edge? s = b.edge? s := by
  rw [Arm.edge?, Arm.edge?, h.condition]

theorem edgeIsFar_eq (s : ProcessSetting) : a.edgeIsFar s = b.edgeIsFar s := by
  rw [Arm.edgeIsFar, Arm.edgeIsFar, h.condition]

theorem context_eq (s : ProcessSetting) (ctx : BranchContext) :
    a.context s ctx = b.context s ctx := by
  rw [Arm.context, Arm.context, h.edge?_eq, h.condition]

end SameArm

theorem Activity.empty_append (a : Activity) : ({} : Activity) ++ a = a := rfl

def Arm.activity (s : ProcessSetting) (ctx : BranchContext) (a : Arm) : Activity :=
  expressionActivity s ctx none none a.condition.toList ++
    .concat (a.body.map (DesignFacts.activity s (a.context s ctx)))

theorem SameArm.activity_eq {a b : Arm} (h : SameArm a b) (s : ProcessSetting)
    (ctx : BranchContext) : a.activity s ctx = b.activity s ctx := by
  rw [Arm.activity, Arm.activity, h.condition, h.context_eq s ctx,
    map_eq_of_forall₂ (fun _ _ hcd => hcd.same_activity s (b.context s ctx)) h.body]

namespace SameArms

variable {as bs : List Arm}

theorem refl (as : List Arm) : SameArms as as := by
  induction as with
  | nil => exact .nil
  | cons a as ih => exact .cons (.refl a) ih

theorem append {as' bs' : List Arm} (h : SameArms as bs) (h' : SameArms as' bs') :
    SameArms (as ++ as') (bs ++ bs') := by
  induction h with
  | nil => exact h'
  | cons hab _ ih => exact .cons hab ih
  | left _ ih => exact .left ih
  | right _ ih => exact .right ih

variable (s : ProcessSetting) (ctx : BranchContext) (h : SameArms as bs)

include h

theorem findSome?_edge? : as.findSome? (Arm.edge? s) = bs.findSome? (Arm.edge? s) := by
  induction h with
  | nil => rfl
  | cons hab _ ih => rw [List.findSome?_cons, List.findSome?_cons, hab.edge?_eq, ih]
  | left _ ih => exact ih
  | right _ ih => exact ih

theorem any_edge? : (as.any fun a => (a.edge? s).isSome) = bs.any fun a => (a.edge? s).isSome := by
  induction h with
  | nil => rfl
  | cons hab _ ih => rw [List.any_cons, List.any_cons, hab.edge?_eq, ih]
  | left _ ih => exact ih
  | right _ ih => exact ih

theorem any_edgeIsFar : as.any (Arm.edgeIsFar s) = bs.any (Arm.edgeIsFar s) := by
  induction h with
  | nil => rfl
  | cons hab _ ih => rw [List.any_cons, List.any_cons, hab.edgeIsFar_eq, ih]
  | left _ ih => exact ih
  | right _ ih => exact ih

theorem concat_activity :
    Activity.concat (as.map (Arm.activity s ctx)) =
      Activity.concat (bs.map (Arm.activity s ctx)) := by
  have hempty : ∀ cs : List Arm, Activity.concat (({} :: cs).map (Arm.activity s ctx)) =
      Activity.concat (cs.map (Arm.activity s ctx)) := fun cs => Activity.empty_append _
  induction h with
  | nil => rfl
  | cons hab _ ih =>
    rw [List.map_cons, List.map_cons, hab.activity_eq s ctx]
    exact congrArg (Activity.append _) ih
  | left _ ih => exact (hempty _).trans ih
  | right _ ih => exact ih.trans (hempty _).symm

end SameArms

theorem activity_of_ifStatement {n : Node} (hkind : n.kind = .ifStatement) (s : ProcessSetting)
    (ctx : BranchContext) : activity s ctx n =
      { clock := n.arms.findSome? (Arm.edge? s)
        reset := (resetCondition? s ctx n.arms).bind (resetOf? s.config s.lookup)
        farLine := n.arms.any (Arm.edgeIsFar s)
        farReset := (resetCondition? s ctx n.arms).any fun c => relationIsFar (innerRelation c) } ++
      Activity.concat [] ++ Activity.concat (n.arms.map (Arm.activity s ctx)) := by
  rw [activity_eq, steps, hkind]
  simp only [StatementForm.ofKind, ifSteps, List.map_cons, List.map_map, List.map_nil]
  rfl

/-- **`if` statements with the same arms do the same.** -/
theorem SameArms.activity_eq {n m : Node} {a b : Arm} {as bs : List Arm}
    (hn : n.kind = .ifStatement) (hm : m.kind = .ifStatement) (harms : n.arms = a :: as)
    (harms' : m.arms = b :: bs) (hab : SameArm a b) (h : SameArms as bs) (s : ProcessSetting)
    (ctx : BranchContext) : activity s ctx n = activity s ctx m := by
  have hall : SameArms (a :: as) (b :: bs) := .cons hab h
  have hreset : resetCondition? s ctx (a :: as) = resetCondition? s ctx (b :: bs) := by
    rw [resetCondition?, resetCondition?, hab.edge?_eq, hab.condition, h.any_edge?]
  rw [activity_of_ifStatement hn, activity_of_ifStatement hm, harms, harms', hreset,
    hall.findSome?_edge?, hall.any_edgeIsFar, hall.concat_activity]

/-! ## Bodies -/

/-- Whether a node is a construct that is no clause of an `if` statement. -/
def Node.isArmPart (n : Node) : Bool :=
  n.named && !(n.kind == .elsifClause || n.kind == .elseClause)

theorem Node.armPieces_cons_of_isArmPart {n : Node} (h : n.isArmPart = true) (ns : List Node) :
    armPieces (n :: ns) =
      if n.isUnder "label" || n.isComment then armPieces ns else .part n :: armPieces ns := by
  simp only [isArmPart, Bool.and_eq_true, Bool.not_eq_true'] at h
  have hclause : n.isArmClause = false := by simp [isArmClause, h.2]
  simp only [armPieces, List.filterMap_cons, hclause, armPiece?, h.1]
  split <;> simp_all

/-- Alike bodies make one arm each, and the two arms are the same. No condition is expected, so
only a node under that field can become one. -/
theorem SameArm.arms_body {ns ms : List Node} (h : List.Forall₂ Alike ns ms)
    (hparts : ∀ n ∈ ns, n.isArmPart = true) {a b : Arm} (hab : SameArm a b) :
    ∃ a' b', ArmPiece.arms (some a) false (armPieces ns) = [a'] ∧
      ArmPiece.arms (some b) false (armPieces ms) = [b'] ∧ SameArm a' b' := by
  induction h generalizing a b with
  | nil => exact ⟨a, b, rfl, rfl, hab⟩
  | @cons n m ns ms hnm _ ih =>
    have hn : n.isArmPart = true := hparts n List.mem_cons_self
    have hm : m.isArmPart = true := by rwa [isArmPart, ← hnm.named_eq, ← hnm.kind_eq]
    have ih := fun {a b : Arm} (hab : SameArm a b) =>
      ih (fun c hc => hparts c (List.mem_cons_of_mem n hc)) hab
    rw [armPieces_cons_of_isArmPart hn, armPieces_cons_of_isArmPart hm, ← hnm.isUnder_eq,
      ← hnm.isComment_eq]
    split
    · exact ih hab
    · simp only [ArmPiece.arms, Option.getD_some, Bool.or_false, ← hnm.isUnder_eq, ← hab.condition]
      split
      · rename_i hcondition
        have hlooked : n.isLookedInto = true := by
          simp only [Bool.and_eq_true] at hcondition
          simp [isLookedInto, hcondition.1]
        obtain rfl := hnm.eq_of_isLookedInto hlooked
        exact ih ⟨rfl, hab.body⟩
      · exact ih ⟨rfl, List.rel_append hab.body (.cons hnm .nil)⟩

end DesignFacts

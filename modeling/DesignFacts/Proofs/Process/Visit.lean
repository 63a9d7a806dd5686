import DesignFacts.Proofs.Name.Visit

/-!
# The statements that a walk comes to

The walk over a process goes into the arms of branches, the alternatives of case statements and
containers. Which statements it comes to does not depend on names, clocks or guards.

**Statements.** `Node.innerStatements` has the statements directly in a statement, and
`Node.allStatements` a statement with all statements in it, each before those in it.

**Document order.** The nodes of a tree come in document order in `Node.subtree`. Statements are
handed on from left to right and never twice, so all statements in a statement are a sublist of it
(`allStatements_sublist`).

**What a walk finds.** What a walk lists is what the statements list one by one
(`Activity.IsRow.activity_eq_flatMap`), so the signals that it finds driven are theirs
(`drives_processActivity`). The clock is that of the first statement that has one
(`clock_activity`).
-/

namespace DesignFacts

open Text

namespace Node

/-! ## Statements -/

/-- The statements directly in a statement: those in the arms of a branch, in the alternatives of a
case statement, or in a container. -/
def innerStatements (n : Node) : List Node :=
  match StatementForm.ofKind n.kind with
  | .branch => n.arms.flatMap (·.body)
  | .choice => n.alternatives.flatMap alternativeStatements
  | .container => n.containedStatements
  | .assignment _ | .wait | .call | .silent | .expression => []

/-- The steps of a statement hand on the statements in it, in order. -/
theorem flatMap_statements_steps (s : ProcessSetting) (ctx : BranchContext) (n : Node) :
    (steps s ctx n).flatMap (·.statements) = n.innerStatements := by
  unfold steps innerStatements
  cases StatementForm.ofKind n.kind with
  | branch =>
    show [] ++ (n.arms.map (Arm.step s ctx)).flatMap (·.statements) = _
    rw [List.nil_append, List.flatMap_map]
    rfl
  | choice | container => exact List.append_nil _
  | assignment _ | wait | call | silent | expression => rfl

theorem sizeOf_lt_of_mem_innerStatements {n m : Node} (hm : m ∈ n.innerStatements) :
    sizeOf m < sizeOf n := by
  rw [← flatMap_statements_steps ⟨{}, declaredLookup, [], []⟩ {} n] at hm
  obtain ⟨t, ht, hm⟩ := List.mem_flatMap.1 hm
  exact sizeOf_lt_of_mem_steps ht hm

/-- A statement and all statements in it, each before those in it. -/
def allStatements (n : Node) : List Node :=
  n :: n.innerStatements.attach.flatMap fun m => allStatements m.1
termination_by sizeOf n
decreasing_by exact sizeOf_lt_of_mem_innerStatements m.2

theorem allStatements_eq (n : Node) :
    n.allStatements = n :: n.innerStatements.flatMap allStatements := by
  rw [allStatements]
  simp

def processStatements (n : Node) : List Node := n.containedStatements.flatMap allStatements

end Node

/-! ## Document order -/

/-- The statements that a piece of an `if` statement brings into the bodies of arms. -/
def ArmPiece.bodies : ArmPiece → List Node
  | start _ | conditionEnd => []
  | part n => [n]
  | clause arms => arms.flatMap (·.body)

/-- The bodies of the arms hold statements of the pieces, from left to right. -/
theorem ArmPiece.bodies_arms_sublist (ps : List ArmPiece) (current : Option Arm) (expects : Bool) :
    ((arms current expects ps).flatMap (·.body)).Sublist
      ((current.map (·.body)).getD [] ++ ps.flatMap bodies) := by
  have hcurrent (o : Option Arm) : o.toList.flatMap (·.body) = (o.map (·.body)).getD [] := by
    cases o <;> simp
  induction ps generalizing current expects with
  | nil =>
    rw [arms, hcurrent, List.flatMap_nil, List.append_nil]
  | cons p ps ih =>
    cases p with
    | start conditional =>
      rw [arms, List.flatMap_append, hcurrent]
      exact (ih (some {}) conditional).append_left _
    | conditionEnd => exact ih current false
    | clause inner =>
      rw [arms, List.flatMap_append, List.flatMap_append, hcurrent, List.append_assoc]
      exact ((ih none expects).append_left _).append_left _
    | part n =>
      have hbody : (current.getD {}).body = (current.map (·.body)).getD [] := by
        cases current <;> rfl
      rw [arms]
      split
      · -- The node becomes the condition, which is in no body.
        refine (ih _ false).trans ?_
        show ((current.getD {}).body ++ _).Sublist _
        rw [hbody]
        exact (List.sublist_cons_self n _).append_left _
      · refine (ih _ expects).trans ?_
        show (((current.getD {}).body ++ [n]) ++ _).Sublist _
        rw [hbody, List.append_assoc]
        exact List.Sublist.refl _

namespace Node

/-- The bodies of the arms lie in the statement from left to right, clauses within clauses. -/
theorem subtrees_arms_sublist (n : Node) :
    (subtrees (n.arms.flatMap (·.body))).Sublist (subtrees n.children) := by
  rw [arms_eq]
  refine (subtrees_sublist (ArmPiece.bodies_arms_sublist _ none false)).trans ?_
  rw [Option.map_none, Option.getD_none, List.nil_append, List.filterMap_eq_flatMap_toList,
    List.flatMap_assoc]
  refine (subtrees_flatMap_sublist ?_).trans (subtrees_sublist (List.takeWhile_sublist _))
  intro c hc
  have hlt := sizeOf_lt_of_mem_children (mem_children_of_mem_armChildren hc)
  split
  · rw [Option.toList_some, List.flatMap_singleton]
    exact (subtrees_arms_sublist c).trans c.subtrees_children_sublist
  · unfold armPiece?
    repeat' split
    all_goals simp [ArmPiece.bodies, subtrees]
termination_by sizeOf n

/-- The statements in a statement lie in it from left to right. -/
theorem subtrees_innerStatements_sublist (n : Node) :
    (subtrees n.innerStatements).Sublist (subtrees n.children) := by
  unfold innerStatements
  cases StatementForm.ofKind n.kind with
  | branch => exact n.subtrees_arms_sublist
  | choice =>
    refine (subtrees_flatMap_sublist ?_).trans (subtrees_collect_sublist .caseAlternative n)
    intro c _
    have hstatements : c.alternativeStatements.Sublist c.children := by
      refine List.filter_sublist.trans ?_
      unfold aroundArrow
      cases hsplit : splitAt? (·.isToken "=>") c.children with
      | none => exact List.Sublist.refl _
      | some sides => exact splitAt?_right_sublist hsplit
    exact (subtrees_sublist hstatements).trans c.subtrees_children_sublist
  | container =>
    exact subtrees_sublist (List.filter_sublist.trans (List.takeWhile_sublist _))
  | assignment _ | wait | call | silent | expression => exact List.nil_sublist _

theorem flatMap_allStatements_sublist {ns : List Node}
    (h : ∀ n ∈ ns, n.allStatements.Sublist n.subtree) :
    (ns.flatMap allStatements).Sublist (subtrees ns) := by
  rw [subtrees_eq_flatMap]
  exact List.Sublist.flatMap_right _ h

theorem allStatements_sublist (n : Node) : n.allStatements.Sublist n.subtree := by
  rw [allStatements_eq, subtree_eq]
  apply List.Sublist.cons_cons
  refine (flatMap_allStatements_sublist ?_).trans n.subtrees_innerStatements_sublist
  intro m hm
  have hlt := sizeOf_lt_of_mem_innerStatements hm
  exact m.allStatements_sublist
termination_by sizeOf n

/-- The statements of a process come in document order. -/
theorem processStatements_sublist (n : Node) : n.processStatements.Sublist n.subtree := by
  have hcontained : n.containedStatements.Sublist n.children :=
    List.filter_sublist.trans (List.takeWhile_sublist _)
  refine (flatMap_allStatements_sublist fun m _ => m.allStatements_sublist).trans ?_
  exact (subtrees_sublist hcontained).trans n.subtrees_children_sublist

end Node

/-! ## What a walk finds -/

namespace StatementForm

/-- Only signal assignments are walked as such. -/
theorem eq_sequentialSignalAssignment {k : Kind} (h : ofKind k = .assignment true) :
    k = .sequentialSignalAssignment := by
  revert h
  cases k <;> first | exact fun _ => rfl | (intro h; cases h)

/-- Only `if` statements are walked arm by arm. -/
theorem eq_ifStatement {k : Kind} (h : ofKind k = .branch) : k = .ifStatement := by
  revert h
  cases k <;> first | exact fun _ => rfl | (intro h; cases h)

/-- What is walked differently is of another kind. -/
theorem kind_beq_eq_false {k k' : Kind} (h : ofKind k ≠ ofKind k') : (k == k') = false :=
  beq_eq_false_iff_ne.2 (mt (congrArg ofKind) h)

end StatementForm

namespace Node

/-- The expressions that an assignment in a process reads: its values and the indices of its
target. -/
def assignmentReads (n : Node) : List Node :=
  n.assignmentValues ++ (n.assignmentTarget?.map arguments).getD []

def assigned? (L : Lookup) (n : Node) : Option ResolvedName :=
  n.assignmentTarget?.bind (resolve L)

/-- What a signal assignment drives, if it assigns to a name. -/
def drive? (L : Lookup) (n : Node) : Option Drive :=
  (n.assigned? L).map fun r =>
    { target := r.path, reads := (scanAll L n.assignmentReads).readPaths, line := n.line }

def assignsSignal (n : Node) : Bool := n.kind == .sequentialSignalAssignment

/-- What a statement drives itself. -/
def ownDrives (L : Lookup) (n : Node) : List Drive :=
  if n.assignsSignal then (n.drive? L).toList else []

/-- The clock that a statement tests itself: that of its first arm with an edge. -/
def ownClock? (s : ProcessSetting) (n : Node) : Option (ClockEdge × Text) :=
  if n.kind == .ifStatement then n.arms.findSome? (Arm.edge? s) else none

end Node

/-- The first result among rows is the first one of the first row that has any. -/
theorem findSome?_flatMap {α β γ : Type} (f : β → Option γ) (g : α → List β) (xs : List α) :
    (xs.flatMap g).findSome? f = xs.findSome? fun x => (g x).findSome? f := by
  induction xs with
  | nil => rfl
  | cons x xs ih =>
    rw [List.flatMap_cons, List.findSome?_append, List.findSome?_cons, ih]
    cases (g x).findSome? f <;> rfl

theorem findSome?_congr {α β : Type} {f g : α → Option β} {xs : List α}
    (h : ∀ x ∈ xs, f x = g x) : xs.findSome? f = xs.findSome? g := by
  induction xs with
  | nil => rfl
  | cons x xs ih =>
    rw [List.findSome?_cons, List.findSome?_cons, h x List.mem_cons_self,
      ih fun y hy => h y (List.mem_cons_of_mem x hy)]

theorem Activity.clock_concat {α : Type} (f : α → Activity) (xs : List α) :
    (concat (xs.map f)).clock = xs.findSome? fun x => (f x).clock := by
  induction xs with
  | nil => rfl
  | cons x xs ih =>
    show (f x).clock.or (concat (xs.map f)).clock = _
    rw [List.findSome?_cons, ih]
    cases (f x).clock <;> rfl

section Steps

variable (s : ProcessSetting) (ctx : BranchContext) (n : Node)

theorem drives_assignmentActivity (isSignal : Bool) :
    (assignmentActivity s ctx isSignal n).drives =
      if isSignal then (n.drive? s.lookup).toList else [] := by
  unfold Node.drive? Node.assigned?
  cases htarget : n.assignmentTarget?.bind (resolve s.lookup) with
  | none => cases isSignal <;> simp only [assignmentActivity, htarget] <;> rfl
  | some r => cases isSignal <;> simp only [assignmentActivity, htarget] <;> rfl

theorem drives_procedureCallActivity : (procedureCallActivity s n).drives = [] := by
  unfold procedureCallActivity
  split <;> rfl

theorem clock_procedureCallActivity : (procedureCallActivity s n).clock = none := by
  unfold procedureCallActivity
  split <;> rfl

variable {n}

theorem Node.ownDrives_eq_nil {L : Lookup}
    (h : StatementForm.ofKind n.kind ≠ .assignment true) : n.ownDrives L = [] := by
  have hkind : n.assignsSignal = false := StatementForm.kind_beq_eq_false h
  rw [ownDrives, hkind]
  rfl

theorem Node.ownClock?_eq_none (h : StatementForm.ofKind n.kind ≠ .branch) :
    n.ownClock? s = none := by
  have hkind : (n.kind == .ifStatement) = false := StatementForm.kind_beq_eq_false h
  rw [ownClock?, hkind]
  rfl

variable (n)

/-- What a statement does itself, before the statements in it: what its first step does. -/
def ownActivity : Activity := ((steps s ctx n).head?.map (·.own)).getD {}

/-- A statement drives itself what its first step drives. -/
theorem drives_ownActivity : (ownActivity s ctx n).drives = n.ownDrives s.lookup := by
  unfold ownActivity steps
  cases hform : StatementForm.ofKind n.kind with
  | assignment isSignal =>
    show (assignmentActivity s ctx isSignal n).drives = _
    rw [drives_assignmentActivity]
    cases isSignal with
    | true =>
      have hkind := StatementForm.eq_sequentialSignalAssignment hform
      simp [Node.ownDrives, Node.assignsSignal, hkind]
    | false =>
      rw [Node.ownDrives_eq_nil (by simp [hform])]
      rfl
  | call =>
    rw [Node.ownDrives_eq_nil (by simp [hform])]
    exact drives_procedureCallActivity s n
  | branch | choice | wait | silent | expression | container =>
    rw [Node.ownDrives_eq_nil (by simp [hform])]
    rfl

/-- The steps of a statement test the clock of the statement first, and then those of the statements
in it. -/
theorem clock_steps (inner : Node → Option (ClockEdge × Text)) :
    (steps s ctx n).findSome? (fun t => t.own.clock.or (t.statements.findSome? inner)) =
      (n.ownClock? s).or (n.innerStatements.findSome? inner) := by
  unfold steps Node.innerStatements
  cases hform : StatementForm.ofKind n.kind with
  | branch =>
    have hkind := StatementForm.eq_ifStatement hform
    have hown : n.ownClock? s = n.arms.findSome? (Arm.edge? s) := by simp [Node.ownClock?, hkind]
    rw [hown, findSome?_flatMap]
    show ({ own := _, context := ctx } :: n.arms.map (Arm.step s ctx)).findSome? _ = _
    rw [← List.singleton_append, List.findSome?_append, List.findSome?_singleton,
      List.findSome?_map]
    show ((n.arms.findSome? (Arm.edge? s)).or none).or _ = _
    rw [Option.or_none]
    rfl
  | call =>
    rw [Node.ownClock?_eq_none s (by simp [hform]), List.findSome?_singleton,
      clock_procedureCallActivity]
  | silent =>
    rw [Node.ownClock?_eq_none s (by simp [hform])]
    rfl
  | assignment _ | choice | wait | expression | container =>
    rw [Node.ownClock?_eq_none s (by simp [hform])]
    exact List.findSome?_singleton

end Steps

/-- A list in activities that joining joins, and that conditions leave empty. -/
structure Activity.IsRow {α : Type} (s : ProcessSetting) (f : Activity → List α) : Prop where
  empty : f {} = []
  append : ∀ a b, f (a ++ b) = f a ++ f b
  condition : ∀ ctx ns, f (expressionActivity s ctx none none ns) = []

namespace Activity.IsRow

variable {α : Type} {s : ProcessSetting} {f : Activity → List α} (hf : IsRow s f)
include hf

/-- The steps of a statement list what the statement has itself, and then what the statements in it
have. -/
theorem flatMap_steps (ctx : BranchContext) (n : Node) (inner : Node → List α) :
    (steps s ctx n).flatMap (fun t => f t.own ++ t.statements.flatMap inner) =
      f (ownActivity s ctx n) ++ n.innerStatements.flatMap inner := by
  unfold ownActivity steps Node.innerStatements
  cases StatementForm.ofKind n.kind with
  | branch =>
    -- The steps after the first one are the arms, which list nothing for their conditions.
    have harms : ∀ a ∈ n.arms,
        f (Arm.step s ctx a).own ++ (Arm.step s ctx a).statements.flatMap inner =
          a.body.flatMap inner := by
      intro a _
      rw [Arm.step, hf.condition, List.nil_append]
    show (f _ ++ []) ++ (n.arms.map (Arm.step s ctx)).flatMap _ = _
    rw [List.append_nil, List.flatMap_map, List.flatMap_congr harms, List.flatMap_assoc]
    rfl
  | silent =>
    show [] = f {} ++ []
    rw [hf.empty]
    rfl
  | assignment _ | choice | wait | call | expression | container =>
    exact List.flatMap_singleton _ _

/-- What a walk lists is what the statements list themselves, one by one. -/
theorem activity_eq_flatMap {own : Node → List α}
    (hown : ∀ ctx n, f (ownActivity s ctx n) = own n) (ctx : BranchContext) (n : Node) :
    f (activity s ctx n) = n.allStatements.flatMap own := by
  induction ctx, n using activity.induct s with
  | case1 ctx n ih =>
    have hinner : ∀ t ∈ steps s ctx n,
        f (t.own ++ .concat (t.statements.map (activity s t.context))) =
          f t.own ++ t.statements.flatMap fun m => m.allStatements.flatMap own := by
      intro t ht
      rw [hf.append, Activity.concat_eq_flatMap hf.empty hf.append, List.flatMap_map]
      congr 1
      exact List.flatMap_congr fun m hm => ih ⟨t, ht⟩ ⟨m, hm⟩
    rw [activity_eq, Activity.concat_eq_flatMap hf.empty hf.append, List.flatMap_map,
      List.flatMap_congr hinner, hf.flatMap_steps, hown, Node.allStatements_eq, List.flatMap_cons,
      List.flatMap_assoc]

end Activity.IsRow

/-- A walk finds the clock of the first statement that tests one. -/
theorem clock_activity (s : ProcessSetting) (ctx : BranchContext) (n : Node) :
    (activity s ctx n).clock = n.allStatements.findSome? (Node.ownClock? s) := by
  induction ctx, n using activity.induct s with
  | case1 ctx n ih =>
    have hinner : ∀ t ∈ steps s ctx n,
        (t.own ++ .concat (t.statements.map (activity s t.context)) : Activity).clock =
          t.own.clock.or (t.statements.findSome? fun m =>
            m.allStatements.findSome? (Node.ownClock? s)) := by
      intro t ht
      show t.own.clock.or _ = _
      rw [Activity.clock_concat]
      congr 1
      exact findSome?_congr fun m hm => ih ⟨t, ht⟩ ⟨m, hm⟩
    rw [activity_eq, Activity.clock_concat, findSome?_congr hinner, clock_steps,
      Node.allStatements_eq, List.findSome?_cons, findSome?_flatMap]
    cases n.ownClock? s <;> rfl

/-! ## Processes -/

section Processes

variable (config : Config) (L : Lookup) (scope : Scope) (n : Node)

/-- What the walk over a process lists is what its statements list themselves, one by one. -/
theorem Activity.IsRow.processActivity_eq_flatMap {α : Type} {f : Activity → List α}
    {own : Node → List α} (hf : IsRow (processSetting config L scope n) f)
    (hown : ∀ ctx m, f (ownActivity (processSetting config L scope n) ctx m) = own m) :
    f (processActivity config L scope n) = n.processStatements.flatMap own := by
  rw [processActivity, concat_eq_flatMap hf.empty hf.append, List.flatMap_map,
    Node.processStatements, List.flatMap_assoc]
  exact List.flatMap_congr fun m _ => hf.activity_eq_flatMap hown {} m

theorem drives_processActivity :
    (processActivity config L scope n).drives =
      n.processStatements.flatMap (Node.ownDrives (L.withLocals n.localNames)) :=
  Activity.IsRow.processActivity_eq_flatMap config L scope n
    ⟨rfl, fun _ _ => rfl, fun _ _ => rfl⟩ (drives_ownActivity _)

theorem clock_processActivity :
    (processActivity config L scope n).clock =
      n.processStatements.findSome? (Node.ownClock? (processSetting config L scope n)) := by
  rw [processActivity, Activity.clock_concat, Node.processStatements, findSome?_flatMap]
  exact findSome?_congr fun m _ => clock_activity _ {} m

end Processes

end DesignFacts

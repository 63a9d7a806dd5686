import DesignFacts.Proofs.Extraction.Record

/-!
# Guards of operations

An arm of an `if` statement guards the statements in its body with the first signal that its
condition reads. An arm that tests a clock edge guards nothing, and neither does one whose condition
reads nothing; what stands in such an arm is guarded from further out.

The tree says which arms a statement stands in (`Node.Encloses`), so its guard is that of the
innermost arm that has one (`guardOf?`). The walk instead carries a guard along
(`BranchContext.guard`). This file ties the two together.

* `operations_steps`: the own operations of a statement.
* `mem_arithmeticOps_activity`: the operations that a walk finds, with the arms that they stand in.

Main result: the operations of a process are those of the expressions of its statements, each with
the guard of its statement (`mem_arithmeticOps_processHarvest`), except that wait statements and
procedure calls lose their guard (`StatementForm.losesGuard`).
-/

namespace DesignFacts

open Text

/-! ## Guards of arms -/

/-- The signal with which an arm guards its body: the first one that its condition reads, unless it
tests a clock edge. -/
def Arm.guard? (s : ProcessSetting) (a : Arm) : Option Text :=
  if (a.edge? s).isSome then none
  else a.condition.bind fun c => (scan s.lookup c).reads.head?.map (·.base)

/-- The guard inside some arms, the innermost one first. -/
def guardOf? (s : ProcessSetting) (arms : List Arm) : Option Text := arms.findSome? (Arm.guard? s)

theorem Arm.guard_context (s : ProcessSetting) (ctx : BranchContext) (a : Arm) :
    (a.context s ctx).guard = (a.guard? s).or ctx.guard := by
  rw [Arm.context, Arm.guard?]
  by_cases hedge : (a.edge? s).isSome = true
  · rw [if_pos hedge, if_pos hedge]
    rfl
  · rw [if_neg hedge, if_neg hedge]
    cases a.condition <;> rfl

/-! ## Statements in statements -/

namespace Node

/-- A statement stands directly in another one: in the body of an arm of it, or in no arm. -/
inductive Encloses₁ : Node → Option Arm → Node → Prop
  | contained {n m : Node} (hform : StatementForm.ofKind n.kind = .container)
      (hm : m ∈ n.containedStatements) : Encloses₁ n none m
  | alternative {n c m : Node} (hform : StatementForm.ofKind n.kind = .choice)
      (hc : c ∈ n.alternatives) (hm : m ∈ c.alternativeStatements) : Encloses₁ n none m
  | arm {n m : Node} {a : Arm} (hform : StatementForm.ofKind n.kind = .branch) (ha : a ∈ n.arms)
      (hm : m ∈ a.body) : Encloses₁ n (some a) m

/-- A statement stands in another one, or is it, with the arms on the way to it, the innermost one
first. -/
inductive Encloses : Node → List Arm → Node → Prop
  | self (n : Node) : Encloses n [] n
  | inside {n m k : Node} {a : Option Arm} {arms : List Arm} (h : Encloses₁ n a m)
      (hk : Encloses m arms k) : Encloses n (arms ++ a.toList) k

/-- The context of the statements directly in a statement. -/
theorem exists_mem_steps_iff {s : ProcessSetting} {ctx inner : BranchContext} {n m : Node} :
    (∃ t ∈ steps s ctx n, t.context = inner ∧ m ∈ t.statements) ↔
      ∃ a, n.Encloses₁ a m ∧ inner = (a.map (Arm.context s ctx)).getD ctx := by
  constructor
  · rintro ⟨t, ht, rfl, hm⟩
    unfold steps at ht
    split at ht
    -- Only `if` statements, case statements and containers hold statements.
    case h_2 hform =>
      rcases List.mem_cons.1 ht with rfl | ht
      · cases hm
      · obtain ⟨a, ha, rfl⟩ := List.mem_map.1 ht
        exact ⟨some a, .arm hform ha hm, rfl⟩
    case h_6 => cases ht
    all_goals
      obtain rfl := List.mem_singleton.1 ht
    case h_3 hform =>
      obtain ⟨c, hc, hmc⟩ := List.mem_flatMap.1 hm
      exact ⟨none, .alternative hform hc hmc, rfl⟩
    case h_8 hform => exact ⟨none, .contained hform hm, rfl⟩
    all_goals cases hm
  · rintro ⟨a, h, rfl⟩
    cases h with
    | contained hform hm =>
      refine ⟨{ context := ctx, statements := n.containedStatements }, ?_, rfl, hm⟩
      rw [steps, hform]
      exact List.mem_singleton_self _
    | alternative hform hc hm =>
      refine ⟨caseStep s ctx n, ?_, rfl, List.mem_flatMap.2 ⟨_, hc, hm⟩⟩
      rw [steps, hform]
      exact List.mem_singleton_self _
    | arm hform ha hm =>
      refine ⟨Arm.step s ctx _, ?_, rfl, hm⟩
      rw [steps, hform]
      exact List.mem_cons_of_mem _ (List.mem_map_of_mem ha)

end Node

/-! ## The operations of one statement -/

/-- Whether the expressions of a form of statement lose the guard around it. -/
def StatementForm.losesGuard : StatementForm → Bool
  | wait | call => true
  | _ => false

namespace Node

def callArguments (L : Lookup) (n : Node) : List Node :=
  match n.calleeIndex?.bind fun i => n.children[i]? with
  | none => []
  | some callee => (if (resolve L callee).isSome then callee.arguments else []) ++ n.calleeSiblings

/-- The expressions of a statement, without those of the statements in it. -/
def expressions (L : Lookup) (n : Node) : List Node :=
  match StatementForm.ofKind n.kind with
  | .assignment _ => n.assignmentValues ++ (n.assignmentTarget?.map arguments).getD []
  | .branch => n.arms.flatMap (·.condition.toList)
  | .choice => n.caseExpression?.toList
  | .wait => n.waitItems .signals ++ n.waitItems .condition ++ n.waitItems .timeout
  | .call => n.callArguments L
  | .expression => [n]
  | .silent | .container => []

/-- What a statement assigns. -/
def result? (L : Lookup) (n : Node) : Option Text :=
  match StatementForm.ofKind n.kind with
  | .assignment _ => (n.assignmentTarget?.bind (resolve L)).map (·.path)
  | _ => none

/-- The costly operations in the expressions of a statement, if it is guarded by `guard`. -/
def operations (s : ProcessSetting) (guard : Option Text) (n : Node) : List ArithmeticOp :=
  (n.expressions s.lookup).flatMap (arithmeticOps s.lookup
    { inProcess := s.inProcess, inArch := s.inArch, drives := n.result? s.lookup, guard })

/-- The guard with which the operations of a statement are reported, if `guard` is the one around
it. -/
def keptGuard (guard : Option Text) (n : Node) : Option Text :=
  if (StatementForm.ofKind n.kind).losesGuard then none else guard

end Node

theorem Node.mem_operations {s : ProcessSetting} {guard : Option Text} {n : Node}
    {op : ArithmeticOp} :
    op ∈ n.operations s guard ↔ ∃ e ∈ n.expressions s.lookup, ∃ x ∈ e.subtree,
      ∃ operator operands, x.costlyOperation? = some (operator, operands) ∧
        op = {
          operator
          operands := operands.map (operandText s.lookup)
          result := n.result? s.lookup
          guard
          inProcess := s.inProcess
          inArch := s.inArch
          line := x.line } := by
  simp only [operations, arithmeticOps, arithmeticOp?, List.mem_flatMap, List.mem_filterMap,
    Option.map_eq_some_iff, Prod.exists, eq_comm (a := op)]

theorem arithmeticOps_procedureCallActivity (s : ProcessSetting) (n : Node) :
    (procedureCallActivity s n).arithmeticOps =
      (n.callArguments s.lookup).flatMap
        (arithmeticOps s.lookup ⟨s.inProcess, s.inArch, none, none⟩) := by
  rw [procedureCallActivity, Node.callArguments]
  cases n.calleeIndex?.bind fun i => n.children[i]? with
  | none => rfl
  | some callee =>
    -- An unresolved callee passes on no arguments of its own.
    cases hcallee : resolve s.lookup callee <;> simp only [hcallee] <;> rfl

theorem arithmeticOps_ifSteps (s : ProcessSetting) (ctx : BranchContext) (n : Node) :
    (ifSteps s ctx n).flatMap (·.own.arithmeticOps) =
      (n.arms.flatMap (·.condition.toList)).flatMap
        (arithmeticOps s.lookup ⟨s.inProcess, s.inArch, none, ctx.guard⟩) := by
  rw [List.flatMap_assoc]
  show [] ++ (n.arms.map (Arm.step s ctx)).flatMap (·.own.arithmeticOps) = _
  rw [List.nil_append, List.flatMap_map]
  rfl

/-- The own operations of a statement are those in its expressions. -/
theorem operations_steps (s : ProcessSetting) (ctx : BranchContext) (n : Node) :
    (steps s ctx n).flatMap (·.own.arithmeticOps) = n.operations s (n.keptGuard ctx.guard) := by
  unfold steps Node.operations Node.keptGuard Node.expressions Node.result?
  cases StatementForm.ofKind n.kind with
  | branch => exact arithmeticOps_ifSteps s ctx n
  | call =>
    rw [List.flatMap_singleton]
    exact arithmeticOps_procedureCallActivity s n
  | silent | container => rfl
  | assignment _ | choice | wait =>
    -- Beside the expressions there is only the record of the statement, without operations.
    rw [List.flatMap_singleton]
    exact List.append_nil _
  | expression =>
    rw [List.flatMap_singleton]
    rfl

/-! ## The operations of a process -/

theorem Activity.mem_arithmeticOps_concat {α : Type} {op : ArithmeticOp} {f : α → Activity}
    {xs : List α} :
    op ∈ (concat (xs.map f)).arithmeticOps ↔ ∃ x ∈ xs, op ∈ (f x).arithmeticOps := by
  have hconcat : (concat (xs.map f)).arithmeticOps = xs.flatMap fun x => (f x).arithmeticOps := by
    induction xs with
    | nil => rfl
    | cons x xs ih =>
      rw [List.flatMap_cons, ← ih]
      rfl
  rw [hconcat, List.mem_flatMap]

/-- An operation of a statement is one of its own or one of a statement that it hands on. -/
theorem mem_arithmeticOps_activity_iff {s : ProcessSetting} {op : ArithmeticOp}
    {ctx : BranchContext} {n : Node} :
    op ∈ (activity s ctx n).arithmeticOps ↔
      op ∈ n.operations s (n.keptGuard ctx.guard) ∨
        ∃ t ∈ steps s ctx n, ∃ m ∈ t.statements, op ∈ (activity s t.context m).arithmeticOps := by
  have hstep : ∀ t : Step, op ∈ (t.own ++ .concat (t.statements.map
      (activity s t.context)) : Activity).arithmeticOps ↔ op ∈ t.own.arithmeticOps ∨
        ∃ m ∈ t.statements, op ∈ (activity s t.context m).arithmeticOps := by
    intro t
    show op ∈ t.own.arithmeticOps ++ _ ↔ _
    rw [List.mem_append, Activity.mem_arithmeticOps_concat]
  rw [activity_eq, Activity.mem_arithmeticOps_concat, ← operations_steps,
    List.mem_flatMap]
  simp only [hstep, and_or_left, exists_or]

/-- A walk finds the operations of every statement it comes to, with the guard of the arms on the
way to it, or else the guard it began with. -/
theorem mem_arithmeticOps_activity {s : ProcessSetting} {op : ArithmeticOp} (ctx : BranchContext)
    (n : Node) :
    op ∈ (activity s ctx n).arithmeticOps ↔ ∃ arms k, n.Encloses arms k ∧
      op ∈ k.operations s (k.keptGuard ((guardOf? s arms).or ctx.guard)) := by
  induction ctx, n using activity.induct s with
  | case1 ctx n ih =>
    -- The arms of a statement stand outside those of the statements in it, so its guard counts
    -- only if they have none.
    have hguard (arms : List Arm) (a : Option Arm) :
        (guardOf? s (arms ++ a.toList)).or ctx.guard =
          (guardOf? s arms).or ((a.map (Arm.context s ctx)).getD ctx).guard := by
      rw [guardOf?, List.findSome?_append, Option.or_assoc]
      cases a with
      | none => rfl
      | some a =>
        simp [Arm.guard_context, guardOf?]
    rw [mem_arithmeticOps_activity_iff]
    constructor
    · rintro (hop | ⟨t, ht, m, hm, hop⟩)
      · exact ⟨[], n, .self n, hop⟩
      · obtain ⟨a, ha, hctx⟩ := Node.exists_mem_steps_iff.1 ⟨t, ht, rfl, hm⟩
        obtain ⟨arms, k, hk, hop⟩ := (ih ⟨t, ht⟩ ⟨m, hm⟩).1 hop
        refine ⟨arms ++ a.toList, k, .inside ha hk, ?_⟩
        rw [hguard, ← hctx]
        exact hop
    · rintro ⟨arms, k, hk, hop⟩
      cases hk with
      | self => exact .inl hop
      | @inside _ m _ a arms ha hk =>
        obtain ⟨t, ht, hctx, hm⟩ := Node.exists_mem_steps_iff.2 ⟨a, ha, rfl⟩
        rw [hguard, ← hctx] at hop
        exact .inr ⟨t, ht, m, hm, (ih ⟨t, ht⟩ ⟨m, hm⟩).2 ⟨arms, k, hk, hop⟩⟩

/-- **The operations of a process**: one for each costly node in an expression of a statement, with
the guard of the innermost arm around the statement that has one. Wait statements and procedure
calls lose it. -/
theorem mem_arithmeticOps_processHarvest (config : Config) (L : Lookup) (scope : Scope) (n : Node)
    (op : ArithmeticOp) :
    let s := processSetting config L scope n
    op ∈ (processHarvest config L scope n).arithmeticOps ↔
      ∃ m ∈ n.containedStatements, ∃ arms k, m.Encloses arms k ∧
        ∃ e ∈ k.expressions s.lookup, ∃ x ∈ e.subtree, ∃ operator operands,
          x.costlyOperation? = some (operator, operands) ∧
          op = {
            operator
            operands := operands.map (operandText s.lookup)
            result := k.result? s.lookup
            guard := k.keptGuard (guardOf? s arms)
            inProcess := n.label?.getD []
            inArch := scope.path
            line := x.line } := by
  intro s
  show op ∈ (processActivity config L scope n).arithmeticOps ↔ _
  rw [processActivity, Activity.mem_arithmeticOps_concat]
  refine exists_congr fun m => and_congr_right fun _ => ?_
  rw [mem_arithmeticOps_activity]
  refine exists_congr fun arms => exists_congr fun k => and_congr_right fun _ => ?_
  rw [Option.or_none]
  exact Node.mem_operations

/-! ## Where guards are lost -/

/-- A procedure call that sends a product. -/
def sendCall : Node :=
  .branch "procedure_call_statement" [.under "name" (.branch "function_call" [
    .under "prefix" (.leaf "identifier" "send"), .branch "multiplicative_expression" [
      .leaf "identifier" "a", .word "*", .leaf "identifier" "b"]])]

/-- The branch that sends if `en` is set. -/
def enabledSend : Node :=
  .branch "if_statement" [.word "if", .leaf "identifier" "en", .word "then", sendCall, .word "end"]

def sender : Node := .branch "process_statement" [.word "begin", enabledSend, .word "end"]

/-- The product that the sender sends is not reported with its guard. -/
theorem sender_loses_guard :
    ¬ ∀ m ∈ sender.containedStatements, ∀ arms k, m.Encloses arms k →
      let s := processSetting {} (nameTable {} sender) .file sender
      ∀ op ∈ k.operations s (guardOf? s arms),
        op ∈ (processHarvest {} (nameTable {} sender) .file sender).arithmeticOps := by
  intro h
  let a : Arm := ⟨some (.leaf "identifier" "en"), [sendCall]⟩
  have harms : enabledSend.arms = [a] := by
    rw [Node.arms_eq]
    rfl
  have hencloses : enabledSend.Encloses [a] sendCall :=
    .inside (.arm rfl (harms ▸ List.mem_singleton_self a) (List.mem_singleton_self sendCall))
      (.self sendCall)
  have hm : sender.containedStatements = [enabledSend] := rfl
  let s := processSetting {} (nameTable {} sender) .file sender
  have hguard : (sendCall.operations s (guardOf? s [a])).map (·.guard) = [some "en".toList] := by
    decide +kernel
  have hreported : (processHarvest {} (nameTable {} sender) .file sender).arithmeticOps.map
      (·.guard) = [none] := by
    decide +kernel
  obtain ⟨op, hop, hen⟩ := List.mem_map.1 (hguard ▸ List.mem_singleton_self (some "en".toList))
  have hfound := h enabledSend (hm ▸ List.mem_singleton_self enabledSend) [a] sendCall hencloses
    op hop
  have hnone := List.mem_map_of_mem (f := (·.guard)) hfound
  rw [hreported, hen] at hnone
  cases List.mem_singleton.1 hnone

end DesignFacts

import DesignFacts.Process.Statement
import DesignFacts.Proofs.LetterCase.Declaration
import DesignFacts.Proofs.LetterCase.Expression

/-!
# Letter case of statements

The statements of processes over a source in small letters.

**Shape.** Arms, sections of a wait statement, alternatives and local declarations are found by
kinds, fields and keywords, so every statement falls into the same steps.

**Names.** Local names are kept in small letters, edge functions and resets are looked up in any
letter case. So the same conditions test a clock edge or a reset.

**Walking.** What a step does becomes small (`steps_lower`), and so does what a statement with all
statements in it does, by induction on the statement.

Main result: `activity_lower`.
-/

namespace DesignFacts

open Text

/-! ## Local names -/

theorem forParameter?_lower (seen : Bool) (ns : List Node) :
    forParameter? seen (ns.map Node.lower) = (forParameter? seen ns).map lower := by
  induction ns generalizing seen with
  | nil => rfl
  | cons n ns ih =>
    simp only [List.map_cons, forParameter?, Node.isToken_lower, Node.kind_lower,
      Node.trimmed_lower, ih]
    split
    · rfl
    · split
      · rfl
      · split <;> rfl

namespace Node

variable (n : Node)

@[simp] theorem loopParameter?_lower :
    n.lower.loopParameter? = n.loopParameter?.map Text.lower := by
  rw [loopParameter?, loopParameter?, childUnder_lower]
  cases n.childUnder "parameter" with
  | none => rw [descendants_lower]; exact forParameter?_lower false n.descendants
  | some p => simp

@[simp] theorem declaresLocals_lower : n.lower.declaresLocals = n.declaresLocals := by
  simp [declaresLocals]

mutual

theorem localNodes_lower : ∀ n : Node, n.lower.localNodes = n.localNodes.map lower
  | ⟨tag, named, field, start, stop, row, ahead, children⟩ => by
    simp only [lower, localNodes, lowerAll_eq_map, localNodesAmong_lower children]

theorem localNodesAmong_lower :
    ∀ ns : List Node, localNodesAmong (ns.map lower) = (localNodesAmong ns).map lower
  | [] => rfl
  | n :: ns => by
    simp only [List.map_cons, localNodesAmong, named_lower, isSubprogram_lower,
      declaresLocals_lower, kind_lower, localNodes_lower n, localNodesAmong_lower ns,
      List.map_append]
    congr 1
    split
    · rfl
    · split
      · rfl
      · split <;> rfl

end

theorem ownLocalNames_lower : n.lower.ownLocalNames = n.ownLocalNames := by
  simp only [ownLocalNames, declaresLocals_lower, objectNames_lower, loopParameter?_lower]
  split
  · simp
  · cases n.loopParameter? <;> simp

theorem localNames_lower : n.lower.localNames = n.localNames := by
  simp only [localNames, localNodes_lower, List.flatMap_map, ownLocalNames_lower]

theorem localVariables_lower :
    n.lower.localVariables = n.localVariables.map Variable.lower := by
  simp [localVariables, localNodes_lower, List.filter_map, List.flatMap_map, List.map_flatMap,
    ObjectDeclaration.lower, Variable.lower, Function.comp_def]

theorem localsAreFar_lower : n.lower.localsAreFar = n.localsAreFar := by
  simp [localsAreFar, localNodes_lower, Function.comp_def]

end Node

/-! ## Waits -/

/-- A piece of a wait statement in small letters. -/
def WaitPiece.lower : WaitPiece → WaitPiece
  | opening s => .opening s
  | item n => .item n.lower

namespace Node

variable (n : Node)

theorem waitKeyword?_lower : n.lower.waitKeyword? = n.waitKeyword? := by simp [waitKeyword?]

theorem waitClause?_lower : n.lower.waitClause? = n.waitClause? := by simp [waitClause?]

theorem ownWaitPieces_lower : n.lower.ownWaitPieces = n.ownWaitPieces.map WaitPiece.lower := by
  simp only [ownWaitPieces, named_lower, waitKeyword?_lower, isComment_lower, kind_lower,
    operandChildren_lower, isUnder_lower]
  split
  · simp [WaitPiece.lower, Function.comp_def]
  · split
    · rfl
    · split
      · simp [WaitPiece.lower, Function.comp_def]
      · split <;> rfl

mutual

theorem waitPieces_lower : ∀ n : Node, n.lower.waitPieces = n.waitPieces.map WaitPiece.lower
  | ⟨tag, named, field, start, stop, row, ahead, children⟩ => by
    simp only [lower, waitPieces, lowerAll_eq_map, waitPiecesAmong_lower children]

theorem waitPiecesAmong_lower :
    ∀ ns : List Node, waitPiecesAmong (ns.map lower) = (waitPiecesAmong ns).map WaitPiece.lower
  | [] => rfl
  | n :: ns => by
    simp only [List.map_cons, waitPiecesAmong, waitClause?_lower, waitPieces_lower n,
      ownWaitPieces_lower, waitPiecesAmong_lower ns, List.map_append]
    congr 1
    split <;> rfl

end

end Node

theorem WaitPiece.itemsIn_lower (wanted : WaitSection) (current : Option WaitSection)
    (ps : List WaitPiece) :
    itemsIn wanted current (ps.map lower) = (itemsIn wanted current ps).map Node.lower := by
  induction ps generalizing current with
  | nil => rfl
  | cons p ps ih =>
    cases p with
    | opening s => exact ih (some s)
    | item n =>
      simp only [List.map_cons, lower, itemsIn, ih]
      split <;> rfl

@[simp] theorem Node.waitItems_lower (n : Node) (wanted : WaitSection) :
    n.lower.waitItems wanted = (n.waitItems wanted).map lower := by
  rw [waitItems, waitPieces_lower, WaitPiece.itemsIn_lower, waitItems]

/-! ## Arms -/

/-- An arm in small letters. -/
def Arm.lower (a : Arm) : Arm where
  condition := a.condition.map Node.lower
  body := a.body.map Node.lower

/-- A piece of an `if` statement in small letters. -/
def ArmPiece.lower : ArmPiece → ArmPiece
  | start conditional => .start conditional
  | conditionEnd => .conditionEnd
  | part n => .part n.lower
  | clause arms => .clause (arms.map Arm.lower)

theorem ArmPiece.arms_lower (current : Option Arm) (expects : Bool) (ps : List ArmPiece) :
    arms (current.map Arm.lower) expects (ps.map lower) =
      (arms current expects ps).map Arm.lower := by
  induction ps generalizing current expects with
  | nil => exact Option.toList_map
  | cons p ps ih =>
    cases p with
    | start conditional =>
      have hrest := ih (some {}) conditional
      simp only [List.map_cons, lower, arms, Option.toList_map, List.map_append]
      rw [← hrest]
      rfl
    | conditionEnd => exact ih current false
    | clause inner =>
      have hrest := ih none expects
      simp only [List.map_cons, lower, arms, Option.toList_map, List.map_append]
      rw [← hrest]
      rfl
    | part n =>
      have harm : (current.map Arm.lower).getD {} = (current.getD {}).lower := by
        cases current <;> rfl
      simp only [List.map_cons, lower, arms, harm, Node.isUnder_lower]
      simp only [Arm.lower, Option.isNone_map]
      -- A part is the condition where one is expected and none is known yet, else it belongs to the
      -- body.
      split
      · exact ih (some { current.getD {} with condition := some n }) false
      · have hrest :=
          ih (some { current.getD {} with body := (current.getD {}).body ++ [n] }) expects
        simpa [Arm.lower] using hrest

namespace Node

theorem isArmClause_lower (n : Node) : n.lower.isArmClause = n.isArmClause := by simp [isArmClause]

theorem armPiece?_lower (n : Node) : n.lower.armPiece? = n.armPiece?.map ArmPiece.lower := by
  simp only [armPiece?, isUnder_lower, isComment_lower, named_lower, isToken_lower]
  repeat' split
  all_goals rfl

theorem armChildren_lower (n : Node) : n.lower.armChildren = n.armChildren.map lower := by
  simp [armChildren, List.takeWhile_map, Function.comp_def]

/-- An `if` statement has the same arms in small letters. -/
@[simp] theorem arms_lower (n : Node) : n.lower.arms = n.arms.map Arm.lower := by
  have hpieces : n.lower.armChildren.filterMap (fun c =>
      if c.isArmClause then some (.clause c.arms) else c.armPiece?) =
      (n.armChildren.filterMap fun c =>
        if c.isArmClause then some (.clause c.arms) else c.armPiece?).map ArmPiece.lower := by
    rw [armChildren_lower, List.filterMap_map, List.map_filterMap]
    refine List.filterMap_congr fun c hc => ?_
    have := sizeOf_lt_of_mem_children (mem_children_of_mem_armChildren hc)
    simp only [Function.comp_apply, isArmClause_lower, armPiece?_lower]
    split
    · rw [arms_lower c]
      rfl
    · rfl
  rw [arms_eq, arms_eq, hpieces]
  exact ArmPiece.arms_lower none false _
termination_by sizeOf n

end Node

/-! ## Edges and resets -/

theorem Config.isResetName_lower (config : Config) (name : Text) :
    config.isResetName (lower name) = config.isResetName name := by
  simp [isResetName]

theorem isPlainName_lower (t : Text) : isPlainName (lower t) = isPlainName t := by
  simp [isPlainName, Function.comp_def]

theorem ResolvedName.edge?_lower (config : Config) (r : ResolvedName) :
    r.lower.edge? config = (r.edge? config).map (Prod.map id Text.lower) := by
  have hdot : (Text.lower r.path).contains '.' = r.path.contains '.' := by simp
  simp only [edge?, lower_isIndexed, lower_path, lower_base, lower_indices, lower_lower, hdot]
  split
  · rw [Option.map_bind]
    congr 1
    funext edge
    cases r.indices with
    | nil => rfl
    | cons arg args =>
      cases args with
      | nil =>
        simp only [List.map_cons, List.map_nil, trim_lower, isPlainName_lower, Function.comp_apply]
        split <;> rfl
      | cons => rfl
  · rfl

theorem edgeOfName?_lower (config : Config) (L : Lookup) (n : Node) :
    edgeOfName? config L n.lower = (edgeOfName? config L n).map (Prod.map id lower) := by
  rw [edgeOfName?, edgeOfName?, Node.kind_lower, resolve_lower]
  split
  · cases resolve L n with
    | none => rfl
    | some r => exact r.edge?_lower config
  · rfl

theorem edgeCall?_lower (config : Config) (L : Lookup) (condition : Node) :
    edgeCall? config L condition.lower =
      (edgeCall? config L condition).map (Prod.map id lower) := by
  rw [edgeCall?, edgeCall?, Node.subtree_lower, List.findSome?_map, List.map_findSome?]
  congr 1
  funext n
  exact edgeOfName?_lower config L n

theorem edgeSearchIsFar_lower (config : Config) (L : Lookup) (ns : List Node) :
    edgeSearchIsFar config L (ns.map Node.lower) = edgeSearchIsFar config L ns := by
  induction ns with
  | nil => rfl
  | cons n ns ih => simp [edgeSearchIsFar, edgeOfName?_lower, ih]

theorem innerRelation_lower (n : Node) : innerRelation n.lower = (innerRelation n).lower := by
  rw [innerRelation_eq, innerRelation_eq, Node.kind_lower, Node.operandChildren_lower]
  split
  · cases hchildren : n.operandChildren with
    | nil => rfl
    | cons c cs =>
      cases cs with
      | nil =>
        have := Node.sizeOf_lt_of_mem_children
          (Node.mem_children_of_mem_operandChildren (n := n) (c := c) (by simp [hchildren]))
        exact innerRelation_lower c
      | cons d cs => rfl
  · rfl
termination_by sizeOf n

theorem resetOf?_lower (config : Config) (L : Lookup) (condition : Node) :
    resetOf? config L condition.lower = (resetOf? config L condition).map Reset.lower := by
  rw [resetOf?, resetOf?, innerRelation_lower, relation_lower]
  cases relation L (innerRelation condition) with
  | none => rfl
  | some r =>
    have hlevel : (lower (trim r.right) == "'0'".toList) = (trim r.right == "'0'".toList) := by
      rw [Bool.eq_iff_iff, beq_iff_eq, beq_iff_eq, lower_eq_iff _ (by decide)]
    simp only [Option.map_some, Option.bind_eq_bind, Option.bind_some, Relation.lower,
      config.isResetName_lower, trim_lower, hlevel]
    split <;> rfl

/-! ## Activities -/

/-- A signal assignment in small letters. -/
def Drive.lower (d : Drive) : Drive where
  target := Text.lower d.target
  reads := d.reads.map Text.lower
  line := d.line

namespace Activity

/-- What is found in a piece of a process, in small letters. -/
@[simps]
def lower (a : Activity) : Activity where
  clock := a.clock.map (Prod.map id Text.lower)
  reset := a.reset.map Reset.lower
  reads := a.reads.map Text.lower
  drives := a.drives.map Drive.lower
  functionCalls := a.functionCalls.map Call.lower
  procedureCalls := a.procedureCalls.map Call.lower
  waits := a.waits.map WaitStatement.lower
  caseStatements := a.caseStatements.map CaseStatement.lower
  comparisons := a.comparisons.map Comparison.lower
  arithmeticOps := a.arithmeticOps.map ArithmeticOp.lower
  farLine := a.farLine
  farReset := a.farReset

theorem append_lower (a b : Activity) : a.lower ++ b.lower = (a ++ b).lower := by
  show append a.lower b.lower = (append a b).lower
  simp [append, lower, Option.map_or]

theorem concat_lower (as : List Activity) : concat (as.map lower) = (concat as).lower := by
  induction as with
  | nil => rfl
  | cons a as ih =>
    rw [List.map_cons, concat, List.foldr_cons]
    exact (congrArg (append a.lower) ih).trans (append_lower a (concat as))

end Activity

/-- What is known around the statements of a process, in small letters. The name tables are asked in
small letters anyway. -/
def ProcessSetting.lower (s : ProcessSetting) : ProcessSetting :=
  { s with inProcess := Text.lower s.inProcess, inArch := Text.lower s.inArch }

/-- A branch in small letters. -/
def BranchContext.lower (ctx : BranchContext) : BranchContext :=
  { ctx with guard := ctx.guard.map Text.lower }

theorem expressionActivity_lower (s : ProcessSetting) (ctx : BranchContext)
    (drives result : Option Text) (ns : List Node) :
    expressionActivity s.lower ctx.lower (drives.map lower) (result.map lower) (ns.map Node.lower) =
      (expressionActivity s ctx drives result ns).lower := by
  have hsite (drives : Option Text) :
      ({ inProcess := lower s.inProcess, inArch := lower s.inArch, drives := drives.map lower
         guard := ctx.guard.map lower } : Site) =
        ({ inProcess := s.inProcess, inArch := s.inArch, drives
           guard := ctx.guard } : Site).lower :=
    rfl
  simp only [expressionActivity, ProcessSetting.lower, BranchContext.lower, scanAll_lower, hsite,
    List.flatMap_map, comparisons_lower, arithmeticOps_lower]
  simp [Activity.lower, Scan.lower, List.map_flatMap, Call.lower, CallSite.lower, Function.comp_def]

/-- The same without a target. -/
theorem expressionActivity_none_lower (s : ProcessSetting) (ctx : BranchContext) (ns : List Node) :
    expressionActivity s.lower ctx.lower none none (ns.map Node.lower) =
      (expressionActivity s ctx none none ns).lower :=
  expressionActivity_lower s ctx none none ns

/-! ## Assignments -/

namespace Node

variable (n : Node)

@[simp] theorem isArrow_lower : n.lower.isArrow = n.isArrow := by simp [isArrow]

@[simp] theorem assignmentTarget?_lower :
    n.lower.assignmentTarget? = n.assignmentTarget?.map lower := by
  simp [assignmentTarget?, List.takeWhile_map, Option.map_or, Function.comp_def]

@[simp] theorem assignmentValues_lower :
    n.lower.assignmentValues = n.assignmentValues.map lower := by
  rw [assignmentValues, assignmentValues, childUnder_lower, children_lower, splitAt?_lower]
  cases n.childUnder "value" with
  | some v => rfl
  | none =>
    have harrow : isArrow ∘ lower = isArrow := funext isArrow_lower
    rw [harrow]
    cases splitAt? isArrow n.children <;> simp [List.filter_map, Function.comp_def]

end Node

theorem assignmentActivity_lower (s : ProcessSetting) (ctx : BranchContext) (isSignal : Bool)
    (n : Node) :
    assignmentActivity s.lower ctx.lower isSignal n.lower =
      (assignmentActivity s ctx isSignal n).lower := by
  have hpath : (n.lower.assignmentTarget?.bind (resolve s.lookup)).map (·.path) =
      ((n.assignmentTarget?.bind (resolve s.lookup)).map (·.path)).map lower := by
    rw [Node.assignmentTarget?_lower]
    cases n.assignmentTarget? <;> simp [Function.comp_def]
  have hinputs :
      n.lower.assignmentValues ++ (n.lower.assignmentTarget?.map Node.arguments).getD [] =
      (n.assignmentValues ++ (n.assignmentTarget?.map Node.arguments).getD []).map Node.lower := by
    rw [Node.assignmentTarget?_lower]
    cases n.assignmentTarget? <;> simp
  have hdriven (path : Option Text) : (if isSignal then path.map lower else none) =
      (if isSignal then path else none).map lower := by
    split <;> rfl
  have hfar : n.lower.assignmentTarget?.any (·.resolvesFar) =
      n.assignmentTarget?.any (·.resolvesFar) := by
    simp [Option.any_map]
  have hlookup : s.lower.lookup = s.lookup := rfl
  simp only [assignmentActivity, hlookup, hpath, hinputs, hdriven, hfar, expressionActivity_lower,
    scanAll_lower, Scan.readPaths_lower, ← Activity.append_lower]
  congr 1
  cases (if isSignal then (n.assignmentTarget?.bind (resolve s.lookup)).map (·.path) else none) <;>
    simp [Activity.lower, Drive.lower]

/-! ## Branches -/

namespace Arm

variable (s : ProcessSetting) (ctx : BranchContext) (a : Arm)

theorem edge?_lower : a.lower.edge? s.lower = (a.edge? s).map (Prod.map id Text.lower) := by
  simp only [edge?, lower, ProcessSetting.lower]
  cases a.condition with
  | none => rfl
  | some c => exact edgeCall?_lower s.config s.lookup c

theorem edgeIsFar_lower : a.lower.edgeIsFar s.lower = a.edgeIsFar s := by
  simp only [edgeIsFar, lower, ProcessSetting.lower]
  cases a.condition with
  | none => rfl
  | some c => simp [edgeSearchIsFar_lower]

theorem context_lower : a.lower.context s.lower ctx.lower = (a.context s ctx).lower := by
  have hread : a.lower.condition.bind (fun c => (scan s.lookup c).reads.head?) =
      (a.condition.bind fun c => (scan s.lookup c).reads.head?).map ResolvedName.lower := by
    rw [lower]
    cases a.condition with
    | none => rfl
    | some c => simp [scan_lower, Scan.lower]
  have hlookup : s.lower.lookup = s.lookup := rfl
  simp only [context, edge?_lower, Option.isSome_map, hlookup, hread]
  split
  · rfl
  · simp [BranchContext.lower, Option.map_or, Function.comp_def]

end Arm

theorem resetCondition?_lower (s : ProcessSetting) (ctx : BranchContext) (arms : List Arm) :
    resetCondition? s.lower ctx.lower (arms.map Arm.lower) =
      (resetCondition? s ctx arms).map Node.lower := by
  cases arms with
  | nil => rfl
  | cons first later =>
    have hedge : ctx.lower.underEdge = ctx.underEdge := rfl
    simp only [List.map_cons, resetCondition?, Arm.edge?_lower, Option.isNone_map, List.any_map,
      Function.comp_def, Option.isSome_map, hedge]
    split <;> rfl

/-- A step in small letters. -/
def Step.lower (t : Step) : Step where
  own := t.own.lower
  context := t.context.lower
  statements := t.statements.map Node.lower

theorem Arm.step_lower (s : ProcessSetting) (ctx : BranchContext) (a : Arm) :
    a.lower.step s.lower ctx.lower = (a.step s ctx).lower := by
  have hcondition : a.lower.condition.toList = a.condition.toList.map Node.lower :=
    Option.toList_map
  rw [step, hcondition, expressionActivity_none_lower, context_lower]
  rfl

theorem ifSteps_lower (s : ProcessSetting) (ctx : BranchContext) (n : Node) :
    ifSteps s.lower ctx.lower n.lower = (ifSteps s ctx n).map Step.lower := by
  have hclock (arms : List Arm) : (arms.map Arm.lower).findSome? (Arm.edge? s.lower) =
      (arms.findSome? (Arm.edge? s)).map (Prod.map id lower) := by
    rw [List.findSome?_map, List.map_findSome?]
    congr 1
    funext a
    exact a.edge?_lower s
  have hreset (condition : Option Node) :
      (condition.map Node.lower).bind (resetOf? s.config s.lookup) =
        (condition.bind (resetOf? s.config s.lookup)).map Reset.lower := by
    cases condition with
    | none => rfl
    | some c => exact resetOf?_lower s.config s.lookup c
  have hconfig : s.lower.config = s.config := rfl
  have hlookup : s.lower.lookup = s.lookup := rfl
  simp only [ifSteps, Node.arms_lower, resetCondition?_lower, hclock, hconfig, hlookup, hreset,
    List.map_cons]
  congr 1
  · simp [Step.lower, Activity.lower, Arm.edgeIsFar_lower, Option.any_map, innerRelation_lower,
      Function.comp_def]
  · simp only [List.map_map]
    congr 1
    funext a
    exact a.step_lower s ctx

/-! ## Cases -/

namespace Node

variable (n : Node)

theorem caseExpression?_lower : n.lower.caseExpression? = n.caseExpression?.map lower := by
  have hafter :
      ((splitAt? (·.isToken "case") n.lower.children).map Prod.snd).getD n.lower.children =
      (((splitAt? (·.isToken "case") n.children).map Prod.snd).getD n.children).map lower := by
    rw [children_lower, splitAt?_isToken_lower]
    cases splitAt? (·.isToken "case") n.children <;> rfl
  simp only [caseExpression?, hafter, childUnder_lower, List.find?_map, Option.map_or,
    Function.comp_def, named_lower, kind_lower]

@[simp] theorem isMarkedChoice_lower : n.lower.isMarkedChoice = n.isMarkedChoice := by
  simp [isMarkedChoice]

theorem aroundArrow_lower :
    n.lower.aroundArrow = Prod.map (List.map lower) (List.map lower) n.aroundArrow := by
  rw [aroundArrow, aroundArrow, children_lower, splitAt?_isToken_lower]
  cases splitAt? (·.isToken "=>") n.children <;> rfl

theorem choices_lower : n.lower.choices = n.choices.map lower := by
  simp [choices, aroundArrow_lower, List.filter_map, Function.comp_def]

theorem alternativeStatements_lower :
    n.lower.alternativeStatements = n.alternativeStatements.map lower := by
  simp [alternativeStatements, aroundArrow_lower, List.filter_map, Function.comp_def]

theorem choiceTexts_lower : n.lower.choiceTexts = n.choiceTexts.map Text.lower := by
  simp [choiceTexts, Function.comp_def]

theorem coversOthers_lower : n.lower.coversOthers = n.coversOthers := by
  simp [coversOthers, choiceTexts_lower, Function.comp_def]

theorem alternatives_lower : n.lower.alternatives = n.alternatives.map lower := by
  simp [alternatives]

end Node

theorem caseStatement_lower (s : ProcessSetting) (n : Node) :
    caseStatement s.lower n.lower = (caseStatement s n).lower := by
  have hchoices : n.lower.alternatives.flatMap Node.choices =
      (n.alternatives.flatMap Node.choices).map Node.lower := by
    simp [Node.alternatives_lower, List.flatMap_map, List.map_flatMap, Node.choices_lower]
  simp only [caseStatement, hchoices]
  generalize n.alternatives.flatMap Node.choices = choices
  simp [CaseStatement.lower, ProcessSetting.lower, Node.caseExpression?_lower, List.flatMap_map,
    List.map_flatMap, Node.choiceTexts_lower, Node.coversOthers_lower, List.filter_flatMap,
    List.filter_map, Function.comp_def]

theorem caseStep_lower (s : ProcessSetting) (ctx : BranchContext) (n : Node) :
    caseStep s.lower ctx.lower n.lower = (caseStep s ctx n).lower := by
  have hstatements : n.lower.alternatives.flatMap Node.alternativeStatements =
      (n.alternatives.flatMap Node.alternativeStatements).map Node.lower := by
    simp [Node.alternatives_lower, List.flatMap_map, List.map_flatMap,
      Node.alternativeStatements_lower]
  rw [caseStep, Node.caseExpression?_lower, Option.toList_map, expressionActivity_none_lower,
    hstatements, caseStatement_lower, Node.isFar_lower, caseStep, Step.lower,
    ← Activity.append_lower]
  rfl

/-! ## Waits and calls -/

theorem waitActivity_lower (s : ProcessSetting) (n : Node) :
    waitActivity s.lower n.lower = (waitActivity s n).lower := by
  have hitems : n.lower.waitItems .signals ++ n.lower.waitItems .condition
      ++ n.lower.waitItems .timeout =
      (n.waitItems .signals ++ n.waitItems .condition ++ n.waitItems .timeout).map Node.lower := by
    simp
  simp only [waitActivity, hitems, ← Activity.append_lower]
  congr 1
  · exact expressionActivity_none_lower s {} _
  · simp [Activity.lower, WaitStatement.lower, ProcessSetting.lower, List.filter_map,
      Function.comp_def]

namespace Node

variable (n : Node)

@[simp] theorem isCallPart_lower : n.lower.isCallPart = n.isCallPart := by simp [isCallPart]

theorem calleeIndex?_lower : n.lower.calleeIndex? = n.calleeIndex? := by
  have hpart : isCallPart ∘ lower = isCallPart := funext isCallPart_lower
  simp [calleeIndex?, hpart, Function.comp_def]

theorem calleeSiblings_lower : n.lower.calleeSiblings = n.calleeSiblings.map lower := by
  simp only [calleeSiblings, calleeIndex?_lower, children_lower, List.zipIdx_map, List.filter_map,
    List.map_map, List.flatMap_map, List.map_flatMap, Function.comp_def, Prod.map_fst, Prod.map_snd,
    id_eq, isCallPart_lower, kind_lower, tag_lower, namedChildren_lower]
  congr 1
  funext c
  split <;> rfl

end Node

theorem procedureCallActivity_lower (s : ProcessSetting) (n : Node) :
    procedureCallActivity s.lower n.lower = (procedureCallActivity s n).lower := by
  have hcallee : (n.lower.calleeIndex?.bind fun i => n.lower.children[i]?) =
      (n.calleeIndex?.bind fun i => n.children[i]?).map Node.lower := by
    simp only [Node.calleeIndex?_lower, Node.children_lower, List.getElem?_map, Option.map_bind,
      Function.comp_def]
  have hargs (own : List Node) :
      own.map Node.lower ++ n.lower.calleeSiblings = (own ++ n.calleeSiblings).map Node.lower := by
    simp [Node.calleeSiblings_lower]
  have hlookup : s.lower.lookup = s.lookup := rfl
  rw [procedureCallActivity, procedureCallActivity, hcallee]
  cases n.calleeIndex?.bind fun i => n.children[i]? with
  | none => rfl
  | some callee =>
    simp only [Option.map_some, hlookup, resolve_lower]
    cases resolve s.lookup callee with
    | none =>
      simp only [Option.map_none, ← Activity.append_lower]
      congr 1
      · simp [Activity.lower, Call.lower, ProcessSetting.lower, Node.calleeSiblings_lower,
          Function.comp_def]
      · exact (congrArg _ (hargs [])).trans (expressionActivity_none_lower s {} _)
    | some r =>
      simp only [Option.map_some, Node.arguments_lower, hargs, ← Activity.append_lower]
      congr 1
      · simp [Activity.lower, Call.lower, ProcessSetting.lower, Function.comp_def]
      · exact expressionActivity_none_lower s {} _

/-! ## All statements -/

theorem Node.containedStatements_lower (n : Node) :
    n.lower.containedStatements = n.containedStatements.map lower := by
  simp [containedStatements, List.takeWhile_map, List.filter_map, Function.comp_def]

/-- A statement has the same steps in small letters. -/
theorem steps_lower (s : ProcessSetting) (ctx : BranchContext) (n : Node) :
    steps s.lower ctx.lower n.lower = (steps s ctx n).map Step.lower := by
  rw [steps, steps, Node.kind_lower]
  cases StatementForm.ofKind n.kind with
  | assignment isSignal =>
    simp only [assignmentActivity_lower]
    rfl
  | branch => exact ifSteps_lower s ctx n
  | choice => exact congrArg (fun t => [t]) (caseStep_lower s ctx n)
  | wait =>
    simp only [waitActivity_lower]
    rfl
  | call =>
    simp only [procedureCallActivity_lower]
    rfl
  | silent => rfl
  | expression =>
    have hown := expressionActivity_none_lower s ctx [n]
    simp only [List.map_cons, List.map_nil] at hown ⊢
    rw [hown]
    rfl
  | container =>
    simp only [Node.containedStatements_lower]
    rfl

/-- **What statements do ignores letter case.** -/
theorem activity_lower (s : ProcessSetting) (ctx : BranchContext) (n : Node) :
    activity s.lower ctx.lower n.lower = (activity s ctx n).lower := by
  have hsteps : (steps s ctx n).map (fun t => t.lower.own ++
        .concat (t.lower.statements.map (activity s.lower t.lower.context))) =
      ((steps s ctx n).map fun t =>
        t.own ++ .concat (t.statements.map (activity s t.context))).map Activity.lower := by
    rw [List.map_map]
    refine List.map_congr_left fun t ht => ?_
    have hstatements : t.lower.statements.map (activity s.lower t.lower.context) =
        (t.statements.map (activity s t.context)).map Activity.lower := by
      rw [Step.lower, List.map_map, List.map_map]
      refine List.map_congr_left fun m hm => ?_
      have := sizeOf_lt_of_mem_steps ht hm
      exact activity_lower s t.context m
    rw [hstatements, Activity.concat_lower]
    exact Activity.append_lower t.own _
  rw [activity_eq, activity_eq, steps_lower, List.map_map, ← Activity.concat_lower, ← hsteps]
  rfl
termination_by sizeOf n

end DesignFacts

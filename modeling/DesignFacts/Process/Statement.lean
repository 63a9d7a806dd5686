import DesignFacts.Process.Activity
import DesignFacts.Process.Arm
import DesignFacts.Process.Edge
import DesignFacts.Process.Wait

/-!
# Statements

Every statement is a row of steps. A step has an activity of its own, and then hands statements on
to be walked in a branch context. Walking a statement (`activity`) joins, step by step, the own
activity and those of the statements handed on.
-/

namespace DesignFacts

open Text

/-- A step of a statement. -/
structure Step where
  own : Activity := {}
  context : BranchContext
  statements : List Node := []

/-! ## Assignments -/

namespace Node

def isArrow (n : Node) : Bool := n.isToken "<=" || n.isToken ":="

def assignmentTarget? (n : Node) : Option Node :=
  (n.childUnder "target").or
    ((n.children.takeWhile fun c => !c.isArrow).find? fun c => c.named && !c.isUnder "label")

/-- The values of an assignment: the one under its field, else what stands after the arrow. -/
def assignmentValues (n : Node) : List Node :=
  match n.childUnder "value" with
  | some v => [v]
  | none =>
    match splitAt? isArrow n.children with
    | some (_, after) => after.filter fun c => c.named && !c.isComment
    | none => []

end Node

/-- What an assignment does. Only signals are driven. -/
def assignmentActivity (s : ProcessSetting) (ctx : BranchContext) (isSignal : Bool) (n : Node) :
    Activity :=
  let target := n.assignmentTarget?
  let path := (target.bind (resolve s.lookup)).map (·.path)
  let inputs := n.assignmentValues ++ (target.map Node.arguments).getD []
  let driven := if isSignal then path else none
  let drives := driven.toList.map fun p =>
    { target := p, reads := (scanAll s.lookup inputs).readPaths, line := n.line : Drive }
  { farLine := target.any (·.resolvesFar) }
    ++ expressionActivity s ctx driven path inputs
    ++ { drives, farLine := driven.isSome && n.isFar }

/-! ## Branches -/

/-- The edge that the condition of an arm tests. -/
def Arm.edge? (s : ProcessSetting) (a : Arm) : Option (ClockEdge × Text) :=
  a.condition.bind (edgeCall? s.config s.lookup)

/-- Whether the search for the edge of an arm needs a far line. -/
def Arm.edgeIsFar (s : ProcessSetting) (a : Arm) : Bool :=
  a.condition.any fun c => edgeSearchIsFar s.config s.lookup c.subtree

/-- The condition of an `if` statement that may test a reset: the first one, with the clock edge in
a later arm, and not below another edge. -/
def resetCondition? (s : ProcessSetting) (ctx : BranchContext) : List Arm → Option Node
  | [] => none
  | first :: later =>
    if (first.edge? s).isNone && later.any (fun a => (a.edge? s).isSome) && !ctx.underEdge then
      first.condition
    else none

def Arm.context (s : ProcessSetting) (ctx : BranchContext) (a : Arm) : BranchContext :=
  if (a.edge? s).isSome then { ctx with underEdge := true }
  else
    let read := a.condition.bind fun c => (scan s.lookup c).reads.head?
    { ctx with guard := (read.map (·.base)).or ctx.guard }

/-- The step of an arm: its condition, then its body. -/
def Arm.step (s : ProcessSetting) (ctx : BranchContext) (a : Arm) : Step where
  own := expressionActivity s ctx none none a.condition.toList
  context := a.context s ctx
  statements := a.body

/-- The steps of an `if` statement. -/
def ifSteps (s : ProcessSetting) (ctx : BranchContext) (n : Node) : List Step :=
  let arms := n.arms
  let condition := resetCondition? s ctx arms
  let own : Activity :=
    { clock := arms.findSome? (Arm.edge? s)
      reset := condition.bind (resetOf? s.config s.lookup)
      farLine := arms.any (Arm.edgeIsFar s)
      farReset := condition.any fun c => relationIsFar (innerRelation c) }
  { own, context := ctx } :: arms.map (Arm.step s ctx)

/-! ## Cases -/

namespace Node

/-- The expression of a case statement: the one under its field, else the first construct after
the keyword that is no alternative. -/
def caseExpression? (n : Node) : Option Node :=
  let after := ((splitAt? (·.isToken "case") n.children).map Prod.snd).getD n.children
  (n.childUnder "expression").or (after.find? fun c => c.named && c.kind != .caseAlternative)

/-- Whether a child of an alternative is marked as a choice. -/
def isMarkedChoice (n : Node) : Bool :=
  n.isUnder "choice" || n.kind == .caseChoice || n.kind == .others

/-- The children of an alternative before and after its arrow. Without an arrow all of them count
as being after it. -/
def aroundArrow (alternative : Node) : List Node × List Node :=
  (splitAt? (·.isToken "=>") alternative.children).getD ([], alternative.children)

/-- The choices of an alternative: what stands before the arrow or is marked as one. -/
def choices (alternative : Node) : List Node :=
  let (front, back) := alternative.aroundArrow
  (front ++ back.filter isMarkedChoice).filter fun c => c.named && !c.isComment

def alternativeStatements (alternative : Node) : List Node :=
  alternative.aroundArrow.2.filter fun c => c.named && !c.isComment && !c.isMarkedChoice

/-- The texts of the choices that a node lists, blank ones included. -/
def choiceTexts (n : Node) : List Text := (splitTopLevel '|' n.text).map squash

/-- Whether a choice covers all other values. -/
def coversOthers (n : Node) : Bool :=
  n.choiceTexts.any (isWord · "others") || n.subtree.any (·.kind == .others)

/-- The alternatives of a case statement. -/
def alternatives (n : Node) : List Node := collect .caseAlternative n

end Node

def caseStatement (s : ProcessSetting) (n : Node) : CaseStatement :=
  let choices := n.alternatives.flatMap Node.choices
  { expression := (n.caseExpression?.map fun e => squash e.text).getD []
    choices := (choices.flatMap Node.choiceTexts).filter fun c => !c.isEmpty
    hasOthers := choices.any Node.coversOthers
    inProcess := s.inProcess
    inArch := s.inArch
    line := n.line }

def caseStep (s : ProcessSetting) (ctx : BranchContext) (n : Node) : Step where
  own := expressionActivity s ctx none none n.caseExpression?.toList
    ++ { caseStatements := [caseStatement s n], farLine := n.isFar }
  context := ctx
  statements := n.alternatives.flatMap Node.alternativeStatements

/-! ## Waits -/

/-- What a wait statement does. -/
def waitActivity (s : ProcessSetting) (n : Node) : Activity :=
  let signals := n.waitItems .signals
  let condition := n.waitItems .condition
  let timeout := n.waitItems .timeout
  let wait : WaitStatement :=
    { onSignals := (signals.map fun c => compact c.text).filter fun t => !t.isEmpty
      untilExpr := Node.spanText condition
      forExpr := Node.spanText timeout
      inProcess := s.inProcess
      line := n.line }
  expressionActivity s {} none none (signals ++ condition ++ timeout)
    ++ { waits := [wait], farLine := n.isFar }

/-! ## Procedure calls -/

namespace Node

/-- Whether a child of a procedure call is its name or an argument. -/
def isCallPart (n : Node) : Bool := n.named && !n.isUnder "label" && !n.isComment

/-- The place of the name among the children of a procedure call. -/
def calleeIndex? (n : Node) : Option Nat :=
  (n.children.findIdx? (·.isUnder "name")).or
    ((n.children.findIdx? (·.isUnder "procedure")).or (n.children.findIdx? isCallPart))

/-- The arguments that stand beside the name of a procedure call. -/
def calleeSiblings (n : Node) : List Node :=
  let beside := (n.children.zipIdx.filter fun (c, i) => c.isCallPart && n.calleeIndex? != some i)
  (beside.map Prod.fst).flatMap fun c =>
    if c.kind == .other && c.tag.endsWith "_part" then c.namedChildren else [c]

end Node

def procedureCallActivity (s : ProcessSetting) (n : Node) : Activity :=
  match n.calleeIndex?.bind fun i => n.children[i]? with
  | none => {}
  | some callee =>
    let (name, own) := match resolve s.lookup callee with
      | some r => (r.path, callee.arguments)
      | none => (compact callee.text, [])
    let args := own ++ n.calleeSiblings
    { procedureCalls := [{
        name
        args := args.map fun a => squash a.text
        inProcess := s.inProcess
        line := n.line }]
      farLine := callee.resolvesFar || n.isFar } ++ expressionActivity s {} none none args

/-! ## All statements -/

/-- What walking a process does with a node. -/
inductive StatementForm where
  | assignment (isSignal : Bool)
  | branch
  | choice
  | wait
  | call
  /-- Nothing to find: comments and declarations. -/
  | silent
  | expression
  /-- A container of statements. -/
  | container

/-- What walking a process does with a kind of node. -/
def StatementForm.ofKind (k : Kind) : StatementForm :=
  match k with
  | .sequentialSignalAssignment => .assignment true
  | .variableAssignment => .assignment false
  | .ifStatement => .branch
  | .caseStatement => .choice
  | .waitStatement => .wait
  | .procedureCallStatement => .call
  | .comment | .variableDeclaration | .constantDeclaration | .fileDeclaration | .aliasDeclaration
  | .typeDeclaration | .subtypeDeclaration | .functionDeclaration | .procedureDeclaration
  | .sensitivityList => .silent
  | .relationalExpression | .multiplicativeExpression | .exponentialExpression | .aggregate
  | .qualifiedExpression | .range => .expression
  | k => if k.isName || k.isLiteral then .expression else .container

/-- The statements in a container: its constructs before the keyword `end`, without labels. -/
def Node.containedStatements (n : Node) : List Node :=
  (n.children.takeWhile fun c => !c.isToken "end").filter fun c => c.named && !c.isUnder "label"

def steps (s : ProcessSetting) (ctx : BranchContext) (n : Node) : List Step :=
  match StatementForm.ofKind n.kind with
  | .assignment isSignal => [{ own := assignmentActivity s ctx isSignal n, context := ctx }]
  | .branch => ifSteps s ctx n
  | .choice => [caseStep s ctx n]
  | .wait => [{ own := waitActivity s n, context := ctx }]
  | .call => [{ own := procedureCallActivity s n, context := ctx }]
  | .silent => []
  | .expression => [{ own := expressionActivity s ctx none none [n], context := ctx }]
  | .container => [{ context := ctx, statements := n.containedStatements }]

theorem Node.mem_children_of_mem_containedStatements {n c : Node}
    (h : c ∈ n.containedStatements) : c ∈ n.children :=
  (List.takeWhile_sublist _).subset (List.mem_filter.1 h).1

theorem Node.mem_children_of_mem_aroundArrow {n c : Node} (h : c ∈ n.aroundArrow.2) :
    c ∈ n.children := by
  simp only [aroundArrow] at h
  cases hs : splitAt? (·.isToken "=>") n.children with
  | none => simpa [hs] using h
  | some p =>
    rw [hs] at h
    exact mem_of_mem_splitAt? hs c (List.mem_append_right _ h)

theorem sizeOf_lt_of_mem_steps {s : ProcessSetting} {ctx : BranchContext} {n m : Node} {t : Step}
    (ht : t ∈ steps s ctx n) (hm : m ∈ t.statements) : sizeOf m < sizeOf n := by
  simp only [steps] at ht
  split at ht
  case h_2 =>
    simp only [ifSteps, List.mem_cons, List.mem_map] at ht
    rcases ht with rfl | ⟨a, ha, rfl⟩
    · simp at hm
    · exact Node.sizeOf_lt_of_mem_arms ha (List.mem_append_right _ hm)
  case h_3 =>
    simp only [List.mem_singleton] at ht
    subst ht
    simp only [caseStep, List.mem_flatMap] at hm
    obtain ⟨a, ha, hma⟩ := hm
    have := Node.sizeOf_lt_of_mem_collect _ _ a ha
    have := Node.sizeOf_lt_of_mem_children
      (Node.mem_children_of_mem_aroundArrow (List.mem_filter.1 hma).1)
    omega
  -- A kind without steps; the kinds left over below have one step and no statements in it.
  case h_6 => simp at ht
  case h_8 =>
    simp only [List.mem_singleton] at ht
    subst ht
    exact Node.sizeOf_lt_of_mem_children (Node.mem_children_of_mem_containedStatements hm)
  all_goals
    simp only [List.mem_singleton] at ht
    subst ht
    simp at hm

/-- What a statement does, and all statements in it. -/
def activity (s : ProcessSetting) (ctx : BranchContext) (n : Node) : Activity :=
  .concat ((steps s ctx n).attach.map fun t =>
    t.1.own ++ .concat (t.1.statements.attach.map fun m => activity s t.1.context m.1))
termination_by sizeOf n
decreasing_by exact sizeOf_lt_of_mem_steps t.2 m.2

theorem activity_eq (s : ProcessSetting) (ctx : BranchContext) (n : Node) :
    activity s ctx n = .concat ((steps s ctx n).map fun t =>
      t.own ++ .concat (t.statements.map (activity s t.context))) := by
  rw [activity]
  simp

/-- A property that joining keeps, and that every single step has, is one of whole statements. -/
theorem activity_of_steps {P : Activity → Prop} {s : ProcessSetting} (empty : P {})
    (append : ∀ a b, P a → P b → P (a ++ b))
    (own : ∀ ctx n, ∀ t ∈ steps s ctx n, P t.own) (ctx : BranchContext) (n : Node) :
    P (activity s ctx n) := by
  induction ctx, n using activity.induct s with
  | case1 ctx n ih =>
    rw [activity_eq]
    refine Activity.concat_of_forall empty append fun a ha => ?_
    obtain ⟨t, ht, rfl⟩ := List.mem_map.1 ha
    refine append _ _ (own ctx n t ht) (Activity.concat_of_forall empty append fun b hb => ?_)
    obtain ⟨m, hm, rfl⟩ := List.mem_map.1 hb
    exact ih ⟨t, ht⟩ ⟨m, hm⟩

end DesignFacts

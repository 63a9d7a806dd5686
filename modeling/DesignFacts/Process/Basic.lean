import DesignFacts.Fact.File
import DesignFacts.Process.Local
import DesignFacts.Process.Statement

/-!
# Processes

The facts of a process: what its statements do, and what kind of process that makes it. A clock
edge in any condition makes it sequential, else a wait statement makes it a waiting one, else it is
combinational.
-/

namespace DesignFacts

open Text

/-- The signals in the sensitivity list of a process. -/
def Node.sensitivity (n : Node) : List Text :=
  match (n.childUnder "sensitivity").or (n.childOfKind .sensitivityList) with
  | none => []
  | some list =>
    match list.operandChildren.map fun c => compact c.text with
    | [] =>
      let inner := dropEnd (· == ')') (list.trimmed.dropWhile (· == '('))
      ((splitTopLevel ',' inner).map compact).filter fun t => !t.isEmpty
    | names => names

/-- What the statements of a process are walked with. -/
def processSetting (config : Config) (L : Lookup) (scope : Scope) (n : Node) : ProcessSetting where
  config := config
  lookup := L.withLocals n.localNames
  inProcess := n.label?.getD []
  inArch := scope.path

/-- What all statements of a process do. -/
def processActivity (config : Config) (L : Lookup) (scope : Scope) (n : Node) : Activity :=
  .concat (n.containedStatements.map (activity (processSetting config L scope n) {}))

theorem processActivity_of_steps {P : Activity → Prop} {config : Config} {L : Lookup}
    {scope : Scope} {n : Node} (empty : P {}) (append : ∀ a b, P a → P b → P (a ++ b))
    (own : ∀ ctx m, ∀ t ∈ steps (processSetting config L scope n) ctx m, P t.own) :
    P (processActivity config L scope n) := by
  refine Activity.concat_of_forall empty append fun a ha => ?_
  obtain ⟨m, -, rfl⟩ := List.mem_map.1 ha
  exact activity_of_steps empty append own {} m

/-- The kind of process that an activity makes. -/
def Activity.kind (a : Activity) : ProcessKind :=
  if a.clock.isSome then .sequential
  else if a.waits.isEmpty then .combinational
  else .waiting

def processOf (scope : Scope) (n : Node) (a : Activity) : ProcessStatement where
  label := n.label?
  sensitivity := n.sensitivity
  kind := a.kind
  clock := a.clock.map Prod.snd
  edge := a.clock.map Prod.fst
  reset := a.reset
  assigned := distinct (a.drives.map (·.target))
  reads := distinct a.reads
  localVariables := n.localVariables
  procedureCalls := a.procedureCalls
  functionCalls := a.functionCalls
  waits := a.waits
  inArch := scope.path
  line := n.line

/-- The signal dependencies of a process: every driven signal depends on what its assignment
reads. -/
def processDeps (p : ProcessStatement) (a : Activity) : List SignalDep :=
  a.drives.flatMap fun d => d.reads.map fun source =>
    { source
      target := d.target
      inProcess := p.labelText
      isSequential := p.isSequential
      inArch := p.inArch
      line := d.line }

def processHarvest (config : Config) (L : Lookup) (scope : Scope) (n : Node) : Harvest :=
  let a := processActivity config L scope n
  let p := processOf scope n a
  { processes := [p]
    caseStatements := a.caseStatements
    comparisons := a.comparisons
    arithmeticOps := a.arithmeticOps
    signalDeps := processDeps p a
    farLine := n.isFar || n.localsAreFar || a.farLine || a.farReset }

end DesignFacts

import DesignFacts.Extraction.Walk
import DesignFacts.Proofs.LetterCase.Construct

/-!
# Letter case of harvests

Walking a tree over a source in small letters.

**Relation.** `LowersTo h h'` says that `h'` is the harvest `h` in small letters, in the lists that
the behaviour of a file is read from: the behavioural facts themselves, the declared objects that
widths and bounds are looked up in, and the schemes of all generate statements.

**Visits.** A visit in small letters finds the same kind of construct. Its contribution is the
contribution in small letters, and it goes on to the same nodes.

**Walking.** The relation is kept by joining harvests and by absorbing the body of a generate
statement, so it holds of whole walks by induction on the visits.

Main result: `walk_lower`.
-/

namespace DesignFacts

open Text

/-! ## Harvests in small letters -/

/-- The schemes of all generate statements of a harvest, each before those in it. -/
def Harvest.schemes (h : Harvest) : List Scheme := (Generate.walkAll h.generates).map (·.scheme)

/-- The second harvest is the first one in small letters, as far as the behaviour of a file depends
on it. -/
structure Harvest.LowersTo (h h' : Harvest) : Prop where
  processes : h'.processes = h.processes.map ProcessStatement.lower := by rfl
  assignments : h'.assignments = h.assignments.map ConcurrentAssignment.lower := by rfl
  caseStatements : h'.caseStatements = h.caseStatements.map CaseStatement.lower := by rfl
  comparisons : h'.comparisons = h.comparisons.map Comparison.lower := by rfl
  arithmeticOps : h'.arithmeticOps = h.arithmeticOps.map ArithmeticOp.lower := by rfl
  signalDeps : h'.signalDeps = h.signalDeps.map SignalDep.lower := by rfl
  ports : h'.ports = h.ports.map Port.lower := by rfl
  generics : h'.generics = h.generics.map Port.lower := by rfl
  signals : h'.signals = h.signals.map Signal.lower := by rfl
  constants : h'.constants = h.constants.map Constant.lower := by rfl
  schemes : h'.schemes = h.schemes.map Scheme.lower := by rfl
  farLine : h'.farLine = h.farLine := by rfl

namespace Harvest

theorem schemes_append (h k : Harvest) : (h ++ k).schemes = h.schemes ++ k.schemes := by
  show (Generate.walkAll (h.generates ++ k.generates)).map (·.scheme) = _
  rw [Generate.walkAll_append, List.map_append]
  rfl

theorem LowersTo.append {h h' k k' : Harvest} (hh : h.LowersTo h') (hk : k.LowersTo k') :
    (h ++ k).LowersTo (h' ++ k') where
  processes := (congrArg₂ _ hh.processes hk.processes).trans List.map_append.symm
  assignments := (congrArg₂ _ hh.assignments hk.assignments).trans List.map_append.symm
  caseStatements := (congrArg₂ _ hh.caseStatements hk.caseStatements).trans List.map_append.symm
  comparisons := (congrArg₂ _ hh.comparisons hk.comparisons).trans List.map_append.symm
  arithmeticOps := (congrArg₂ _ hh.arithmeticOps hk.arithmeticOps).trans List.map_append.symm
  signalDeps := (congrArg₂ _ hh.signalDeps hk.signalDeps).trans List.map_append.symm
  ports := (congrArg₂ _ hh.ports hk.ports).trans List.map_append.symm
  generics := (congrArg₂ _ hh.generics hk.generics).trans List.map_append.symm
  signals := (congrArg₂ _ hh.signals hk.signals).trans List.map_append.symm
  constants := (congrArg₂ _ hh.constants hk.constants).trans List.map_append.symm
  schemes := by rw [schemes_append, schemes_append, hh.schemes, hk.schemes, List.map_append]
  farLine := congrArg₂ or hh.farLine hk.farLine

theorem LowersTo.concat {ns : List Node} {f g : Node → Harvest}
    (h : ∀ n ∈ ns, (f n).LowersTo (g n.lower)) :
    (Harvest.concat (ns.map f)).LowersTo (.concat ((ns.map Node.lower).map g)) := by
  induction ns with
  | nil => exact {}
  | cons n ns ih =>
    have hn : (f n).LowersTo (g n.lower) := h n List.mem_cons_self
    exact hn.append (ih fun m hm => h m (List.mem_cons_of_mem n hm))

end Harvest

/-! ## Contributions -/

section Contributions

variable (config : Config) (L : Lookup) (scope : Scope) (n : Node)

theorem libraryHarvest_lower : (libraryHarvest n).LowersTo (libraryHarvest n.lower) where
  farLine := by simp [libraryHarvest, libraryClauses, clauseNames_lower]

theorem useHarvest_lower : (useHarvest n).LowersTo (useHarvest n.lower) where
  farLine := by simp [useHarvest, useClauses, clauseNames_lower]

theorem contextHarvest_lower : (contextHarvest n).LowersTo (contextHarvest n.lower) where
  farLine := by simp [contextHarvest, contextClauses, clauseNames_lower]

theorem entityHarvest_lower : (entityHarvest n).LowersTo (entityHarvest n.lower) where
  ports := by simp [entityHarvest, Entity.ofNode, portsOf_lower]
  generics := by simp [entityHarvest, Entity.ofNode, genericsOf_lower]
  farLine := n.isFar_lower

theorem architectureName_lower :
    (Architecture.ofNode n.lower).name = lower (Architecture.ofNode n).name := by
  simp [Architecture.ofNode, List.filter_map, Option.map_or, Function.comp_def]

theorem instanceHarvest_lower :
    (instanceHarvest L scope n).LowersTo (instanceHarvest L scope.lower n.lower) where
  farLine := by simp [instanceHarvest, Function.comp_def]

theorem processHarvest_lower :
    (processHarvest config L scope n).LowersTo
      (processHarvest config L scope.lower n.lower) := by
  have hactivity := processActivity_lower config L scope n
  have hprocess := processOf_lower scope n (processActivity config L scope n)
  simp only [processHarvest, hactivity, hprocess, processDeps_lower, Node.isFar_lower,
    Node.localsAreFar_lower]
  exact {}

theorem concurrentHarvest_lower :
    (concurrentHarvest L scope n).LowersTo (concurrentHarvest L scope.lower n.lower) := by
  have htarget : targetName L n.lower =
      (lower (targetName L n).1, lower (targetName L n).2) := targetName_lower L n
  have hdriven (path : Text) : (if path.isEmpty then none else some (lower path)) =
      (if path.isEmpty then none else some path).map lower := by
    split <;> rfl
  have hfar : n.lower.target?.any (·.resolvesFar) = n.target?.any (·.resolvesFar) := by
    simp [Node.target?_lower, Option.any_map]
  simp only [concurrentHarvest, htarget, isEmpty_lower, hdriven, hfar, n.assignmentInputs_lower,
    n.unlabelledText_lower, ConcurrentKind.ofText_lower, scanAll_lower, Scan.readPaths_lower]
  generalize (if (targetName L n).2.isEmpty then none else some (targetName L n).2) = driven
  have hsite : ({ inProcess := [], inArch := scope.lower.path, drives := driven.map lower
                  guard := none } : Site) =
      ({ inProcess := [], inArch := scope.path, drives := driven, guard := none } : Site).lower := by
    simp [Site.lower]
  exact {
    assignments := by simp [ConcurrentAssignment.lower]
    comparisons := by
      simp only [hsite, List.flatMap_map, comparisons_lower, List.map_flatMap]
    arithmeticOps := by
      simp only [hsite, List.flatMap_map, arithmeticOps_lower, List.map_flatMap]
    signalDeps := by
      cases driven <;> simp [SignalDep.lower, Function.comp_def]
    farLine := by simp [Scan.lower, Function.comp_def] }

end Contributions

/-! ## Visits -/

/-- The second visit finds in small letters what the first one finds. -/
inductive Visit.LowersTo : Visit → Visit → Prop
  | construct {own own' : Harvest} {scope : Scope} {next : List Node} (h : own.LowersTo own') :
    LowersTo (.construct own scope next) (.construct own' scope.lower (next.map Node.lower))
  | generate : LowersTo .generate .generate

/-- **Visits ignore letter case.** -/
theorem visit_lower (config : Config) (L : Lookup) (scope : Scope) (n : Node) :
    (visit config L scope n).LowersTo (visit config L scope.lower n.lower) := by
  have harch (name : Text) :
      scope.lower.inArchitecture (lower name) = (scope.inArchitecture name).lower := rfl
  have hentity : (Entity.ofNode n.lower).name = lower (Entity.ofNode n).name :=
    n.declaredName_lower
  simp only [visit, Node.kind_lower, Node.namedChildren_lower, Node.declaredName_lower]
  cases n.kind with
  | libraryClause => exact .construct (libraryHarvest_lower n)
  | useClause => exact .construct (useHarvest_lower n)
  | contextReference => exact .construct (contextHarvest_lower n)
  | entityDeclaration =>
    simp only [hentity, harch, List.filter_map, Function.comp_def, Node.kind_lower]
    exact .construct (entityHarvest_lower n)
  | architectureBody =>
    simp only [architectureName_lower, harch]
    exact .construct { farLine := n.isFar_lower }
  | componentInstantiation => exact .construct (instanceHarvest_lower L scope n)
  | signalDeclaration => exact .construct { signals := scope.signals_lower n }
  | constantDeclaration => exact .construct { constants := scope.constants_lower n }
  | variableDeclaration =>
    exact .construct { farLine := ObjectDeclaration.needsFarLine_lower n }
  | processStatement => exact .construct (processHarvest_lower config L scope n)
  | concurrentSignalAssignment => exact .construct (concurrentHarvest_lower L scope n)
  | generateStatement => exact .generate
  | forGenerate => exact .generate
  | ifGenerate => exact .generate
  | caseGenerate => exact .generate
  -- All other constructs contribute nothing to the behaviour but their line.
  | packageDeclaration => exact .construct { farLine := n.isFar_lower }
  | packageBody => exact .construct { farLine := n.isFar_lower }
  | configurationDeclaration => exact .construct { farLine := n.isFar_lower }
  | componentDeclaration => exact .construct { farLine := n.isFar_lower }
  | aliasDeclaration => exact .construct { farLine := n.isFar_lower }
  | subtypeDeclaration => exact .construct { farLine := n.isFar_lower }
  | functionDeclaration => exact .construct { farLine := n.isFar_lower }
  | procedureDeclaration => exact .construct { farLine := n.isFar_lower }
  | _ => exact .construct {}

/-! ## Walking -/

theorem generateLookup_lower (L : Lookup) (n : Node) :
    generateLookup L n.lower = generateLookup L n := by
  rw [generateLookup, generateLookup, GenerateHeader.ofNode_lower, GenerateHeader.parameter?_lower,
    Option.map_map, lower_comp_lower]

theorem Harvest.LowersTo.generate (scope : Scope) (n : Node) {body body' : Harvest}
    (h : body.LowersTo body') :
    (generateHarvest scope n body).LowersTo (generateHarvest scope.lower n.lower body') := by
  have hfar : ({ farLine := n.isFar } : Harvest).LowersTo { farLine := n.lower.isFar } :=
    { farLine := n.isFar_lower }
  have hschemes (scope : Scope) (n : Node) (body : Harvest) :
      (generateHarvest scope n body).schemes =
        (GenerateHeader.ofNode n).scheme :: body.schemes := by
    show (Generate.walkAll [generateOf scope n body]).map (·.scheme) = _
    rw [Generate.walkAll, Generate.walkAll, List.append_nil, Generate.walk_eq_cons]
    rfl
  refine { hfar.append h with schemes := ?_ }
  rw [hschemes, hschemes, GenerateHeader.ofNode_lower, h.schemes]
  rfl

/-- **Walks ignore letter case.** -/
theorem walk_lower (config : Config) (L : Lookup) (scope : Scope) (n : Node) :
    (walk config L scope n).LowersTo (walk config L scope.lower n.lower) := by
  -- The induction follows the visits: over the next nodes, or over the body of a generate.
  induction L, scope, n using walk.induct config with
  | case1 L scope n own inner next hvisit ih =>
    have hlower := visit_lower config L scope n
    rw [walk_eq, walk_eq config L scope.lower, hvisit]
    rw [hvisit] at hlower
    generalize visit config L scope.lower n.lower = found at hlower ⊢
    cases hlower with
    | construct hown => exact hown.append (.concat fun c hc => ih ⟨c, hc⟩)
  | case2 L scope n hvisit header ih =>
    have hlower := visit_lower config L scope n
    rw [walk_eq, walk_eq config L scope.lower, hvisit]
    rw [hvisit] at hlower
    generalize visit config L scope.lower n.lower = found at hlower ⊢
    cases hlower with
    | generate =>
      have hscope : scope.lower.inGenerate header.lower.label =
          (scope.inGenerate header.label).lower := scope.inGenerate_lower header.label
      rw [generateLookup_lower, GenerateHeader.ofNode_lower, hscope]
      exact .generate scope n (.concat fun c hc => ih ⟨c, hc⟩)

end DesignFacts

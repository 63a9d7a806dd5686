import DesignFacts.Concurrent.Assignment
import DesignFacts.Declaration.DesignUnit
import DesignFacts.Declaration.Subprogram
import DesignFacts.Declaration.TypeDeclaration
import DesignFacts.Generate.Header
import DesignFacts.Process.Basic

/-!
# Walking a tree

A visit of a node says what the node itself contributes and which nodes are walked next, in which
scope. The harvest of a node is its own contribution followed by the harvests of these nodes. A
generate statement gathers the harvest of its body: it copies the facts of the body into itself,
takes the generate statements in it, and passes all other facts on.
-/

namespace DesignFacts

/-- What a visit of a node finds. -/
inductive Visit where
  /-- A contribution, and nodes to be walked in a scope. -/
  | construct (own : Harvest) (scope : Scope) (next : List Node)
  /-- A generate statement. -/
  | generate

/-! ## Contributions -/

/-- The contribution of a library clause. -/
def libraryHarvest (n : Node) : Harvest where
  farLine := n.isFar && !(libraryClauses n).isEmpty
  libraryClauses := libraryClauses n
  references := (libraryClauses n).map fun c => .clause c.name .library c.line

/-- The contribution of a use clause. -/
def useHarvest (n : Node) : Harvest where
  farLine := n.isFar && !(useClauses n).isEmpty
  useClauses := useClauses n
  references := (useClauses n).map fun c => .clause c.path .use c.line

/-- The contribution of a context reference. -/
def contextHarvest (n : Node) : Harvest where
  farLine := n.isFar && !(contextClauses n).isEmpty
  contextClauses := contextClauses n
  references := (contextClauses n).map fun c => .clause c.name .context c.line

/-- The contribution of an entity itself. -/
def entityHarvest (n : Node) : Harvest :=
  let e := Entity.ofNode n
  { entities := [e], generics := e.generics, ports := e.ports, references := [.enter e.name]
    farLine := n.isFar }

/-- The contribution of an architecture itself. -/
def architectureHarvest (n : Node) : Harvest :=
  let a := Architecture.ofNode n
  { architectures := [a], references := [.enter a.entityName], farLine := n.isFar }

def componentHarvest (n : Node) : Harvest :=
  let c := Component.ofNode n
  { components := [c], references := [.reference c.name .component c.line], farLine := n.isFar }

def instanceHarvest (L : Lookup) (scope : Scope) (n : Node) : Harvest :=
  let i := instanceOf L scope n
  { instances := [i], references := [.reference i.target .instantiation i.line]
    farLine := n.isFar || n.namedChildren.any mapIsFar }

/-! ## Visits -/

def visit (config : Config) (L : Lookup) (scope : Scope) (n : Node) : Visit :=
  let only (own : Harvest) : Visit := .construct own scope []
  match n.kind with
  | .libraryClause => only (libraryHarvest n)
  | .useClause => only (useHarvest n)
  | .contextReference => only (contextHarvest n)
  | .entityDeclaration =>
    .construct (entityHarvest n) (scope.inArchitecture (Entity.ofNode n).name)
      -- The clauses of an entity are read with it, and not visited again.
      (n.namedChildren.filter fun c => c.kind != .genericClause && c.kind != .portClause)
  | .architectureBody =>
    .construct (architectureHarvest n) (scope.inArchitecture (Architecture.ofNode n).name)
      n.namedChildren
  | .packageDeclaration =>
    .construct
      { packages := [.ofNode n], references := [.enter n.declaredName], farLine := n.isFar }
      (scope.inPackage n.declaredName) n.namedChildren
  | .packageBody =>
    .construct { references := [.enter n.declaredName], farLine := n.isFar }
      (scope.inPackage n.declaredName) n.namedChildren
  | .configurationDeclaration =>
    only
      { configurations := [.ofNode n], references := [.enter n.declaredName], farLine := n.isFar }
  | .componentDeclaration => only (componentHarvest n)
  | .componentInstantiation => only (instanceHarvest L scope n)
  | .signalDeclaration => only { signals := scope.signals n }
  | .constantDeclaration =>
    only { constants := scope.constants n, constantNames := (scope.constants n).map (·.name) }
  | .variableDeclaration =>
    only { sharedVariables := scope.sharedVariables n, farLine := ObjectDeclaration.needsFarLine n }
  | .typeDeclaration =>
    only { types := [scope.type n], enumLiterals := (scope.type n).kind.valueNames }
  | .aliasDeclaration => only { types := [scope.aliasedType n], farLine := n.isFar }
  | .subtypeDeclaration => only { subtypes := [scope.subtype n], farLine := n.isFar }
  | .functionDeclaration => only { functions := [scope.function n], farLine := n.isFar }
  | .procedureDeclaration => only { procedures := [scope.procedure n], farLine := n.isFar }
  | .processStatement => only (processHarvest config L scope n)
  | .concurrentSignalAssignment => only (concurrentHarvest L scope n)
  | .generateStatement | .forGenerate | .ifGenerate | .caseGenerate => .generate
  | .comment => only {}
  -- Names and literals declare nothing, and any other node only leads to what is below it.
  | k => if k.isName || k.isLiteral then only {} else .construct {} scope n.namedChildren

theorem mem_children_of_visit {config : Config} {L : Lookup} {scope scope' : Scope} {n c : Node}
    {own : Harvest} {next : List Node} (h : visit config L scope n = .construct own scope' next)
    (hc : c ∈ next) : c ∈ n.children := by
  simp only [visit] at h
  split at h
  all_goals first
    | contradiction
    | cases h; exact Node.mem_children_of_mem_namedChildren hc
    | cases h; exact Node.mem_children_of_mem_namedChildren (List.mem_filter.1 hc).1
    | cases h; simp at hc
    | (split at h
       · cases h
         simp at hc
       · cases h
         exact Node.mem_children_of_mem_namedChildren hc)

/-! ## Generates -/

/-- The generate statement of a node, with the facts of its body. -/
def generateOf (scope : Scope) (n : Node) (body : Harvest) : Generate where
  label := (GenerateHeader.ofNode n).label
  scheme := (GenerateHeader.ofNode n).scheme
  inArch := scope.path
  line := n.line
  canElaborate := false
  iterationCount := -1
  signals := body.signals
  instances := body.instances
  processes := body.processes
  assignments := body.assignments
  generates := body.generates

/-- The harvest of a generate statement, from that of its body. -/
def generateHarvest (scope : Scope) (n : Node) (body : Harvest) : Harvest :=
  .absorb { generates := [generateOf scope n body], farLine := n.isFar } body

/-- The name tables in the body of a generate statement. -/
def generateLookup (L : Lookup) (n : Node) : Lookup :=
  L.withParameter ((GenerateHeader.ofNode n).parameter?.map Text.lower)

/-! ## Walking -/

/-- The harvest of a node. -/
def walk (config : Config) (L : Lookup) (scope : Scope) (n : Node) : Harvest :=
  match _h : visit config L scope n with
  | .construct own inner next => own ++ .concat (next.attach.map fun c => walk config L inner c.1)
  | .generate =>
    let header := GenerateHeader.ofNode n
    generateHarvest scope n (.concat (header.body.attach.map fun c =>
      walk config (generateLookup L n) (scope.inGenerate header.label) c.1))
termination_by sizeOf n
decreasing_by
  · exact Node.sizeOf_lt_of_mem_children (mem_children_of_visit _h c.2)
  · exact GenerateHeader.sizeOf_lt_of_mem_body c.2

theorem walk_eq (config : Config) (L : Lookup) (scope : Scope) (n : Node) :
    walk config L scope n =
      match visit config L scope n with
      | .construct own inner next => own ++ .concat (next.map (walk config L inner))
      | .generate =>
        generateHarvest scope n (.concat ((GenerateHeader.ofNode n).body.map
          (walk config (generateLookup L n)
            (scope.inGenerate (GenerateHeader.ofNode n).label)))) := by
  rw [walk]
  split <;> rename_i h <;> simp [h]

end DesignFacts

import DesignFacts.Extraction.Basic
import DesignFacts.Proofs.Extraction.Flattening
import Mathlib.Data.List.Flatten

/-!
# Where a walk stops

A walk hands a scope and name tables down the tree. Its *itinerary* lists the nodes that it comes
to, each with the scope and the name tables it is visited with and the generate statements around
it.

**Visits.** `visit_of` says once what the visit of a node contributes, list by list
(`Harvest.IsFrom`), and where it goes on. The theorems on walks use this and do not open `visit`
again.

**Document order.** The nodes of an itinerary stand in it as they stand in the tree
(`map_node_stops_sublist`), those in the body of a generate statement too.

**Contributions.** Every flat list of a harvest is what the stops contribute to it, one after
another (`of_walk`), and the generate statements, each before those in it, are those of the stops
(`walkAll_generates_walk`).
-/

namespace DesignFacts

/-! ## What a visit finds -/

def Node.isGenerate (n : Node) : Bool :=
  match n.kind with
  | .generateStatement | .forGenerate | .ifGenerate | .caseGenerate => true
  | _ => false

/-- Whether the inside of a node has a scope of its own, generate statements apart. -/
def Node.opensScope (n : Node) : Bool :=
  match n.kind with
  | .entityDeclaration | .architectureBody | .packageDeclaration | .packageBody => true
  | _ => false

/-- The name of the design unit that a node begins: that of the entity for an architecture. -/
def Node.unit? (n : Node) : Option Text :=
  match n.kind with
  | .entityDeclaration => some (Entity.ofNode n).name
  | .architectureBody => some (Architecture.ofNode n).entityName
  | .packageDeclaration | .packageBody | .configurationDeclaration => some n.declaredName
  | _ => none

def Node.clauseEvents (n : Node) : List ReferenceEvent :=
  match n.kind with
  | .libraryClause => (libraryClauses n).map fun c => .clause c.name .library c.line
  | .useClause => (useClauses n).map fun c => .clause c.path .use c.line
  | .contextReference => (contextClauses n).map fun c => .clause c.name .context c.line
  | _ => []

def Node.unitEvents (n : Node) : List ReferenceEvent :=
  match n.kind with
  | .componentDeclaration =>
    [.reference (Component.ofNode n).name .component (Component.ofNode n).line]
  | .componentInstantiation => [.reference n.instanceTarget.1 .instantiation n.line]
  | _ => []

/-- What matters for dependencies at a node. A node begins a unit, or has clauses, or refers to a
unit. -/
def Node.events (n : Node) : List ReferenceEvent :=
  n.unit?.toList.map .enter ++ n.clauseEvents ++ n.unitEvents

/-- The process of a node, as it is found in a scope. -/
def processAt (config : Config) (L : Lookup) (scope : Scope) (n : Node) : ProcessStatement :=
  processOf scope n (processActivity config L scope n)

/-- What a node contributes to the lists that are looked at here. -/
structure Harvest.IsFrom (config : Config) (L : Lookup) (scope : Scope) (n : Node)
    (own : Harvest) : Prop where
  generates : own.generates = []
  references : own.references = n.events
  signals : own.signals = if n.kind = .signalDeclaration then scope.signals n else []
  instances : own.instances =
    if n.kind = .componentInstantiation then [instanceOf L scope n] else []
  processes : own.processes =
    if n.kind = .processStatement then [processAt config L scope n] else []
  assignments : own.assignments =
    if n.kind = .concurrentSignalAssignment then (concurrentHarvest L scope n).assignments else []
  signalDeps : own.signalDeps =
    if n.kind = .processStatement then
      processDeps (processAt config L scope n) (processActivity config L scope n)
    else if n.kind = .concurrentSignalAssignment then (concurrentHarvest L scope n).signalDeps
    else []

/-- What the visit of a node can be. -/
inductive Visit.Of (config : Config) (L : Lookup) (scope : Scope) (n : Node) : Visit → Prop
  | construct {own : Harvest} {inner : Scope} {next : List Node} (plain : n.isGenerate = false)
    (own_from : own.IsFrom config L scope n) (inner_eq : n.opensScope = false → inner = scope)
    (next_sublist : next.Sublist n.children) : Of config L scope n (.construct own inner next)
  | generate (isGenerate : n.isGenerate = true)
    (empty_from : Harvest.IsFrom config L scope n {}) : Of config L scope n .generate

/-- All kinds of nodes are gone through here, and only here. -/
theorem visit_of (config : Config) (L : Lookup) (scope : Scope) (n : Node) :
    Visit.Of config L scope n (visit config L scope n) := by
  have hfiltered : (n.namedChildren.filter fun c =>
      c.kind != .genericClause && c.kind != .portClause).Sublist n.children :=
    List.filter_sublist.trans List.filter_sublist
  have hnamed : n.namedChildren.Sublist n.children := List.filter_sublist
  unfold visit
  cases hk : n.kind
  all_goals constructor <;> try constructor
  all_goals simp [hk, Node.isGenerate, Node.events, Node.unit?, Node.clauseEvents,
    Node.unitEvents, Node.opensScope, libraryHarvest, useHarvest, contextHarvest, entityHarvest,
    architectureHarvest, componentHarvest, instanceHarvest, instanceOf, processHarvest, processAt,
    concurrentHarvest, hnamed, hfiltered]

section

variable {config : Config} {L : Lookup} {scope inner : Scope} {n : Node} {own : Harvest}
  {next : List Node}

theorem isGenerate_of_visit (h : visit config L scope n = .generate) : n.isGenerate = true := by
  cases h ▸ visit_of config L scope n with
  | generate isGenerate => exact isGenerate

theorem events_of_visit (h : visit config L scope n = .generate) : n.events = [] := by
  cases h ▸ visit_of config L scope n with
  | generate _ empty_from => exact empty_from.references.symm

theorem not_isGenerate_of_visit (h : visit config L scope n = .construct own inner next) :
    n.isGenerate = false := by
  cases h ▸ visit_of config L scope n with
  | construct plain => exact plain

theorem isFrom_of_visit (h : visit config L scope n = .construct own inner next) :
    own.IsFrom config L scope n := by
  cases h ▸ visit_of config L scope n with
  | construct _ own_from => exact own_from

theorem scope_of_visit (h : visit config L scope n = .construct own inner next)
    (hn : n.opensScope = false) : inner = scope := by
  cases h ▸ visit_of config L scope n with
  | construct _ _ inner_eq => exact inner_eq hn

theorem next_sublist_of_visit (h : visit config L scope n = .construct own inner next) :
    next.Sublist n.children := by
  cases h ▸ visit_of config L scope n with
  | construct _ _ _ next_sublist => exact next_sublist

end

/-! ## Bodies in document order -/

theorem Node.subtrees_sublist {ns ms : List Node} (h : ns.Sublist ms) :
    (subtrees ns).Sublist (subtrees ms) := by
  rw [subtrees_eq_flatMap, subtrees_eq_flatMap]
  exact h.flatMap subtree

theorem Node.subtrees_children_sublist (n : Node) : (subtrees n.children).Sublist n.subtree := by
  rw [subtree_eq]
  exact List.sublist_cons_self n _

/-- What is taken from the inside of each node of a row stands in the row in its order. -/
theorem Node.subtrees_flatMap_sublist {f : Node → List Node} {ns : List Node}
    (h : ∀ n ∈ ns, (subtrees (f n)).Sublist n.subtree) :
    (subtrees (ns.flatMap f)).Sublist (subtrees ns) := by
  simp only [subtrees_eq_flatMap, List.flatMap_assoc] at h ⊢
  exact List.Sublist.flatMap_right ns h

/-- A row of nodes stands in order among the nodes of its trees. -/
theorem Node.sublist_subtrees (ns : List Node) : ns.Sublist (subtrees ns) := by
  induction ns with
  | nil => exact List.Sublist.refl []
  | cons n ns ih =>
    rw [subtrees, subtree_eq, List.cons_append]
    exact (ih.trans (List.sublist_append_right _ _)).cons_cons n

namespace Node

mutual

theorem subtrees_collect_sublist (kind : Kind) :
    ∀ n : Node, (subtrees (collect kind n)).Sublist (subtrees n.children)
  | ⟨_, _, _, _, _, _, _, children⟩ => subtrees_collectAll_sublist kind children

theorem subtrees_collectAll_sublist (kind : Kind) :
    ∀ ns : List Node, (subtrees (collectAll kind ns)).Sublist (subtrees ns)
  | [] => List.Sublist.refl []
  | n :: ns => by
    rw [collectAll, subtrees_append, subtrees]
    apply List.Sublist.append
    · split
      · exact List.nil_sublist _
      · split
        · rw [subtrees, subtrees, List.append_nil]
        · exact (subtrees_collect_sublist kind n).trans n.subtrees_children_sublist
    · exact subtrees_collectAll_sublist kind ns

end

end Node

namespace GenerateHeader

theorem generateBody_sublist (n : Node) : n.generateBody.Sublist n.children := by
  have hafter : (((Node.splitAt? (·.isToken "generate") n.children).map Prod.snd).getD []).Sublist
      n.children := by
    cases hs : Node.splitAt? (·.isToken "generate") n.children with
    | none => exact List.nil_sublist _
    | some sides => exact Node.splitAt?_right_sublist hs
  exact (List.filter_sublist.trans (List.takeWhile_sublist _)).trans hafter

theorem alternativeBody_sublist (n : Node) : n.alternativeBody.Sublist n.children := by
  unfold Node.alternativeBody Node.alternativeSides?
  cases hs : Node.splitAt? (·.isToken "=>") n.children with
  | none => exact List.nil_sublist _
  | some sides => exact List.filter_sublist.trans (Node.splitAt?_right_sublist hs)

theorem subtrees_alternativeBody_sublist (cs : List Node) :
    (Node.subtrees (cs.flatMap Node.alternativeBody)).Sublist (Node.subtrees cs) := by
  apply Node.subtrees_flatMap_sublist
  intro c _
  exact (Node.subtrees_sublist (alternativeBody_sublist c)).trans c.subtrees_children_sublist

theorem subtrees_bodyOf_sublist (n : Node) :
    (Node.subtrees (bodyOf n)).Sublist (Node.subtrees n.children) := by
  unfold bodyOf
  split
  · exact (subtrees_alternativeBody_sublist _).trans (Node.subtrees_sublist List.filter_sublist)
  · exact Node.subtrees_sublist (generateBody_sublist n)

theorem subtrees_schemeNode_sublist (n : Node) :
    (Node.subtrees n.schemeNode.children).Sublist (Node.subtrees n.children) := by
  unfold Node.schemeNode
  split
  · exact List.Sublist.refl _
  · cases hf : n.namedChildren.find? (·.kind.isScheme) with
    | none => exact List.Sublist.refl _
    | some c =>
      have hc : [c].Sublist n.children := List.singleton_sublist.2
        (Node.mem_children_of_mem_namedChildren (List.mem_of_find?_eq_some hf))
      have hbelow : (Node.subtrees c.children).Sublist (Node.subtrees [c]) := by
        rw [Node.subtrees, c.subtree_eq, Node.subtrees, List.append_nil]
        exact List.sublist_cons_self c _
      exact hbelow.trans (Node.subtrees_sublist hc)

/-- The body of a statement, with everything in it, stands in the tree in its order. -/
theorem subtrees_body_sublist (n : Node) :
    (Node.subtrees (ofNode n).body).Sublist (Node.subtrees n.children) :=
  (subtrees_bodyOf_sublist n.schemeNode).trans (subtrees_schemeNode_sublist n)

theorem mem_subtree_of_mem_body {n c m : Node} (hc : c ∈ (ofNode n).body) (hm : m ∈ c.subtree) :
    m ∈ n.subtree := by
  have hbody : m ∈ Node.subtrees (ofNode n).body := by
    rw [Node.subtrees_eq_flatMap]
    exact List.mem_flatMap.2 ⟨c, hc, hm⟩
  rw [n.subtree_eq]
  exact List.mem_cons_of_mem n ((subtrees_body_sublist n).subset hbody)

end GenerateHeader

/-- A property of nodes does not occur in the bodies of the generate statements of a tree. -/
def Node.BodiesAvoid (p : Node → Bool) (root : Node) : Prop :=
  ∀ g ∈ root.subtree, g.isGenerate = true → ∀ b ∈ (GenerateHeader.ofNode g).body,
    ∀ m ∈ b.subtree, p m = false

theorem Node.BodiesAvoid.of_subset {p : Node → Bool} {root n : Node} (h : root.BodiesAvoid p)
    (hsub : ∀ m ∈ n.subtree, m ∈ root.subtree) : n.BodiesAvoid p :=
  fun g hg => h g (hsub g hg)

instance (p : Node → Bool) (root : Node) : Decidable (root.BodiesAvoid p) :=
  inferInstanceAs (Decidable (∀ g ∈ root.subtree, g.isGenerate = true →
    ∀ b ∈ (GenerateHeader.ofNode g).body, ∀ m ∈ b.subtree, p m = false))

/-! ## Itineraries -/

/-- A node that a walk comes to, and what it is visited with. -/
structure Stop where
  lookup : Lookup
  scope : Scope
  /-- The generate statements around the node, the innermost first. -/
  around : List Node
  node : Node

/-- The stops of a walk that starts at a node inside some generate statements. -/
def stops (config : Config) (L : Lookup) (scope : Scope) (around : List Node) (n : Node) :
    List Stop :=
  ⟨L, scope, around, n⟩ :: match _h : visit config L scope n with
    | .construct _ inner next => next.attach.flatMap fun c => stops config L inner around c.1
    | .generate =>
      let header := GenerateHeader.ofNode n
      header.body.attach.flatMap fun c =>
        stops config (generateLookup L n) (scope.inGenerate header.label) (n :: around) c.1
termination_by sizeOf n
decreasing_by
  · exact Node.sizeOf_lt_of_mem_children (mem_children_of_visit _h c.2)
  · exact GenerateHeader.sizeOf_lt_of_mem_body c.2

theorem stops_eq (config : Config) (L : Lookup) (scope : Scope) (around : List Node) (n : Node) :
    stops config L scope around n =
      ⟨L, scope, around, n⟩ :: match visit config L scope n with
        | .construct _ inner next => next.flatMap (stops config L inner around)
        | .generate => (GenerateHeader.ofNode n).body.flatMap
          (stops config (generateLookup L n) (scope.inGenerate (GenerateHeader.ofNode n).label)
            (n :: around)) := by
  rw [stops]
  congr 1
  split <;> rename_i h <;> simp [h]

/-- The stops of the walk over a file. -/
def itinerary (config : Config) (root : Node) : List Stop :=
  stops config (nameTable config root) .file [] root

/-- A walk comes to nodes in document order. -/
theorem map_node_stops_sublist (config : Config) (L : Lookup) (scope : Scope) (around : List Node)
    (n : Node) : ((stops config L scope around n).map Stop.node).Sublist n.subtree := by
  have hrow {ns : List Node} {f : Node → List Stop}
      (h : ∀ c ∈ ns, ((f c).map Stop.node).Sublist c.subtree) :
      ((ns.flatMap f).map Stop.node).Sublist (Node.subtrees ns) := by
    rw [List.map_flatMap, Node.subtrees_eq_flatMap]
    exact List.Sublist.flatMap_right ns h
  induction L, scope, n using walk.induct config generalizing around with
  | case1 L scope n own inner next hvisit ih =>
    rw [stops_eq, hvisit, n.subtree_eq]
    refine List.Sublist.cons_cons n ?_
    exact (hrow fun c hc => ih ⟨c, hc⟩ around).trans
      (Node.subtrees_sublist (next_sublist_of_visit hvisit))
  | case2 L scope n hvisit header ih =>
    rw [stops_eq, hvisit, n.subtree_eq]
    refine List.Sublist.cons_cons n ?_
    exact (hrow fun c hc => ih ⟨c, hc⟩ (n :: around)).trans
      (GenerateHeader.subtrees_body_sublist n)

theorem mem_subtree_of_mem_stops {config : Config} {L : Lookup} {scope : Scope}
    {around : List Node} {n : Node} {s : Stop} (h : s ∈ stops config L scope around n) :
    s.node ∈ n.subtree :=
  (map_node_stops_sublist config L scope around n).subset (List.mem_map_of_mem h)

/-- What entering a body keeps holds of the name tables and of the statements around at every
stop. -/
theorem forall_mem_stops {P : Lookup → List Node → Prop} {config : Config} {L : Lookup}
    {scope : Scope} {around : List Node} {n : Node}
    (body : ∀ L around n, P L around → P (generateLookup L n) (n :: around)) :
    P L around → ∀ s ∈ stops config L scope around n, P s.lookup s.around := by
  induction L, scope, n using walk.induct config generalizing around with
  | case1 L scope n own inner next hvisit ih =>
    intro h s hs
    rw [stops_eq, hvisit, List.mem_cons, List.mem_flatMap] at hs
    rcases hs with rfl | ⟨c, hc, hs⟩
    · exact h
    · exact ih ⟨c, hc⟩ h s hs
  | case2 L scope n hvisit header =>
    rename_i ih
    intro h s hs
    rw [stops_eq, hvisit, List.mem_cons, List.mem_flatMap] at hs
    rcases hs with rfl | ⟨c, hc, hs⟩
    · exact h
    · exact ih ⟨c, hc⟩ (body L around n h) s hs

/-! ## What stops contribute -/

namespace Stop

/-- What a stop itself contributes; a generate statement contributes to no flat list. -/
def own (config : Config) (s : Stop) : Harvest :=
  match visit config s.lookup s.scope s.node with
  | .construct own _ _ => own
  | .generate => {}

/-- What is gathered in the body of the generate statement at a stop. -/
def body (config : Config) (s : Stop) : Harvest :=
  .concat ((GenerateHeader.ofNode s.node).body.map (walk config (generateLookup s.lookup s.node)
    (s.scope.inGenerate (GenerateHeader.ofNode s.node).label)))

def generate? (config : Config) (s : Stop) : Option Generate :=
  if s.node.isGenerate then some (generateOf s.scope s.node (s.body config)) else none

theorem own_isFrom (config : Config) (s : Stop) :
    (s.own config).IsFrom config s.lookup s.scope s.node := by
  have hof := visit_of config s.lookup s.scope s.node
  unfold own
  generalize visit config s.lookup s.scope s.node = found at hof
  cases hof with
  | construct _ own_from => exact own_from
  | generate _ empty_from => exact empty_from

end Stop

/-- A flat list of a walk is what its stops contribute, one after another. -/
theorem of_walk {α : Type} (l : FlatList α) (config : Config) (L : Lookup) (scope : Scope)
    (around : List Node) (n : Node) :
    l.of (walk config L scope n) =
      (stops config L scope around n).flatMap fun s => l.of (s.own config) := by
  induction L, scope, n using walk.induct config generalizing around with
  | case1 L scope n own inner next hvisit ih =>
    have hnext : (next.flatMap fun c => l.of (walk config L inner c)) =
        (next.flatMap (stops config L inner around)).flatMap fun s => l.of (s.own config) := by
      rw [List.flatMap_assoc]
      exact List.flatMap_congr fun c hc => ih ⟨c, hc⟩ around
    rw [walk_eq, stops_eq, hvisit]
    simp only [FlatList.of_append, FlatList.of_concat, List.flatMap_map, List.flatMap_cons, hnext,
      Stop.own, hvisit]
  | case2 L scope n hvisit header ih =>
    have hbody : (header.body.flatMap fun c => l.of (walk config (generateLookup L n)
          (scope.inGenerate header.label) c)) =
        (header.body.flatMap (stops config (generateLookup L n) (scope.inGenerate header.label)
          (n :: around))).flatMap fun s => l.of (s.own config) := by
      rw [List.flatMap_assoc]
      exact List.flatMap_congr fun c hc => ih ⟨c, hc⟩ (n :: around)
    rw [walk_eq, stops_eq, hvisit]
    simp only [FlatList.of_generateHarvest, FlatList.of_concat, List.flatMap_map, List.flatMap_cons,
      Stop.own, hvisit, FlatList.of_empty, List.nil_append]
    exact hbody

/-- What is gathered in the body of a generate statement comes from a stop inside it. -/
theorem FlatList.exists_stop_of_mem_body {α : Type} (l : FlatList α) {config : Config} {s : Stop}
    {x : α} (h : x ∈ l.of (s.body config)) :
    ∃ c ∈ (GenerateHeader.ofNode s.node).body,
      ∃ s' ∈ stops config (generateLookup s.lookup s.node)
        (s.scope.inGenerate (GenerateHeader.ofNode s.node).label) (s.node :: s.around) c,
        x ∈ l.of (s'.own config) := by
  rw [Stop.body, FlatList.of_concat, List.flatMap_map] at h
  obtain ⟨c, hc, h⟩ := List.mem_flatMap.1 h
  rw [of_walk l _ _ _ (s.node :: s.around)] at h
  exact ⟨c, hc, List.mem_flatMap.1 h⟩

namespace Harvest

theorem generates_concat (hs : List Harvest) :
    (concat hs).generates = hs.flatMap (·.generates) := by
  induction hs with
  | nil => rfl
  | cons h hs ih => rw [List.flatMap_cons, ← ih]; rfl

theorem references_concat (hs : List Harvest) :
    (concat hs).references = hs.flatMap (·.references) := by
  induction hs with
  | nil => rfl
  | cons h hs ih => rw [List.flatMap_cons, ← ih]; rfl

end Harvest

/-! ## Generate statements -/

theorem Stop.generates_body (config : Config) (s : Stop) :
    (s.body config).generates = (GenerateHeader.ofNode s.node).body.flatMap fun c =>
      (walk config (generateLookup s.lookup s.node)
        (s.scope.inGenerate (GenerateHeader.ofNode s.node).label) c).generates := by
  rw [body, Harvest.generates_concat, List.flatMap_map]

/-- The statements directly in a construct are those directly in its parts. -/
theorem generates_walk_of_construct {config : Config} {L : Lookup} {scope inner : Scope} {n : Node}
    {own : Harvest} {next : List Node} (h : visit config L scope n = .construct own inner next) :
    (walk config L scope n).generates =
      next.flatMap fun c => (walk config L inner c).generates := by
  rw [walk_eq, h]
  show own.generates ++ _ = _
  rw [(isFrom_of_visit h).generates, List.nil_append, Harvest.generates_concat, List.flatMap_map]

theorem generates_walk_of_generate {config : Config} {L : Lookup} {scope : Scope} {n : Node}
    (h : visit config L scope n = .generate) (around : List Node) :
    (walk config L scope n).generates =
      [generateOf scope n (Stop.body config ⟨L, scope, around, n⟩)] := by
  rw [walk_eq, h]
  rfl

theorem Generate.walkAll_flatMap {α : Type} (xs : List α) (f : α → List Generate) :
    walkAll (xs.flatMap f) = xs.flatMap fun x => walkAll (f x) := by
  induction xs with
  | nil => rfl
  | cons x xs ih => rw [List.flatMap_cons, walkAll_append, ih, List.flatMap_cons]

/-- The generate statements of a walk, each before those in it, are those at its stops. -/
theorem walkAll_generates_walk (config : Config) (L : Lookup) (scope : Scope) (around : List Node)
    (n : Node) :
    Generate.walkAll (walk config L scope n).generates =
      (stops config L scope around n).filterMap (Stop.generate? config) := by
  induction L, scope, n using walk.induct config generalizing around with
  | case1 L scope n own inner next hvisit ih =>
    have hstop : Stop.generate? config ⟨L, scope, around, n⟩ = none :=
      if_neg (by simp [not_isGenerate_of_visit hvisit])
    rw [generates_walk_of_construct hvisit, stops_eq, hvisit, List.filterMap_cons_none hstop,
      Generate.walkAll_flatMap, List.filterMap_flatMap]
    exact List.flatMap_congr fun c hc => ih ⟨c, hc⟩ around
  | case2 L scope n hvisit header ih =>
    have hstop : Stop.generate? config ⟨L, scope, around, n⟩ =
        some (generateOf scope n (Stop.body config ⟨L, scope, around, n⟩)) :=
      if_pos (isGenerate_of_visit hvisit)
    have hbody : Generate.walkAll (Stop.body config ⟨L, scope, around, n⟩).generates =
        (header.body.flatMap (stops config (generateLookup L n) (scope.inGenerate header.label)
          (n :: around))).filterMap (Stop.generate? config) := by
      rw [Stop.generates_body, Generate.walkAll_flatMap, List.filterMap_flatMap]
      exact List.flatMap_congr fun c hc => ih ⟨c, hc⟩ (n :: around)
    rw [generates_walk_of_generate hvisit around, stops_eq, hvisit, List.filterMap_cons_some hstop,
      Generate.walkAll, Generate.walkAll, List.append_nil, Generate.walk_eq_cons]
    exact congrArg (List.cons _) hbody

end DesignFacts

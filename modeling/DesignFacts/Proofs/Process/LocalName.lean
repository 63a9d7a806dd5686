import DesignFacts.Proofs.Extraction.Record
import DesignFacts.Proofs.Name.Read

/-!
# Local names are no signals

A process has variables, constants and loop parameters, and the body of a `for` generate statement
its parameter. A read never shows one of them.

**Activities.** Every expression of a statement is scanned with the name tables of its process, so
what a step reads is admitted by these tables (`Activity.Admitted`). Joining steps adds no reads.

**Locals.** The declarations and loops of a process are those it reaches through constructs
(`Node.Reaches`). The search for them stops at subprograms, and also at declarations: a declaration
that stands inside another one is not found (`not_hiddenUnread_nested`).

**Generate statements.** The tables at a stop exclude the parameters of all generate statements
around it (`hidesParameters_of_mem_stops`).

Main result: `extract_hiddenUnread`.
-/

namespace DesignFacts

open Text

/-! ## Activities -/

structure Activity.Admitted (L : Lookup) (a : Activity) : Prop where
  reads : ∀ t ∈ a.reads, L.Admits t
  drives : ∀ d ∈ a.drives, ∀ t ∈ d.reads, L.Admits t

namespace Activity

theorem admitted_of_nil {L : Lookup} {a : Activity} (hreads : a.reads = [])
    (hdrives : a.drives = []) : a.Admitted L where
  reads := by simp [hreads]
  drives := by simp [hdrives]

theorem Admitted.append {L : Lookup} {a b : Activity} (ha : a.Admitted L) (hb : b.Admitted L) :
    (a ++ b).Admitted L where
  reads := fun t ht => (List.mem_append.1 ht).elim (ha.reads t) (hb.reads t)
  drives := fun d hd => (List.mem_append.1 hd).elim (ha.drives d) (hb.drives d)

end Activity

section Steps

variable (s : ProcessSetting) (ctx : BranchContext) (n : Node)

theorem admitted_expressionActivity (drives result : Option Text) (ns : List Node) :
    (expressionActivity s ctx drives result ns).Admitted s.lookup where
  reads := fun _ ht => admits_of_mem_reads ht
  drives := by simp [expressionActivity]

/-- The reads of an assignment for its target are those of the same expressions. -/
theorem admitted_assignmentActivity (isSignal : Bool) :
    (assignmentActivity s ctx isSignal n).Admitted s.lookup := by
  refine ((Activity.admitted_of_nil rfl rfl).append
    (admitted_expressionActivity s ctx _ _ _)).append ⟨by simp, fun d hd t ht => ?_⟩
  obtain ⟨target, -, rfl⟩ := List.mem_map.1 hd
  exact admits_of_mem_readPaths ht

theorem admitted_procedureCallActivity : (procedureCallActivity s n).Admitted s.lookup := by
  unfold procedureCallActivity
  split
  · exact Activity.admitted_of_nil rfl rfl
  · exact (Activity.admitted_of_nil rfl rfl).append (admitted_expressionActivity s {} _ _ _)

theorem admitted_steps : ∀ t ∈ steps s ctx n, t.own.Admitted s.lookup := by
  intro t ht
  unfold steps at ht
  split at ht
  case h_2 =>
    rcases List.mem_cons.1 ht with rfl | ht
    · exact Activity.admitted_of_nil rfl rfl
    · obtain ⟨a, -, rfl⟩ := List.mem_map.1 ht
      exact admitted_expressionActivity s ctx _ _ _
  case h_6 => cases ht
  all_goals obtain rfl := List.mem_singleton.1 ht
  case h_1 => exact admitted_assignmentActivity s ctx n _
  case h_3 =>
    exact (admitted_expressionActivity s ctx _ _ _).append (Activity.admitted_of_nil rfl rfl)
  case h_4 =>
    exact (admitted_expressionActivity s {} _ _ _).append (Activity.admitted_of_nil rfl rfl)
  case h_5 => exact admitted_procedureCallActivity s n
  case h_7 => exact admitted_expressionActivity s ctx _ _ _
  case h_8 => exact Activity.admitted_of_nil rfl rfl

end Steps

theorem admitted_processActivity (config : Config) (L : Lookup) (scope : Scope) (n : Node) :
    (processActivity config L scope n).Admitted (L.withLocals n.localNames) :=
  processActivity_of_steps (Activity.admitted_of_nil rfl rfl) (fun _ _ ha hb => ha.append hb)
    (admitted_steps (processSetting config L scope n))

/-! ## Locals of a process -/

namespace Node

/-- A construct below a node. The constructs between the two are passed `through`. -/
inductive Reaches (through : Node → Bool) : Node → Node → Prop
  | child {n c : Node} (hc : c ∈ n.namedChildren) : Reaches through n c
  | step {n c d : Node} (hc : c ∈ n.namedChildren) (hthrough : through c = true)
    (h : Reaches through c d) : Reaches through n d

/-- Whether the inside of a construct may hold locals of the process around it. -/
def isOpen (n : Node) : Bool := !n.isSubprogram

/-- Whether the inside of a construct is searched for locals. -/
def isSearched (n : Node) : Bool := !n.isSubprogram && !n.declaresLocals

/-- The names that a construct brings in: those of a variable or constant declaration, or the
parameter of a loop. -/
def bringsIn (n : Node) : List Text :=
  if n.declaresLocals then n.objectNames
  else if n.kind == .loopStatement then n.loopParameter?.toList
  else []

theorem localNodesAmong_eq_flatMap (ns : List Node) :
    localNodesAmong ns = ns.flatMap fun c =>
      if !c.named || c.isSubprogram then []
      else if c.declaresLocals then [c]
      else if c.kind == .loopStatement then c :: c.localNodes
      else c.localNodes := by
  induction ns with
  | nil => rfl
  | cons n ns ih => rw [localNodesAmong, ih, List.flatMap_cons]

theorem localNodes_eq (n : Node) : n.localNodes = localNodesAmong n.children := by
  cases n
  rfl

/-- What is found under a construct that is searched is found above it. -/
theorem mem_localNodes_of_mem_below {n c d : Node} (hc : c ∈ n.namedChildren)
    (hsearched : c.isSearched = true) (hd : d ∈ c.localNodes) : d ∈ n.localNodes := by
  obtain ⟨hc, hnamed⟩ := List.mem_filter.1 hc
  rw [localNodes_eq, localNodesAmong_eq_flatMap]
  refine List.mem_flatMap.2 ⟨c, hc, ?_⟩
  simp only [isSearched, Bool.and_eq_true, Bool.not_eq_true'] at hsearched
  simp only [hnamed, hsearched.1, hsearched.2]
  by_cases hloop : c.kind == .loopStatement <;> simp [hloop, hd]

theorem mem_localNodes_of_mem_namedChildren {n d : Node} (hd : d ∈ n.namedChildren)
    (hlocal : d.declaresLocals = true ∨ d.kind = .loopStatement) : d ∈ n.localNodes := by
  obtain ⟨hd, hnamed⟩ := List.mem_filter.1 hd
  have hplain : d.isSubprogram = false := by
    rcases hlocal with h | h
    · simp only [declaresLocals, Bool.or_eq_true, beq_iff_eq] at h
      rcases h with h | h <;> simp [isSubprogram, h]
    · simp [isSubprogram, h]
  rw [localNodes_eq, localNodesAmong_eq_flatMap]
  refine List.mem_flatMap.2 ⟨d, hd, ?_⟩
  simp only [hnamed, hplain]
  by_cases hdeclares : d.declaresLocals = true
  · simp [hdeclares]
  · simp [hdeclares, hlocal.resolve_left hdeclares]

theorem mem_localNodes_of_reaches {n d : Node} (h : Reaches isSearched n d)
    (hlocal : d.declaresLocals = true ∨ d.kind = .loopStatement) : d ∈ n.localNodes := by
  induction h with
  | child hc => exact mem_localNodes_of_mem_namedChildren hc hlocal
  | step hc hsearched _ ih => exact mem_localNodes_of_mem_below hc hsearched (ih hlocal)

/-- The names that are brought in where a process is searched are its local names. -/
theorem lower_mem_localNames {n d : Node} {name : Text} (h : Reaches isSearched n d)
    (hname : name ∈ d.bringsIn) : lower name ∈ n.localNames := by
  unfold bringsIn at hname
  split at hname
  · rename_i hdeclares
    refine List.mem_flatMap.2 ⟨d, mem_localNodes_of_reaches h (.inl hdeclares), ?_⟩
    rw [ownLocalNames, if_pos hdeclares]
    exact List.mem_map_of_mem hname
  · rename_i hdeclares
    split at hname
    · rename_i hloop
      refine List.mem_flatMap.2 ⟨d, mem_localNodes_of_reaches h (.inr (beq_iff_eq.1 hloop)), ?_⟩
      rw [ownLocalNames, if_neg hdeclares]
      exact List.mem_map_of_mem hname
    · cases hname

end Node

/-! ## Parameters of generate statements -/

/-- The parameters of some generate statements are excluded. -/
def Lookup.HidesParameters (L : Lookup) (around : List Node) : Prop :=
  ∀ g ∈ around, ∀ name, (GenerateHeader.ofNode g).parameter? = some name →
    L.excluded (lower name) = true

theorem Lookup.HidesParameters.generateLookup {L : Lookup} {around : List Node}
    (h : L.HidesParameters around) (n : Node) :
    (generateLookup L n).HidesParameters (n :: around) := by
  intro g hg name hname
  show (_ || _) = true
  rw [Bool.or_eq_true]
  rcases List.mem_cons.1 hg with rfl | hg
  · exact .inl (by simp [hname])
  · exact .inr (h g hg name hname)

theorem hidesParameters_of_mem_stops {config : Config} {L : Lookup} {scope : Scope}
    {around : List Node} {n : Node} {s : Stop} (h : L.HidesParameters around)
    (hs : s ∈ stops config L scope around n) : s.lookup.HidesParameters s.around :=
  forall_mem_stops (P := Lookup.HidesParameters) (fun _ _ n h => h.generateLookup n) h s hs

theorem mem_around_of_mem_stops {config : Config} {L : Lookup} {scope : Scope}
    {around : List Node} {n g : Node} {s : Stop} (hg : g ∈ around)
    (hs : s ∈ stops config L scope around n) : g ∈ s.around :=
  forall_mem_stops (P := fun _ around => g ∈ around) (fun _ _ n h => List.mem_cons_of_mem n h) hg
    s hs

/-! ## Reads at a stop -/

namespace Stop

/-- What is read at a stop: by a process, by a concurrent assignment, or in a signal dependency. -/
def reads (config : Config) (s : Stop) : List Text :=
  (s.own config).processes.flatMap (·.reads) ++ (s.own config).assignments.flatMap (·.reads) ++
    (s.own config).signalDeps.map (·.source)

/-- A name that is no signal at a stop: a local name of the process there, reached through the given
constructs, or the parameter of a generate statement around it. -/
def Hides (through : Node → Bool) (s : Stop) (name : Text) : Prop :=
  (s.node.kind = .processStatement ∧ ∃ d, s.node.Reaches through d ∧ name ∈ d.bringsIn) ∨
    ∃ g ∈ s.around, (GenerateHeader.ofNode g).parameter? = some name

/-- The name tables that the expressions at a stop are scanned with. -/
def tables (s : Stop) : Lookup :=
  if s.node.kind = .processStatement then s.lookup.withLocals s.node.localNames else s.lookup

theorem admits_of_mem_processDeps {config : Config} {s : Stop} {p : ProcessStatement}
    {dep : SignalDep} (h : dep ∈ processDeps p (processActivity config s.lookup s.scope s.node)) :
    (s.lookup.withLocals s.node.localNames).Admits dep.source := by
  obtain ⟨d, hd, h⟩ := List.mem_flatMap.1 h
  obtain ⟨source, hsource, rfl⟩ := List.mem_map.1 h
  exact (admitted_processActivity config s.lookup s.scope s.node).drives d hd source hsource

theorem admits_of_mem_concurrentDeps {L : Lookup} {scope : Scope} {n : Node} {dep : SignalDep}
    (h : dep ∈ (concurrentHarvest L scope n).signalDeps) : L.Admits dep.source := by
  obtain ⟨target, -, h⟩ := List.mem_flatMap.1 h
  obtain ⟨source, hsource, rfl⟩ := List.mem_map.1 h
  exact admits_of_mem_readPaths hsource

theorem tables_admits {config : Config} {s : Stop} {t : Text} (ht : t ∈ s.reads config) :
    s.tables.Admits t := by
  have hfrom := s.own_isFrom config
  rw [reads, hfrom.processes, hfrom.assignments, hfrom.signalDeps, List.mem_append,
    List.mem_append] at ht
  unfold tables
  by_cases hprocess : s.node.kind = .processStatement
  · rw [if_pos hprocess]
    simp only [hprocess, if_true, reduceCtorEq, if_false, List.flatMap_cons, List.flatMap_nil,
      List.append_nil, List.not_mem_nil, or_false, List.mem_map] at ht
    rcases ht with ht | ⟨dep, hdep, rfl⟩
    · exact (admitted_processActivity config s.lookup s.scope s.node).reads t
        (mem_of_mem_distinct ht)
    · exact admits_of_mem_processDeps hdep
  · rw [if_neg hprocess]
    by_cases hconcurrent : s.node.kind = .concurrentSignalAssignment
    · simp only [hconcurrent, if_true, reduceCtorEq, if_false, List.flatMap_nil, List.not_mem_nil,
        false_or, List.mem_map] at ht
      rcases ht with ht | ⟨dep, hdep, rfl⟩
      · obtain ⟨a, ha, ht⟩ := List.mem_flatMap.1 ht
        obtain rfl := List.mem_singleton.1 ha
        exact admits_of_mem_readPaths ht
      · exact admits_of_mem_concurrentDeps hdep
    · simp [hprocess, hconcurrent] at ht

theorem tables_excluded {s : Stop} {name : Text} (hs : s.lookup.HidesParameters s.around)
    (h : s.Hides Node.isSearched name) : s.tables.excluded (lower name) = true := by
  have hlocals : (s.lookup.withLocals s.node.localNames).excluded (lower name) =
      (s.node.localNames.contains (lower name) || s.lookup.excluded (lower name)) := rfl
  rcases h with ⟨hprocess, d, hreaches, hname⟩ | ⟨g, hg, hparameter⟩
  · rw [tables, if_pos hprocess, hlocals, Bool.or_eq_true, List.contains_iff_mem]
    exact .inl (Node.lower_mem_localNames hreaches hname)
  · have hexcluded := hs g hg name hparameter
    unfold tables
    split
    · rw [hlocals, hexcluded, Bool.or_true]
    · exact hexcluded

end Stop

/-- No name that is hidden at a stop of a walk is read there. -/
def HiddenUnread (through : Node → Bool) (config : Config) (stops : List Stop) : Prop :=
  ∀ s ∈ stops, ∀ name, '.' ∉ name → s.Hides through name →
    ∀ t ∈ s.reads config, same t name = false

theorem hiddenUnread_stops {config : Config} {L : Lookup} {around : List Node}
    (h : L.HidesParameters around) (scope : Scope) (n : Node) :
    HiddenUnread Node.isSearched config (stops config L scope around n) := by
  intro s hs name hdot hhides t ht
  exact (Stop.tables_admits ht).not_same hdot
    (Stop.tables_excluded (hidesParameters_of_mem_stops h hs) hhides)

theorem hidesParameters_nil (L : Lookup) : L.HidesParameters [] := fun _ hg => nomatch hg

/-- The parameter of a generate statement is not read in its body, at any depth. -/
theorem parameter_unread_of_mem_body {config : Config} {s : Stop} {name t : Text}
    (hs : s.lookup.HidesParameters s.around) (hdot : '.' ∉ name)
    (hname : (GenerateHeader.ofNode s.node).parameter? = some name)
    (ht : t ∈ (s.body config).processes.flatMap (·.reads) ++
      (s.body config).assignments.flatMap (·.reads)) : same t name = false := by
  have hbody := hs.generateLookup s.node
  -- a read in a list of the body is a read at a stop of the walk over a node of the body
  have hread : ∃ c ∈ (GenerateHeader.ofNode s.node).body,
      ∃ s' ∈ stops config (generateLookup s.lookup s.node)
        (s.scope.inGenerate (GenerateHeader.ofNode s.node).label) (s.node :: s.around) c,
        t ∈ s'.reads config := by
    rcases List.mem_append.1 ht with ht | ht
    · obtain ⟨p, hp, ht⟩ := List.mem_flatMap.1 ht
      obtain ⟨c, hc, s', hs', hp⟩ := FlatList.processes.exists_stop_of_mem_body hp
      refine ⟨c, hc, s', hs', ?_⟩
      exact List.mem_append_left _ (List.mem_append_left _ (List.mem_flatMap.2 ⟨p, hp, ht⟩))
    · obtain ⟨a, ha, ht⟩ := List.mem_flatMap.1 ht
      obtain ⟨c, hc, s', hs', ha⟩ := FlatList.assignments.exists_stop_of_mem_body ha
      refine ⟨c, hc, s', hs', ?_⟩
      exact List.mem_append_left _ (List.mem_append_right _ (List.mem_flatMap.2 ⟨a, ha, ht⟩))
  obtain ⟨c, -, s', hs', ht⟩ := hread
  have haround : s.node ∈ s'.around := mem_around_of_mem_stops List.mem_cons_self hs'
  exact hiddenUnread_stops hbody _ c s' hs' name hdot (.inr ⟨s.node, haround, hname⟩) t ht

/-- **Local names are not read.** The processes, the concurrent assignments and the signal
dependencies of a record are those at the stops of the walk, and at no stop is a name without dots
read that is local to the process there or the parameter of a generate statement around it. In
particular, the lists of a `for` generate statement hold no read of its parameter. -/
theorem extract_hiddenUnread {config : Config} {file : Text} {root : Node} {f : FileFacts}
    (h : extract config file root = .ok f) :
    (f.processes = (itinerary config root).flatMap (fun s => (s.own config).processes) ∧
      f.assignments = (itinerary config root).flatMap (fun s => (s.own config).assignments) ∧
      f.signalDeps = (itinerary config root).flatMap fun s => (s.own config).signalDeps) ∧
    HiddenUnread Node.isSearched config (itinerary config root) ∧
    ∀ g ∈ Generate.walkAll f.generates, ∀ parameter low high direction,
      g.scheme = .loop parameter low high direction → parameter ≠ [] → '.' ∉ parameter →
      ∀ t ∈ g.processes.flatMap (·.reads) ++ g.assignments.flatMap (·.reads),
        same t parameter = false := by
  refine ⟨⟨of_extract .processes h, of_extract .assignments h, of_extract .signalDeps h⟩,
    hiddenUnread_stops (hidesParameters_nil _) _ root, ?_⟩
  intro g hg parameter low high direction hscheme hne hdot t ht
  obtain ⟨s, hs, hat⟩ := exists_stop_of_mem_generates h hg
  have hname : (GenerateHeader.ofNode s.node).parameter? = some parameter := by
    simp [GenerateHeader.parameter?, ← hat.scheme, hscheme, hne]
  rw [hat.processes, hat.assignments] at ht
  exact parameter_unread_of_mem_body
    (hidesParameters_of_mem_stops (hidesParameters_nil _) hs) hdot hname ht

/-- A process with a variable `v` in a generate statement over `i`. -/
def localNameTree : Node :=
  .branch "for_generate" [.word "for", .leaf "identifier" "i", .word "generate",
    .branch "process_statement" [
      .branch "variable_declaration" [.word "variable", .leaf "identifier" "v", .word ":"],
      .branch "sequential_signal_assignment" [.leaf "identifier" "y", .word "<=",
        .leaf "identifier" "I", .leaf "identifier" "V", .leaf "identifier" "d"],
      .word "end"],
    .word "end"]

theorem extract_hiddenUnread_locals :
    ∃ f, extract {} [] localNameTree = .ok f ∧ f.processes.map (·.reads) = [["d".toList]] ∧
      (f.processes = (itinerary {} localNameTree).flatMap (fun s => (s.own {}).processes) ∧
        f.assignments = (itinerary {} localNameTree).flatMap (fun s => (s.own {}).assignments) ∧
        f.signalDeps = (itinerary {} localNameTree).flatMap fun s => (s.own {}).signalDeps) ∧
      HiddenUnread Node.isSearched {} (itinerary {} localNameTree) ∧
      ∀ g ∈ Generate.walkAll f.generates, ∀ parameter low high direction,
        g.scheme = .loop parameter low high direction → parameter ≠ [] → '.' ∉ parameter →
        ∀ t ∈ g.processes.flatMap (·.reads) ++ g.assignments.flatMap (·.reads),
          same t parameter = false := by
  obtain ⟨f, h, hreads⟩ := exists_ok_of_any (x := extract {} [] localNameTree)
    (p := fun f => f.processes.map (·.reads) == [["d".toList]]) (by decide +kernel)
  exact ⟨f, h, beq_iff_eq.1 hreads, extract_hiddenUnread h⟩

/-- A declaration inside another one. -/
def innerDeclaration : Node :=
  .branch "variable_declaration" [.word "variable", .leaf "identifier" "b", .word ":"]

def outerDeclaration : Node :=
  .branch "variable_declaration" [.word "variable", .leaf "identifier" "a", .word ":",
    innerDeclaration]

def nestedDeclarationTree : Node :=
  .branch "process_statement" [outerDeclaration, .word "begin",
    .branch "sequential_signal_assignment"
      [.leaf "identifier" "y", .word "<=", .leaf "identifier" "b"],
    .word "end"]

/-- A name that is declared inside another declaration is read as a signal. -/
theorem not_hiddenUnread_nested :
    (extract {} [] nestedDeclarationTree).toOption.isSome = true ∧
      ¬ HiddenUnread Node.isOpen {} (itinerary {} nestedDeclarationTree) := by
  let s : Stop := ⟨nameTable {} nestedDeclarationTree, .file, [], nestedDeclarationTree⟩
  refine ⟨by decide +kernel, fun h => ?_⟩
  have hs : s ∈ itinerary {} nestedDeclarationTree := by
    rw [itinerary, stops_eq]
    exact List.mem_cons_self
  have hreaches : s.node.Reaches Node.isOpen innerDeclaration :=
    .step (c := outerDeclaration) (List.mem_filter.2 ⟨List.mem_cons_self, rfl⟩) (by decide +kernel)
      (.child (List.mem_filter.2 ⟨by simp [outerDeclaration, Node.branch], rfl⟩))
  have hhides : s.Hides Node.isOpen "b".toList :=
    .inl ⟨by decide +kernel, innerDeclaration, hreaches, by decide +kernel⟩
  have hread : "b".toList ∈ s.reads {} := by decide +kernel
  exact absurd (h s hs "b".toList (by decide) hhides "b".toList hread) (by decide)

end DesignFacts

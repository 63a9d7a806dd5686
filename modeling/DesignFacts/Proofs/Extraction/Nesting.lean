import DesignFacts.Proofs.Extraction.Record

/-!
# Nested generate statements

The path of a generate statement is built twice: the walk hands a scope down into the body, and the
finished statement computes its path from its label and the place it stands in. The two agree
(`path_inGenerate`), so what stands in a statement bears its path.

**Paths.** In a body without entities, architectures and packages only generate statements change
the scope, and they extend the path (`Scope.Under`). One step keeps this (`Scope.Under.inGenerate`),
so it holds at every stop of the walk over the body.

**Copies.** A statement copies four lists of its body (`Copied`). The same facts are passed on to
what stands around it, so each list is a block of the one around it (`infix_of_mem_generates_walk`).

Main result: `extract_nested`.
-/

namespace DesignFacts

/-! ## Copied lists -/

/-- The lists that a generate statement copies from its body, with the path that each fact bears. -/
inductive Copied : {α : Type} → FlatList α → (Generate → List α) → (α → Text) → Prop
  | signals : Copied .signals Generate.signals Signal.scope
  | instances : Copied .instances Generate.instances Instance.inArch
  | processes : Copied .processes Generate.processes ProcessStatement.inArch
  | assignments : Copied .assignments Generate.assignments ConcurrentAssignment.inArch

section

variable {α : Type} {l : FlatList α} {copy : Generate → List α} {path : α → Text}

theorem Copied.of_generateOf (h : Copied l copy path) (scope : Scope) (n : Node) (body : Harvest) :
    copy (generateOf scope n body) = l.of body := by
  cases h <;> rfl

theorem Copied.of_forget (h : Copied l copy path) (g : Generate) : copy g.forget = copy g := by
  cases g
  cases h <;> rfl

theorem Copied.of_isAt (h : Copied l copy path) {config : Config} {s : Stop} {g : Generate}
    (hat : g.IsAt config s) : copy g = l.of (s.body config) := by
  cases h with
  | signals => exact hat.signals
  | instances => exact hat.instances
  | processes => exact hat.processes
  | assignments => exact hat.assignments

/-! ## Blocks -/

theorem infix_flatMap_of_mem {β : Type} {x : β} {xs : List β} (h : x ∈ xs) (f : β → List α) :
    f x <:+: xs.flatMap f := by
  obtain ⟨front, back, rfl⟩ := List.append_of_mem h
  exact ⟨front.flatMap f, back.flatMap f, by simp⟩

/-- What is a block of a part is a block of the row of all parts. -/
theorem infix_of_mem_flatMap {ns : List Node} {f : Node → Harvest}
    (h : ∀ c ∈ ns, ∀ k ∈ (f c).generates, copy k <:+: l.of (f c)) :
    ∀ k ∈ ns.flatMap fun c => (f c).generates, copy k <:+: ns.flatMap fun c => l.of (f c) := by
  intro k hk
  obtain ⟨c, hc, hk⟩ := List.mem_flatMap.1 hk
  exact (h c hc k hk).trans (infix_flatMap_of_mem hc fun c => l.of (f c))

theorem infix_of_mem_generates_walk (hcopied : Copied l copy path) (config : Config) (L : Lookup)
    (scope : Scope) (n : Node) :
    ∀ k ∈ (walk config L scope n).generates, copy k <:+: l.of (walk config L scope n) := by
  induction L, scope, n using walk.induct config with
  | case1 L scope n own inner next hvisit ih =>
    intro k hk
    rw [generates_walk_of_construct hvisit] at hk
    rw [walk_eq, hvisit]
    simp only [FlatList.of_append, FlatList.of_concat, List.flatMap_map]
    exact (infix_of_mem_flatMap (fun c hc => ih ⟨c, hc⟩) k hk).trans
      (List.suffix_append _ _).isInfix
  | case2 L scope n hvisit header ih =>
    intro k hk
    rw [generates_walk_of_generate hvisit []] at hk
    obtain rfl := List.mem_singleton.1 hk
    rw [hcopied.of_generateOf, walk_eq, hvisit]
    simp only [FlatList.of_generateHarvest]
    exact List.infix_rfl

end

/-! ## Paths -/

theorem path_inGenerate (scope : Scope) (label : Text) :
    (scope.inGenerate label).path =
      if scope.path.isEmpty then label else scope.path ++ '.' :: label := by
  unfold Scope.inGenerate Scope.path
  cases scope.arch <;> rfl

/-- The path of a finished statement is the one that the walk has in its body. -/
theorem Generate.IsAt.scopePath {config : Config} {s : Stop} {g : Generate} (h : g.IsAt config s) :
    g.scopePath = (s.scope.inGenerate (GenerateHeader.ofNode s.node).label).path := by
  rw [path_inGenerate, Generate.scopePath, h.inArch, h.label]

/-- A path is another one or begins with it and a dot. -/
def Text.Under (outer path : Text) : Prop := path = outer ∨ outer ++ ['.'] <+: path

/-- A scope with a path at or below another one. -/
def Scope.Under (outer : Text) (s : Scope) : Prop := ∃ path, s.arch = some path ∧ outer.Under path

theorem Text.Under.append {outer path : Text} (h : outer.Under path) (label : Text) :
    outer.Under (path ++ '.' :: label) := by
  rcases h with rfl | h
  · exact .inr ⟨label, by simp⟩
  · exact .inr (h.trans (List.prefix_append _ _))

theorem Scope.Under.inGenerate {outer : Text} (houter : outer ≠ []) {s : Scope}
    (h : s.Under outer) (label : Text) : (s.inGenerate label).Under outer := by
  obtain ⟨path, harch, hunder⟩ := h
  have hne : path ≠ [] := by
    rcases hunder with rfl | ⟨rest, rfl⟩
    · exact houter
    · simp
  refine ⟨path ++ '.' :: label, ?_, hunder.append label⟩
  simp [Scope.inGenerate, harch, hne]

/-- A body in which only generate statements open scopes is walked at or below its path. -/
theorem under_of_mem_stops {config : Config} {L : Lookup} {scope : Scope} {around : List Node}
    {n : Node} {outer : Text} (houter : outer ≠ []) :
    (∀ m ∈ n.subtree, m.opensScope = false) → scope.Under outer →
      ∀ s ∈ stops config L scope around n, s.scope.Under outer := by
  induction L, scope, n using walk.induct config generalizing around with
  | case1 L scope n own inner next hvisit ih =>
    intro hclosed hscope s hs
    obtain rfl := scope_of_visit hvisit (hclosed n n.mem_subtree_self)
    rw [stops_eq, hvisit, List.mem_cons, List.mem_flatMap] at hs
    rcases hs with rfl | ⟨c, hc, hs⟩
    · exact hscope
    · refine ih ⟨c, hc⟩ (fun m hm => hclosed m ?_) hscope s hs
      exact n.mem_subtree_of_mem_children ((next_sublist_of_visit hvisit).subset hc) hm
  | case2 L scope n hvisit header =>
    rename_i ih
    intro hclosed hscope s hs
    rw [stops_eq, hvisit, List.mem_cons, List.mem_flatMap] at hs
    rcases hs with rfl | ⟨c, hc, hs⟩
    · exact hscope
    · refine ih ⟨c, hc⟩ (fun m hm => hclosed m ?_) (hscope.inGenerate houter _) s hs
      exact GenerateHeader.mem_subtree_of_mem_body hc hm

/-- The statements directly in such a body bear its path. -/
theorem inArch_of_mem_generates_walk {config : Config} {L : Lookup} {scope : Scope} {n : Node} :
    (∀ m ∈ n.subtree, m.opensScope = false) →
      ∀ k ∈ (walk config L scope n).generates, k.inArch = scope.path := by
  induction L, scope, n using walk.induct config with
  | case1 L scope n own inner next hvisit ih =>
    intro hclosed k hk
    obtain rfl := scope_of_visit hvisit (hclosed n n.mem_subtree_self)
    rw [generates_walk_of_construct hvisit] at hk
    obtain ⟨c, hc, hk⟩ := List.mem_flatMap.1 hk
    refine ih ⟨c, hc⟩ (fun m hm => hclosed m ?_) k hk
    exact n.mem_subtree_of_mem_children ((next_sublist_of_visit hvisit).subset hc) hm
  | case2 L scope n hvisit header =>
    intro _ k hk
    rw [generates_walk_of_generate hvisit []] at hk
    obtain rfl := List.mem_singleton.1 hk
    rfl

/-- What a stop contributes to a copied list bears the path of the stop. -/
theorem Copied.under_of_mem_own {α : Type} {l : FlatList α} {copy : Generate → List α}
    {path : α → Text} (h : Copied l copy path) {config : Config} {s : Stop} {outer : Text}
    (hs : s.scope.Under outer) {x : α} (hx : x ∈ l.of (s.own config)) : outer.Under (path x) := by
  obtain ⟨q, harch, hunder⟩ := hs
  -- An architecture is open at the stop, so both ways of naming a scope give its name.
  have hpath : outer.Under s.scope.path := by simpa [Scope.path, harch] using hunder
  have howner : outer.Under s.scope.owner := by simpa [Scope.owner, harch] using hunder
  have hfrom := s.own_isFrom config
  cases h with
  | signals =>
    have hx : x ∈ (s.own config).signals := hx
    rw [hfrom.signals, List.mem_ite_nil_right] at hx
    obtain ⟨named, -, rfl⟩ := List.mem_map.1 hx.2
    exact howner
  | instances =>
    have hx : x ∈ (s.own config).instances := hx
    rw [hfrom.instances, List.mem_ite_nil_right] at hx
    obtain rfl := List.mem_singleton.1 hx.2
    exact hpath
  | processes =>
    have hx : x ∈ (s.own config).processes := hx
    rw [hfrom.processes, List.mem_ite_nil_right] at hx
    obtain rfl := List.mem_singleton.1 hx.2
    exact hpath
  | assignments =>
    have hx : x ∈ (s.own config).assignments := hx
    rw [hfrom.assignments, List.mem_ite_nil_right] at hx
    obtain rfl := List.mem_singleton.1 hx.2
    exact hpath

/-! ## Records -/

section

variable {config : Config} {file : Text} {root : Node} {f : FileFacts} {α : Type} {l : FlatList α}
  {copy : Generate → List α} {path : α → Text}

/-- Each list of a statement at the top is a block of that of the file. -/
theorem infix_of_mem_generates (h : extract config file root = .ok f) (hcopied : Copied l copy path)
    {g : Generate} (hg : g ∈ f.generates) : copy g <:+: l.of f.toHarvest := by
  obtain ⟨generates, hforget, rfl⟩ := exists_of_extract h
  obtain ⟨walked, hwalked, hsame⟩ := Generate.exists_mem_of_forgetAll_eq hforget hg
  rw [← hcopied.of_forget, ← hsame, hcopied.of_forget]
  have hblock := infix_of_mem_generates_walk hcopied config (nameTable config root) .file root
    walked hwalked
  cases hcopied <;> exact hblock

/-- Each list of a nested statement is a block of that of the statement around it. -/
theorem Generate.IsAt.infix_of_mem_generates {s : Stop} {g k : Generate} (hat : g.IsAt config s)
    (hcopied : Copied l copy path) (hk : k ∈ g.generates) : copy k <:+: copy g := by
  obtain ⟨walked, hwalked, hsame⟩ := Generate.exists_mem_of_forgetAll_eq hat.generates hk
  rw [s.generates_body] at hwalked
  rw [← hcopied.of_forget k, ← hsame, hcopied.of_forget, hcopied.of_isAt hat, Stop.body,
    FlatList.of_concat, List.flatMap_map]
  exact infix_of_mem_flatMap (fun c _ => infix_of_mem_generates_walk hcopied config _ _ c)
    walked hwalked

/-- A nested statement stands at the path of the statement around it. -/
theorem Generate.IsAt.inArch_of_mem_generates {s : Stop} {g k : Generate} (hat : g.IsAt config s)
    (hclosed : ∀ b ∈ (GenerateHeader.ofNode s.node).body, ∀ m ∈ b.subtree, m.opensScope = false)
    (hk : k ∈ g.generates) : k.inArch = g.scopePath := by
  obtain ⟨walked, hwalked, hsame⟩ := Generate.exists_mem_of_forgetAll_eq hat.generates hk
  rw [s.generates_body] at hwalked
  obtain ⟨c, hc, hwalked⟩ := List.mem_flatMap.1 hwalked
  rw [← Generate.inArch_forget k, ← hsame, Generate.inArch_forget, hat.scopePath]
  exact inArch_of_mem_generates_walk (hclosed c hc) walked hwalked

/-- What stands in a statement bears its path, or a path below it. -/
theorem Generate.IsAt.under_of_mem_copy {s : Stop} {g : Generate} (hat : g.IsAt config s)
    (hclosed : ∀ b ∈ (GenerateHeader.ofNode s.node).body, ∀ m ∈ b.subtree, m.opensScope = false)
    (hcopied : Copied l copy path) (hlabel : g.label ≠ []) {x : α} (hx : x ∈ copy g) :
    g.scopePath.Under (path x) := by
  have hne : g.scopePath ≠ [] := by
    unfold Generate.scopePath
    split
    · exact hlabel
    · simp
  rw [hcopied.of_isAt hat] at hx
  obtain ⟨c, hc, s', hs', hx⟩ := l.exists_stop_of_mem_body hx
  refine hcopied.under_of_mem_own (under_of_mem_stops hne (hclosed c hc) ?_ s' hs') hx
  exact ⟨_, rfl, .inl (hat.scopePath ▸ rfl)⟩

/-- **Nesting is kept.** If no entity, architecture or package stands in the body of a generate
statement, then in the record of a file every statement stands at the path of the statement around
it, and what stands in a statement with a label bears its path or one below it. The lists of a
statement are blocks of those of the statement around it, or of the file at the top. -/
theorem extract_nested (h : extract config file root = .ok f)
    (hbodies : root.BodiesAvoid Node.opensScope) :
    (∀ g ∈ Generate.walkAll f.generates, ∀ k ∈ g.generates, k.inArch = g.scopePath) ∧
    ∀ {α : Type} {l : FlatList α} {copy : Generate → List α} {path : α → Text},
      Copied l copy path →
      (∀ g ∈ f.generates, copy g <:+: l.of f.toHarvest) ∧
      ∀ g ∈ Generate.walkAll f.generates, (∀ k ∈ g.generates, copy k <:+: copy g) ∧
        (g.label ≠ [] → ∀ x ∈ copy g, g.scopePath.Under (path x)) := by
  have hstop : ∀ g ∈ Generate.walkAll f.generates, ∃ s : Stop, g.IsAt config s ∧
      ∀ b ∈ (GenerateHeader.ofNode s.node).body, ∀ m ∈ b.subtree, m.opensScope = false := by
    intro g hg
    obtain ⟨s, hs, hat⟩ := exists_stop_of_mem_generates h hg
    exact ⟨s, hat, hbodies s.node (mem_subtree_of_mem_stops hs) hat.isGenerate⟩
  refine ⟨fun g hg k hk => ?_, fun hcopied => ⟨fun g hg => infix_of_mem_generates h hcopied hg,
    fun g hg => ⟨fun k hk => ?_, fun hlabel x hx => ?_⟩⟩⟩
  · obtain ⟨s, hat, hclosed⟩ := hstop g hg
    exact hat.inArch_of_mem_generates hclosed hk
  · obtain ⟨s, hat, -⟩ := hstop g hg
    exact hat.infix_of_mem_generates hcopied hk
  · obtain ⟨s, hat, hclosed⟩ := hstop g hg
    exact hat.under_of_mem_copy hclosed hcopied hlabel hx

end

/-- A process in two generate statements of an architecture. -/
def nestedGenerateTree : Node :=
  .branch "architecture_body" [.under "name" (.leaf "identifier" "a"),
    .branch "if_generate" [.under "label" (.leaf "identifier" "g"), .word "generate",
      .branch "if_generate" [.under "label" (.leaf "identifier" "h"), .word "generate",
        .branch "process_statement" [], .word "end"],
      .word "end"]]

theorem extract_nested_twice :
    ∃ f, extract {} [] nestedGenerateTree = .ok f ∧
      nestedGenerateTree.BodiesAvoid Node.opensScope ∧
      (Generate.walkAll f.generates).map (·.label) = ["g".toList, "h".toList] ∧
      f.processes.map (·.inArch) = ["a.g.h".toList] ∧
      (∀ g ∈ Generate.walkAll f.generates, ∀ k ∈ g.generates, k.inArch = g.scopePath) ∧
      ∀ {α : Type} {l : FlatList α} {copy : Generate → List α} {path : α → Text},
        Copied l copy path →
        (∀ g ∈ f.generates, copy g <:+: l.of f.toHarvest) ∧
        ∀ g ∈ Generate.walkAll f.generates, (∀ k ∈ g.generates, copy k <:+: copy g) ∧
          (g.label ≠ [] → ∀ x ∈ copy g, g.scopePath.Under (path x)) := by
  obtain ⟨f, h, hlists⟩ := exists_ok_of_any (x := extract {} [] nestedGenerateTree)
    (p := fun f => (Generate.walkAll f.generates).map (·.label) == ["g".toList, "h".toList]
      && f.processes.map (·.inArch) == ["a.g.h".toList]) (by decide +kernel)
  rw [Bool.and_eq_true, beq_iff_eq, beq_iff_eq] at hlists
  have hbodies : nestedGenerateTree.BodiesAvoid Node.opensScope := by decide +kernel
  exact ⟨f, h, hbodies, hlists.1, hlists.2, extract_nested h hbodies⟩

end DesignFacts

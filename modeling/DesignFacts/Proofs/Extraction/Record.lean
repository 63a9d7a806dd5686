import DesignFacts.Proofs.Extraction.Itinerary

/-!
# The record of a file

The record of a file is what the walk over its tree gathers, with the results of the analyses
(`exists_of_extract`). The analyses leave the gathered lists alone but for one: the generate
statements get their iterations.

`Generate.forget` takes the iterations away again, at all depths. Since elaborating changes nothing
else (`forgetAll_elaborateAll`), every generate statement of a record is, up to iterations, the one
at some stop of the walk (`Generate.IsAt`, `exists_stop_of_mem_generates`).
-/

namespace DesignFacts

namespace Generate

/-! ## Iterations -/

/-- Elaborating a statement itself gives it the iterations of its scheme. -/
theorem elaborateOwn_eq (m : Constants) (g : Generate) :
    elaborateOwn m g = (g.scheme.iterations m).map fun iterations =>
      (iterations.isSome, { g with
        canElaborate := iterations.isSome
        iterationCount := iterations.getD (-1) }) := by
  rw [elaborateOwn]
  cases g.scheme.iterations m with
  | error e => rfl
  | ok iterations => cases iterations <;> rfl

theorem exists_of_elaborate {m : Constants} {g g' : Generate} {count : Nat}
    (h : elaborate m g = .ok (count, g')) :
    ∃ iterations innerCount inner, g.scheme.iterations m = .ok iterations ∧
      elaborateAll m g.generates = .ok (innerCount, inner) ∧
      count = (if iterations.isSome then 1 else 0) + innerCount ∧
      g' = { g with
        canElaborate := iterations.isSome
        iterationCount := iterations.getD (-1)
        generates := inner } := by
  rw [elaborate_eq, elaborateOwn_eq] at h
  obtain ⟨⟨done, g''⟩, hown, h⟩ := bind_eq_ok_iff.1 h
  obtain ⟨⟨innerCount, inner⟩, hinner, h⟩ := bind_eq_ok_iff.1 h
  cases hscheme : g.scheme.iterations m with
  | error e =>
    rw [hscheme] at hown
    cases hown
  | ok iterations =>
    rw [hscheme] at hown
    cases hown
    cases h
    exact ⟨iterations, innerCount, inner, rfl, hinner, rfl, rfl⟩

mutual

/-- A generate statement without the iterations of itself and of those in it. -/
def forget : Generate → Generate
  | ⟨label, scheme, inArch, line, _, _, signals, instances, processes, assignments, generates⟩ =>
    ⟨label, scheme, inArch, line, false, -1, signals, instances, processes, assignments,
      forgetAll generates⟩

/-- Generate statements without the iterations of all of them. -/
def forgetAll : List Generate → List Generate
  | [] => []
  | g :: gs => forget g :: forgetAll gs

end

theorem forgetAll_eq_map (gs : List Generate) : forgetAll gs = gs.map forget := by
  induction gs with
  | nil => rfl
  | cons g gs ih => rw [forgetAll, ih, List.map_cons]

@[simp] theorem inArch_forget (g : Generate) : g.forget.inArch = g.inArch := by
  cases g
  rfl

mutual

theorem forget_elaborate {m : Constants} : ∀ {g g' : Generate} {count : Nat},
    elaborate m g = .ok (count, g') → g'.forget = g.forget
  | ⟨_, _, _, _, _, _, _, _, _, _, generates⟩, g', count, h => by
    obtain ⟨iterations, innerCount, inner, -, hinner, -, rfl⟩ := exists_of_elaborate h
    have hforget : forgetAll inner = forgetAll generates := forgetAll_elaborateAll hinner
    rw [forget, forget, hforget]

theorem forgetAll_elaborateAll {m : Constants} : ∀ {gs gs' : List Generate} {count : Nat},
    elaborateAll m gs = .ok (count, gs') → forgetAll gs' = forgetAll gs
  | [], gs', count, h => by
    cases h
    rfl
  | g :: gs, all, count, h => by
    rw [elaborateAll] at h
    obtain ⟨⟨own, g'⟩, hg, h⟩ := bind_eq_ok_iff.1 h
    obtain ⟨⟨rest, gs'⟩, hgs, h⟩ := bind_eq_ok_iff.1 h
    cases h
    rw [forgetAll, forgetAll, forget_elaborate hg, forgetAll_elaborateAll hgs]

end

mutual

theorem walk_forget : ∀ g : Generate, walk g.forget = forgetAll (walk g)
  | ⟨_, _, _, _, _, _, _, _, _, _, generates⟩ => by
    rw [walk, forgetAll, ← walkAll_forgetAll generates]
    rfl

theorem walkAll_forgetAll : ∀ gs : List Generate, walkAll (forgetAll gs) = forgetAll (walkAll gs)
  | [] => rfl
  | g :: gs => by
    rw [forgetAll, walkAll, walkAll, walk_forget g, walkAll_forgetAll gs]
    simp only [forgetAll_eq_map, List.map_append]

end

/-- Lists that are equal up to iterations hold the same statements up to iterations. -/
theorem exists_mem_of_forgetAll_eq {gs gs' : List Generate} (h : forgetAll gs' = forgetAll gs)
    {g' : Generate} (hg : g' ∈ gs') : ∃ g ∈ gs, g.forget = g'.forget := by
  rw [forgetAll_eq_map, forgetAll_eq_map] at h
  have hmem : g'.forget ∈ gs.map forget := h ▸ List.mem_map_of_mem hg
  exact List.mem_map.1 hmem

end Generate

/-! ## Records -/

theorem forgetAll_elaborated {config : Config} {h : Harvest} {gs : List Generate}
    (hlists : h.elaborated config = .ok gs) :
    Generate.forgetAll gs = Generate.forgetAll h.generates := by
  unfold Harvest.elaborated at hlists
  split at hlists
  · obtain ⟨values, -, hlists⟩ := bind_eq_ok_iff.1 hlists
    obtain ⟨⟨count, generates⟩, hall, hlists⟩ := bind_eq_ok_iff.1 hlists
    cases hlists
    exact Generate.forgetAll_elaborateAll hall
  · cases hlists
    rfl

/-- A record is what the walk gathers, with iterations, and with what the analyses find. -/
theorem exists_of_extract {config : Config} {file : Text} {root : Node} {f : FileFacts}
    (h : extract config file root = .ok f) :
    ∃ generates, Generate.forgetAll generates = Generate.forgetAll (harvest config root).generates ∧
      f = { harvest config root with
        generates
        file
        dependencies := fileDependencies file (harvest config root).references
        clockDomains := clockDomains (harvest config root).processes
        resets := resetInfos (harvest config root).processes
        usages := signalUsages (harvest config root)
        crossings := if config.detectCrossings then crossings (harvest config root) else [] } := by
  simp only [extract] at h
  split at h
  · cases h
  · split at h
    · cases h
    · obtain ⟨generates, hlists, h⟩ := bind_eq_ok_iff.1 h
      cases h
      exact ⟨generates, forgetAll_elaborated hlists, rfl⟩

/-- A flat list of a record is what the stops of the walk contribute to it. -/
theorem of_extract {α : Type} (l : FlatList α) {config : Config} {file : Text} {root : Node}
    {f : FileFacts} (h : extract config file root = .ok f) :
    l.of f.toHarvest = (itinerary config root).flatMap fun s => l.of (s.own config) := by
  obtain ⟨generates, -, rfl⟩ := exists_of_extract h
  refine Eq.trans ?_ (of_walk l config _ _ [] root)
  cases l <;> rfl

/-- A generate statement is, up to iterations, the one at a stop. -/
structure Generate.IsAt (config : Config) (s : Stop) (g : Generate) : Prop where
  isGenerate : s.node.isGenerate = true
  label : g.label = (GenerateHeader.ofNode s.node).label
  scheme : g.scheme = (GenerateHeader.ofNode s.node).scheme
  inArch : g.inArch = s.scope.path
  signals : g.signals = (s.body config).signals
  instances : g.instances = (s.body config).instances
  processes : g.processes = (s.body config).processes
  assignments : g.assignments = (s.body config).assignments
  generates : forgetAll g.generates = forgetAll (s.body config).generates

theorem Generate.isAt_of_forget {config : Config} {s : Stop} {g : Generate}
    (hgenerate : s.node.isGenerate = true)
    (h : g.forget = (generateOf s.scope s.node (s.body config)).forget) : g.IsAt config s := by
  cases g
  simp only [generateOf, forget, mk.injEq] at h
  obtain ⟨hlabel, hscheme, hpath, -, -, -, hsignals, hinstances, hprocesses, hassignments,
    hinner⟩ := h
  exact ⟨hgenerate, hlabel, hscheme, hpath, hsignals, hinstances, hprocesses, hassignments, hinner⟩

/-- Every generate statement of a record is that at some stop. -/
theorem exists_stop_of_mem_generates {config : Config} {file : Text} {root : Node} {f : FileFacts}
    (h : extract config file root = .ok f) {g : Generate} (hg : g ∈ Generate.walkAll f.generates) :
    ∃ s ∈ itinerary config root, g.IsAt config s := by
  obtain ⟨generates, hforget, rfl⟩ := exists_of_extract h
  have hwalked : Generate.forgetAll (Generate.walkAll generates) =
      Generate.forgetAll (Generate.walkAll (harvest config root).generates) := by
    rw [← Generate.walkAll_forgetAll, hforget, Generate.walkAll_forgetAll]
  obtain ⟨walked, hmem, hsame⟩ := Generate.exists_mem_of_forgetAll_eq hwalked hg
  rw [harvest, walkAll_generates_walk config _ _ []] at hmem
  obtain ⟨s, hs, hgenerate⟩ := List.mem_filterMap.1 hmem
  unfold Stop.generate? at hgenerate
  split at hgenerate
  · cases hgenerate
    exact ⟨s, hs, Generate.isAt_of_forget ‹_› hsame.symm⟩
  · cases hgenerate

/-! ## Trees that are written out -/

/-- A computation whose result passes a test succeeds. -/
theorem exists_ok_of_any {α : Type} {x : Except Fault α} {p : α → Bool}
    (h : x.toOption.any p = true) : ∃ a, x = .ok a ∧ p a = true := by
  cases x with
  | error e => cases h
  | ok a => exact ⟨a, rfl, h⟩

namespace Node

/-- A token by itself. -/
def word (spelling : String) : Node :=
  ⟨spelling, false, none, 0, spelling.utf8ByteSize, 0, spelling.toList, []⟩

/-- A construct without parts. -/
def leaf (tag spelling : String) : Node :=
  ⟨tag, true, none, 0, spelling.utf8ByteSize, 0, spelling.toList, []⟩

/-- A construct with parts. What it covers itself is left open. -/
def branch (tag : String) (parts : List Node) : Node := ⟨tag, true, none, 0, 0, 0, [], parts⟩

def under (field : String) (n : Node) : Node := { n with field := some field }

end Node

end DesignFacts

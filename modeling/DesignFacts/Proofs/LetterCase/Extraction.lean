import DesignFacts.Extraction.Basic
import DesignFacts.Proofs.Crossing.Comprehension
import DesignFacts.Proofs.LetterCase.Walk

/-!
# Letter case of extractions

The analyses over what was gathered, and with them the whole extraction, over a source in small
letters.

**Bounds.** Values of constants are kept under names in small letters, and numerals have the same
value in small letters. So a bound has the same value, and elaborating generate statements ends in
the same fault or in none. The fault only depends on the schemes (`elaborateAll_map`).

**Clocks.** Clocks, stages and writers are compared in small letters, and the width of a type is
estimated in small letters. So the same processes are stages and the same pairs of processes cross.

**Extraction.** Both extractions end in the same fault, or the behaviour that the one finds is the
behaviour that the other one finds, in small letters.

Main result: `load_extract_lower`.
-/

namespace DesignFacts

open Text

/-! ## Values of bounds -/

namespace Bound

theorem balancedFrom_lower (depth : Nat) (t : Text) :
    balancedFrom depth (lower t) = balancedFrom depth t := by
  induction t generalizing depth with
  | nil => rfl
  | cons c t ih => simp [balancedFrom, ih]

theorem enclosed?_lower (t : Text) : enclosed? (lower t) = (enclosed? t).map lower := by
  have hplain {c : Char} (hc : c ≠ '(') (t : Text) : enclosed? (c :: t) = none := by
    simp [enclosed?, hc]
  cases t with
  | nil => rfl
  | cons c t =>
    by_cases hc : c = '('
    · subst hc
      show enclosed? ('(' :: lower t) = _
      simp only [enclosed?, getLast?_lower, map_toLower_beq (show ')'.isAlpha = false by decide),
        dropLast_lower, balancedFrom_lower, trim_lower]
      split <;> rfl
    · have hc' : c.toLower ≠ '(' := by simpa [toLower_eq_iff] using hc
      rw [lower_cons, hplain hc', hplain hc]
      rfl

theorem stripParens_lower (t : Text) : stripParens (lower t) = lower (stripParens t) := by
  rw [stripParens_eq, stripParens_eq t, enclosed?_lower]
  cases henclosed : enclosed? t with
  | none => rfl
  | some inner =>
    have := length_enclosed?_lt henclosed
    exact stripParens_lower inner
termination_by t.length

theorem core_lower (t : Text) : core (lower t) = lower (core t) := by
  rw [core, trim_lower, stripParens_lower, core]

theorem integer?_lower (t : Text) : integer? (lower t) = integer? t := by
  have hmark : (lower t).contains '#' = t.contains '#' := by simp
  have hdigits (base : Nat) (digits : Text) :
      basedDigits? base (lower digits) = basedDigits? base digits := by
    simp [basedDigits?, Function.comp_def]
  have hbased : based? (lower t) = based? t := by
    rw [based?, based?, splitOn_lower t (by decide)]
    cases splitOn '#' t with
    | nil => rfl
    | cons base rest => cases rest <;> simp [hdigits]
  rw [integer?, integer?, hmark, hbased]
  simp [Function.comp_def]

theorem atom?_lower (m : Constants) (t : Text) : atom? m (lower t) = atom? m t := by
  simp [atom?, integer?_lower]

/-- A text is split at the same operator, which is no letter. -/
theorem splitLast_lower {ops : List Char} (hops : ops.all (!·.isAlpha) = true) (depth : Int)
    (operand : Bool) (t : Text) :
    splitLast ops depth operand (lower t) =
      (splitLast ops depth operand t).map (Prod.map lower (Prod.map id lower)) := by
  induction t generalizing depth operand with
  | nil => rfl
  | cons c t ih =>
    have hdepth : (if c.toLower == '(' then depth + 1 else if c.toLower == ')' then depth - 1
        else depth) = if c == '(' then depth + 1 else if c == ')' then depth - 1 else depth := by
      simp
    have hends : ['+', '-', '*', '/', '('].contains c.toLower =
        ['+', '-', '*', '/', '('].contains c := contains_toLower (by decide) c
    rw [lower_cons, splitLast, splitLast]
    simp only [hdepth, hends, isBlank_toLower, ih, contains_toLower hops]
    generalize splitLast ops _ _ t = later
    cases later with
    | some parts => rfl
    | none =>
      simp only [Option.map_none]
      split
      -- The split stands here, at an operator, which has no case.
      · rename_i hhere
        have hc : c.isAlpha = false := by
          simp only [Bool.and_eq_true, List.contains_iff_mem] at hhere
          simpa using List.all_eq_true.1 hops c hhere.1.2
        rw [(toLower_eq_iff hc c).2 rfl]
        rfl
      · rfl

theorem split?_lower (t : Text) :
    split? (lower t) = (split? t).map (Prod.map lower (Prod.map id lower)) := by
  rw [split?, split?, splitLast_lower (by decide), splitLast_lower (by decide), Option.map_or]

/-- **Values of bounds ignore letter case.** -/
theorem evaluate_lower (m : Constants) (t : Text) : evaluate m (lower t) = evaluate m t := by
  rw [evaluate_eq, evaluate_eq m t, core_lower, atom?_lower, split?_lower]
  cases atom? m (core t) with
  | some v => rfl
  | none =>
    cases hsplit : split? (core t) with
    | none => rfl
    | some parts =>
      obtain ⟨left, op, right⟩ := parts
      have := length_split? hsplit
      have := length_core_le t
      simp only [Option.map_some, Prod.map_apply, id_eq]
      rw [evaluate_lower m left, evaluate_lower m right]
termination_by t.length

theorem defineConstant_lower (m : Constants) (name : Text) (value : Option Text) :
    defineConstant m (lower name) (value.map lower) = defineConstant m name value := by
  cases value <;> simp [defineConstant, define, evaluate_lower]

theorem defineGeneric_lower (m : Constants) (name : Text) (default : Option Text) :
    defineGeneric m (lower name) (default.map lower) = defineGeneric m name default := by
  simp [defineGeneric, defineConstant_lower]

end Bound

/-! ## Iterations -/

theorem Scheme.iterations_lower (m : Constants) (s : Scheme) :
    s.lower.iterations m = s.iterations m := by
  have hbetween (direction : Text) : Bound.iterationsBetween (Text.lower direction) =
      Bound.iterationsBetween direction := by
    funext low high
    simp only [Bound.iterationsBetween, isWord_lower]
  cases s <;> simp [lower, iterations, Bound.evaluate_lower, hbetween]

/-- The first fault that the iterations of schemes run into. -/
def Scheme.faults (m : Constants) (ss : List Scheme) : Except Fault Unit :=
  ss.forM fun s => (s.iterations m).map fun _ => ()

theorem Scheme.faults_append (m : Constants) (ss ss' : List Scheme) :
    faults m (ss ++ ss') = (faults m ss).bind fun _ => faults m ss' :=
  List.forM_append

theorem Scheme.faults_lower (m : Constants) (ss : List Scheme) :
    faults m (ss.map lower) = faults m ss := by
  simp [faults, iterations_lower]

namespace Generate

mutual

theorem elaborate_map (m : Constants) :
    ∀ g : Generate, (g.elaborate m).map (fun _ => ()) = Scheme.faults m (g.walk.map (·.scheme))
  | ⟨label, scheme, inArch, line, canElaborate, iterationCount, signals, instances, processes,
      assignments, generates⟩ => by
    have hinner := elaborateAll_map m generates
    show _ = ((scheme.iterations m).map fun _ => ()).bind fun _ =>
      Scheme.faults m ((walkAll generates).map (·.scheme))
    rw [← hinner, elaborate, elaborateOwn]
    cases scheme.iterations m with
    | error e => rfl
    | ok iterations => cases iterations <;> cases elaborateAll m generates <;> rfl

/-- Elaborating generate statements ends in the first fault of their schemes. -/
theorem elaborateAll_map (m : Constants) : ∀ gs : List Generate,
    (elaborateAll m gs).map (fun _ => ()) = Scheme.faults m ((walkAll gs).map (·.scheme))
  | [] => rfl
  | g :: gs => by
    have hfirst := elaborate_map m g
    have hrest := elaborateAll_map m gs
    rw [walkAll, List.map_append, Scheme.faults_append, ← hfirst, ← hrest, elaborateAll]
    cases elaborate m g with
    | error e => rfl
    | ok g' => cases elaborateAll m gs <;> rfl

end

end Generate

namespace Harvest

variable {h h' : Harvest}

theorem LowersTo.constantValues (hh : h.LowersTo h') : h'.constantValues = h.constantValues := by
  simp only [Harvest.constantValues, Bound.constantsOf, hh.constants, hh.generics, List.map_map,
    List.foldlM_map, Function.comp_def, Constant.lower_name, Constant.lower_value, Port.lower_name,
    Port.lower_default, Bound.defineConstant_lower, Bound.defineGeneric_lower]

theorem isEmpty_schemes (h : Harvest) : h.schemes.isEmpty = h.generates.isEmpty := by
  rw [schemes]
  cases h.generates with
  | nil => rfl
  | cons g gs => simp [Generate.walkAll, Generate.walk_eq_cons]

/-- Elaborating ends in the same fault, or in none. -/
theorem LowersTo.elaborated (hh : h.LowersTo h') (config : Config) :
    (h'.elaborated config).map (fun _ => ()) = (h.elaborated config).map fun _ => () := by
  have hempty : h'.generates.isEmpty = h.generates.isEmpty := by
    rw [← isEmpty_schemes, ← isEmpty_schemes, hh.schemes, List.isEmpty_map]
  rw [Harvest.elaborated, Harvest.elaborated, hempty, hh.constantValues]
  split
  · cases h.constantValues with
    | error e => rfl
    | ok m =>
      have hall : (Generate.elaborateAll m h'.generates).map (fun _ => ()) =
          (Generate.elaborateAll m h.generates).map fun _ => () :=
        calc (Generate.elaborateAll m h'.generates).map (fun _ => ())
            = Scheme.faults m h'.schemes := Generate.elaborateAll_map m h'.generates
          _ = Scheme.faults m h.schemes := by rw [hh.schemes, Scheme.faults_lower]
          _ = (Generate.elaborateAll m h.generates).map fun _ => () :=
            (Generate.elaborateAll_map m h.generates).symm
      have hsnd (gs : List Generate) :
          ((Generate.elaborateAll m gs >>= fun done => pure done.2).map fun _ => ()) =
            (Generate.elaborateAll m gs).map fun _ => () := by
        cases Generate.elaborateAll m gs <;> rfl
      exact (hsnd h'.generates).trans (hall.trans (hsnd h.generates).symm)
  · rfl

theorem LowersTo.hasWrongLiteral (hh : h.LowersTo h') :
    h'.hasWrongLiteral = h.hasWrongLiteral := by
  simp [Harvest.hasWrongLiteral, hh.comparisons, Function.comp_def]

end Harvest

/-! ## Clocks and resets -/

namespace ProcessStatement

variable (p : ProcessStatement)

theorem clockDomain?_lower : p.lower.clockDomain? = p.clockDomain?.map ClockDomain.lower := by
  simp only [clockDomain?, lower_clock, lower_edge]
  cases p.clock <;> cases p.edge <;> simp [ClockDomain.lower]

theorem resetInfo?_lower : p.lower.resetInfo? = p.resetInfo?.map ResetInfo.lower := by
  simp only [resetInfo?, lower_reset]
  cases p.reset with
  | none => rfl
  | some r => cases hsignal : r.signal <;> simp [ResetInfo.lower, hsignal]

@[simp] theorem clock?_lower : p.lower.clock? = p.clock?.map Text.lower := by
  simp only [clock?, isSequential_lower, lower_clock, Option.filter_map, Function.comp_def,
    isEmpty_lower]
  split <;> rfl

theorem dataReads_lower (clock : Text) :
    p.lower.dataReads (Text.lower clock) = (p.dataReads clock).map Text.lower := by
  have hreset (s : Text) : (p.lower.reset.bind (·.signal)).any (fun r => same s r) =
      (p.reset.bind (·.signal)).any fun r => same s r := by
    rw [lower_reset]
    cases p.reset with
    | none => rfl
    | some r => simp [Option.any_map]
  simp only [dataReads, lower_reads, List.filter_map, Function.comp_def, hreset, same_lower_left,
    same_lower_right]

/-- A process is the same stage: stages are kept in small letters. -/
theorem stage?_lower : p.lower.stage? = p.stage? := by
  rw [stage?, stage?, clock?_lower]
  cases p.clock? with
  | none => rfl
  | some clock =>
    simp only [Option.map_some, Option.bind_some, lower_assigned, dataReads_lower]
    cases p.assigned with
    | nil => rfl
    | cons output outputs =>
      cases outputs with
      | cons => rfl
      | nil =>
        cases p.dataReads clock with
        | nil => rfl
        | cons source sources => cases sources <;> simp

end ProcessStatement

theorem synchronizerStages_lower (ps : List ProcessStatement) :
    synchronizerStages (ps.map ProcessStatement.lower) = synchronizerStages ps := by
  have htable : stageTable (ps.map ProcessStatement.lower) = stageTable ps := by
    simp only [stageTable, List.filterMap_map, Function.comp_def, ProcessStatement.stage?_lower]
  rw [synchronizerStages, htable, synchronizerStages]

/-! ## Crossings -/

theorem clocked_lower (ps : List ProcessStatement) :
    clocked (ps.map ProcessStatement.lower) =
      (clocked ps).map (Prod.map lower ProcessStatement.lower) := by
  simp [clocked_eq, List.filterMap_map, List.map_filterMap, Function.comp_def]

theorem writers_lower (ps : List ProcessStatement) (signal : Text) :
    (writerTable (ps.map ProcessStatement.lower)).writers (lower signal) =
      ((writerTable ps).writers signal).map (Prod.map lower ProcessStatement.lower) := by
  simp [writers_writerTable, clocked_lower, List.flatMap_map, List.map_flatMap, List.filter_map,
    Function.comp_def]

theorem Width.estimate_lower (type : Text) : estimate (lower type) = estimate type := by
  rw [estimate, estimate, trim_lower, lower_lower]

theorem Width.isVector_lower (type : Text) : isVector (lower type) = isVector type := by
  rw [isVector, isVector, trim_lower, lower_lower]

namespace Harvest.LowersTo

variable {h h' : Harvest} (hh : h.LowersTo h')
include hh

theorem isMultiBit (signal : Text) : isMultiBit h' (lower signal) = isMultiBit h signal := by
  have htype (name : Text) : h'.declaredType? (lower name) = (h.declaredType? name).map lower := by
    simp [declaredType?, signal?, hh.signals, hh.ports, Option.map_or, Function.comp_def]
  rw [DesignFacts.isMultiBit, DesignFacts.isMultiBit, before_lower _ (by decide), htype]
  cases h.declaredType? (before '.' signal) with
  | none => rfl
  | some type => simp [Width.estimate_lower, Width.isVector_lower]

theorem crossingsOf (counts : StageCounts) (reader : ProcessStatement) (clock signal : Text)
    (writers : List (Text × ProcessStatement)) :
    crossingsOf h' counts reader.lower (lower clock) (lower signal)
        (writers.map (Prod.map lower ProcessStatement.lower)) =
      (crossingsOf h counts reader clock signal writers).map Crossing.lower := by
  simp [DesignFacts.crossingsOf, List.filter_map, Crossing.lower, hh.isMultiBit, Function.comp_def]

/-- The same pairs of processes cross. -/
theorem crossings : crossings h' = (crossings h).map Crossing.lower := by
  simp only [DesignFacts.crossings, hh.processes, synchronizerStages_lower, List.flatMap_map,
    List.map_flatMap]
  congr 1
  funext reader
  rw [reader.clock?_lower]
  cases reader.clock? with
  | none => rfl
  | some clock =>
    simp only [Option.map_some, ProcessStatement.lower_reads, List.flatMap_map, List.map_flatMap,
      writers_lower, hh.crossingsOf]

end Harvest.LowersTo

/-! ## Extraction -/

/-- The behaviour that the analyses make of what was gathered. -/
def Harvest.behaviour (config : Config) (h : Harvest) : Behaviour where
  processes := h.processes
  assignments := h.assignments
  caseStatements := h.caseStatements
  comparisons := h.comparisons
  arithmeticOps := h.arithmeticOps
  signalDeps := h.signalDeps
  clockDomains := clockDomains h.processes
  resets := resetInfos h.processes
  crossings := if config.detectCrossings then crossings h else []

theorem Harvest.LowersTo.behaviour {h h' : Harvest} (hh : h.LowersTo h') (config : Config) :
    h'.behaviour config = (h.behaviour config).lower := by
  have hdomains : clockDomains h'.processes = (clockDomains h.processes).map ClockDomain.lower := by
    simp [clockDomains, hh.processes, List.filterMap_map, List.map_filterMap,
      ProcessStatement.clockDomain?_lower]
  have hresets : resetInfos h'.processes = (resetInfos h.processes).map ResetInfo.lower := by
    simp [resetInfos, hh.processes, List.filterMap_map, List.map_filterMap,
      ProcessStatement.resetInfo?_lower]
  have hcrossings : (if config.detectCrossings then DesignFacts.crossings h' else []) =
      (if config.detectCrossings then DesignFacts.crossings h else []).map Crossing.lower := by
    rw [hh.crossings]
    split <;> rfl
  exact Behaviour.ext hh.processes hh.assignments hh.caseStatements hh.comparisons
    hh.arithmeticOps hh.signalDeps hdomains hresets hcrossings

/-- An analysis only adds the fault of elaborating to the behaviour. -/
theorem analyze_map_behaviour (config : Config) (file : Text) (h : Harvest) :
    (h.analyze config file).map FileFacts.behaviour =
      ((h.elaborated config).map fun _ => ()).map fun _ => h.behaviour config := by
  rw [Harvest.analyze]
  cases h.elaborated config <;> rfl

/-- An extraction over a tree in small letters. -/
theorem extract_lower (config : Config) (file : Text) (root : Node) :
    (extract config file root.lower).map FileFacts.behaviour =
      (extract config file root).map fun f => f.behaviour.lower := by
  have hh : (harvest config root).LowersTo (harvest config root.lower) := by
    rw [harvest, harvest, nameTable_lower]
    exact walk_lower config (nameTable config root) .file root
  have hdeclared : root.lower.subtree.any Node.declaresFar = root.subtree.any Node.declaresFar := by
    simp [Function.comp_def, Node.declaresFar_lower]
  have hmap (facts : Except Fault FileFacts) : (facts.map fun f => f.behaviour.lower) =
      (facts.map FileFacts.behaviour).map Behaviour.lower := by
    cases facts <;> rfl
  simp only [extract, hdeclared, hh.farLine, hh.hasWrongLiteral]
  split
  · rfl
  · split
    · rfl
    · rw [hmap, analyze_map_behaviour, analyze_map_behaviour, hh.elaborated, hh.behaviour]
      cases (harvest config root).elaborated config <;> rfl

/-- **Extraction ignores letter case.** If the source of an arena is written in small letters, then
loading fails in the same way, or extracting ends in the same fault, or the lists of behavioural
facts are those of the source, fact by fact in small letters. -/
theorem load_extract_lower (config : Config) (file : Text) (a : Arena) :
    a.lower.load.map (fun t => (extract config file t.root).map FileFacts.behaviour) =
      a.load.map fun t => (extract config file t.root).map fun f => f.behaviour.lower := by
  rw [a.load_lower]
  cases a.load with
  | error e => rfl
  | ok t => exact congrArg Except.ok (extract_lower config file t.root)

end DesignFacts

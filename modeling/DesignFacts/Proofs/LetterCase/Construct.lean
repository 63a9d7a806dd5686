import DesignFacts.Concurrent.Assignment
import DesignFacts.Generate.Header
import DesignFacts.Process.Basic
import DesignFacts.Proofs.LetterCase.Statement

/-!
# Letter case of concurrent constructs

Processes, concurrent assignments, maps of instances and headers of generate statements over a
source in small letters.

**Processes and assignments.** The facts of each become small; their kinds do not change, because
keywords are compared as words and in small letters.

**Maps.** Of an instance only the lines matter here. Which of them are looked at depends on the
shape of its associations, so it is enough to follow that shape.

**Generate statements.** The label, the scheme and the body become small, also where a range is only
found in the text.

Main results: `processOf_lower`, `mapIsFar_lower`, `GenerateHeader.ofNode_lower`.
-/

namespace DesignFacts

open Text

/-! ## Processes -/

theorem Node.sensitivity_lower (n : Node) : n.lower.sensitivity = n.sensitivity.map Text.lower := by
  have hlist : (n.lower.childUnder "sensitivity").or (n.lower.childOfKind .sensitivityList) =
      ((n.childUnder "sensitivity").or (n.childOfKind .sensitivityList)).map lower := by
    simp [Option.map_or]
  rw [sensitivity, sensitivity, hlist]
  cases (n.childUnder "sensitivity").or (n.childOfKind .sensitivityList) with
  | none => rfl
  | some list =>
    simp only [Option.map_some, operandChildren_lower, List.map_map, Function.comp_def, text_lower,
      compact_lower]
    cases list.operandChildren with
    | nil => simp [List.filter_map, Function.comp_def]
    | cons c cs => simp

theorem processSetting_lower (config : Config) (L : Lookup) (scope : Scope) (n : Node) :
    processSetting config L scope.lower n.lower = (processSetting config L scope n).lower := by
  simp [processSetting, ProcessSetting.lower, Node.localNames_lower]

theorem processActivity_lower (config : Config) (L : Lookup) (scope : Scope) (n : Node) :
    processActivity config L scope.lower n.lower = (processActivity config L scope n).lower := by
  rw [processActivity, processActivity, processSetting_lower, Node.containedStatements_lower,
    ← Activity.concat_lower, List.map_map, List.map_map]
  congr 2
  funext m
  exact activity_lower (processSetting config L scope n) {} m

theorem Activity.kind_lower (a : Activity) : a.lower.kind = a.kind := by simp [kind]

theorem processOf_lower (scope : Scope) (n : Node) (a : Activity) :
    processOf scope.lower n.lower a.lower = (processOf scope n a).lower := by
  have htargets : a.lower.drives.map (·.target) = (a.drives.map (·.target)).map lower := by
    simp [Drive.lower, Function.comp_def]
  simp only [processOf, htargets, distinct_lower, Activity.kind_lower]
  simp [ProcessStatement.lower, Node.sensitivity_lower, Node.localVariables_lower,
    Function.comp_def]

theorem processDeps_lower (p : ProcessStatement) (a : Activity) :
    processDeps p.lower a.lower = (processDeps p a).map SignalDep.lower := by
  simp [processDeps, Drive.lower, SignalDep.lower, List.flatMap_map, List.map_flatMap,
    Function.comp_def]

/-! ## Concurrent assignments -/

theorem ConcurrentKind.ofText_lower (t : Text) : ofText (Text.lower t) = ofText t := by
  rw [ofText, ofText, squash_lower, lower_lower]

namespace Node

variable (n : Node)

@[simp] theorem unlabelled_lower : n.lower.unlabelled = n.unlabelled.map lower := by
  simp [unlabelled, List.filter_map, Function.comp_def]

theorem targetIndex?_lower : n.lower.targetIndex? = n.targetIndex? := by
  have hfront : ((splitAt? (·.isToken "<=") n.lower.unlabelled).map Prod.fst).getD [] =
      (((splitAt? (·.isToken "<=") n.unlabelled).map Prod.fst).getD []).map lower := by
    rw [unlabelled_lower, splitAt?_isToken_lower]
    cases splitAt? (·.isToken "<=") n.unlabelled <;> rfl
  simp only [targetIndex?, hfront]
  simp [List.zipIdx_map, List.filter_map, Function.comp_def]

theorem target?_lower : n.lower.target? = n.target?.map lower := by
  simp only [target?, targetIndex?_lower, unlabelled_lower, List.getElem?_map, Option.map_bind,
    Function.comp_def]

theorem assignmentInputs_lower : n.lower.assignmentInputs = n.assignmentInputs.map lower := by
  have harguments : (n.lower.target?.map arguments).getD [] =
      ((n.target?.map arguments).getD []).map lower := by
    rw [target?_lower]
    cases n.target? <;> simp
  simp only [assignmentInputs, harguments, targetIndex?_lower, unlabelled_lower, List.zipIdx_map,
    List.filter_map, List.map_map, List.map_append, Function.comp_def, Prod.map_fst, Prod.map_snd,
    id_eq, named_lower, isComment_lower]

theorem unlabelledText_lower : n.lower.unlabelledText = Text.lower n.unlabelledText := by
  simp only [unlabelledText, unlabelled_lower, List.find?_map, List.getLast?_map, Function.comp_def,
    isToken_lower]
  cases n.unlabelled.find? (fun c => !c.isToken ":") <;> cases n.unlabelled.getLast? <;> simp

end Node

theorem targetName_lower (L : Lookup) (n : Node) :
    targetName L n.lower = Prod.map lower lower (targetName L n) := by
  rw [targetName, targetName, Node.target?_lower]
  cases n.target? with
  | none => rfl
  | some t =>
    simp only [Option.map_some, resolve_lower]
    cases resolve L t <;> simp

/-! ## Maps of instances -/

namespace Node

variable (n : Node)

theorem leafAssociation?_lower :
    n.lower.leafAssociation? = n.leafAssociation?.map (Prod.map Text.lower Text.lower) := by
  simp only [leafAssociation?, children_lower, List.isEmpty_map, text_lower,
    cut_lower _ (show "=>".toList.all (!·.isAlpha) = true by decide), Option.map_map]
  split
  · cases cut "=>".toList n.text with
    | none => rfl
    | some sides =>
      by_cases hempty : (squash sides.1).isEmpty <;> simp [Option.filter_some, hempty]
  · rfl

theorem tokenText?_lower (ns : List Node) :
    tokenText? (ns.map lower) = (tokenText? ns).map Text.lower := by
  have hkept (t : Text) : ([",", "(", ")"].any fun s => s.toList == Text.lower t) =
      [",", "(", ")"].any fun s => s.toList == t := by
    have hmark {mark : Text} (h : mark.all (!·.isAlpha) = true) :
        (mark == Text.lower t) = (mark == t) := by
      rw [Bool.eq_iff_iff, beq_iff_eq, beq_iff_eq, eq_comm, lower_eq_iff t h, eq_comm]
    simp only [List.any_cons, List.any_nil,
      hmark (show ",".toList.all (!·.isAlpha) = true by decide),
      hmark (show "(".toList.all (!·.isAlpha) = true by decide),
      hmark (show ")".toList.all (!·.isAlpha) = true by decide)]
  have htexts : (((ns.map lower).filter fun c => !c.isComment).map text).filter
      (fun t => !([",", "(", ")"].any (·.toList == t))) =
      (((ns.filter fun c => !c.isComment).map text).filter
        fun t => !([",", "(", ")"].any (·.toList == t))).map Text.lower := by
    simp only [List.filter_map, List.map_map, Function.comp_def, isComment_lower, text_lower, hkept]
  simp only [tokenText?, htexts, join_lower (show Text.lower " ".toList = " ".toList from rfl),
    squash_lower, isEmpty_lower]
  split <;> rfl

theorem associationSides?_lower : n.lower.associationSides? =
    n.associationSides?.map (Prod.map (List.map lower) (List.map lower)) := by
  simp [associationSides?]

theorem formalText?_lower : n.lower.formalText? = n.formalText?.map Text.lower := by
  have hbefore (front : List Node) :
      formalBefore? (front.map lower) = (formalBefore? front).map Text.lower := by
    simp [formalBefore?, tokenText?_lower, List.filter_map, Option.map_or, Function.comp_def]
  simp only [formalText?, childUnder_lower, leafAssociation?_lower, associationSides?_lower,
    Option.map_or, Option.map_map, Function.comp_def, text_lower, squash_lower, Prod.map_fst]
  congr 2
  cases n.associationSides? with
  | none => rfl
  | some sides => exact hbefore sides.1

@[simp] theorem actualNodes_lower : n.lower.actualNodes = n.actualNodes.map lower := by
  rw [actualNodes, actualNodes, childUnder_lower, associationSides?_lower]
  cases n.childUnder "actual" with
  | some a => rfl
  | none =>
    cases n.associationSides? <;> simp [List.filter_map, Function.comp_def]

@[simp] theorem actualText_lower : n.lower.actualText = Text.lower n.actualText := by
  rw [actualText, actualText, actualNodes_lower, spanText_lower, leafAssociation?_lower,
    formalText?_lower, associationSides?_lower, Option.isNone_map, text_lower, squash_lower]
  cases spanText n.actualNodes with
  | some t => rfl
  | none =>
    cases n.leafAssociation? with
    | some sides => rfl
    | none =>
      simp only [Option.map_none]
      split
      · rfl
      · cases n.associationSides? with
        | none => rfl
        | some sides => simp [tokenText?_lower]

@[simp] theorem mapKind?_lower : n.lower.mapKind? = n.mapKind? := by simp [mapKind?]

end Node

theorem associationIsFar_lower (n : Node) : associationIsFar n.lower = associationIsFar n := by
  simp only [associationIsFar, Node.isFar_lower, Node.actualText_lower, isWord_lower,
    Node.actualNodes_lower]
  congr 2
  cases n.actualNodes with
  | nil => rfl
  | cons c cs => cases cs <;> simp

@[simp] theorem mapIsFar_lower (n : Node) : mapIsFar n.lower = mapIsFar n := by
  simp [mapIsFar, Node.mapElements, associationIsFar_lower, Function.comp_def]

/-! ## Generate statements -/

namespace Node

variable (n : Node)

theorem aroundColon_lower :
    n.lower.aroundColon = Prod.map (List.map lower) (List.map lower) n.aroundColon := by
  rw [aroundColon, aroundColon, children_lower, splitAt?_isToken_lower]
  cases splitAt? (·.isToken ":") n.children <;> rfl

theorem labelBeforeColon?_lower :
    n.lower.labelBeforeColon? = n.labelBeforeColon?.map Text.lower := by
  simp [labelBeforeColon?, aroundColon_lower, Function.comp_def]

theorem schemeNode_lower : n.lower.schemeNode = n.schemeNode.lower := by
  simp only [schemeNode, kind_lower, namedChildren_lower, List.find?_map, Function.comp_def]
  split
  · rfl
  · cases n.namedChildren.find? (·.kind.isScheme) <;> rfl

theorem generateLabel_lower : n.lower.generateLabel = Text.lower n.generateLabel := by
  simp only [generateLabel, label?_lower, schemeNode_lower, labelBeforeColon?_lower, line_lower,
    lower_getD, Option.map_or, lower_append, Numeral.lower_decimal]
  rfl

theorem schemeKind_lower : n.lower.schemeKind = n.schemeKind := by
  have hkeyword (c : Node) : c.lower.keywordScheme? = c.keywordScheme? := by simp [keywordScheme?]
  simp [schemeKind, List.findSome?_map, Function.comp_def, hkeyword]

theorem schemeHead_lower : n.lower.schemeHead = n.schemeHead.map lower := by
  simp [schemeHead, List.takeWhile_map, Function.comp_def]

theorem schemeText_lower (field keyword : String) :
    n.lower.schemeText field keyword = Text.lower (n.schemeText field keyword) := by
  rw [schemeText, schemeText, childUnder_lower, schemeHead_lower, splitAt?_isToken_lower]
  cases n.childUnder field with
  | some c => simp
  | none =>
    cases splitAt? (·.isToken keyword) n.schemeHead with
    | none => rfl
    | some sides => simp [List.filter_map, Function.comp_def]

theorem schemeParameter_lower : n.lower.schemeParameter = Text.lower n.schemeParameter := by
  simp [schemeParameter, Function.comp_def]

/-- The words around a range are searched in small letters, and the range is taken out of the text
by its length. -/
theorem rangeInText?_lower (t : Text) :
    rangeInText? (Text.lower t) = (rangeInText? t).map Text.lower := by
  simp only [rangeInText?, squash_lower, lower_lower]
  cases cut " in ".toList (Text.lower (squash t)) with
  | none => rfl
  | some sides =>
    simp only [Option.bind_eq_bind, Option.bind_some]
    cases cut " generate".toList sides.2 <;> simp

theorem schemeRange?_lower : n.lower.schemeRange? = n.schemeRange?.map Text.lower := by
  simp [schemeRange?, schemeHead_lower, rangeInText?_lower, Option.map_or, Function.comp_def]

theorem schemeBounds_lower :
    n.lower.schemeBounds = Prod.map Text.lower (Prod.map Text.lower Text.lower) n.schemeBounds := by
  rw [schemeBounds, schemeBounds, schemeRange?_lower]
  cases n.schemeRange? with
  | none => rfl
  | some t =>
    simp only [Option.map_some, range?_lower]
    cases range? t <;> rfl

theorem alternativeSides?_lower : n.lower.alternativeSides? =
    n.alternativeSides?.map (Prod.map (List.map lower) (List.map lower)) := by
  simp [alternativeSides?]

theorem alternativeText?_lower : n.lower.alternativeText? = n.alternativeText?.map Text.lower := by
  rw [alternativeText?, alternativeText?, alternativeSides?_lower]
  cases n.alternativeSides? <;> simp [List.filter_map, Function.comp_def]

theorem alternativeBody_lower : n.lower.alternativeBody = n.alternativeBody.map lower := by
  rw [alternativeBody, alternativeBody, alternativeSides?_lower]
  cases n.alternativeSides? <;> simp [List.filter_map, Function.comp_def]

theorem generateBody_lower : n.lower.generateBody = n.generateBody.map lower := by
  simp only [generateBody, children_lower, splitAt?_isToken_lower]
  cases splitAt? (·.isToken "generate") n.children <;>
    simp [List.takeWhile_map, List.filter_map, Function.comp_def]

end Node

/-- A scheme in small letters. -/
def Scheme.lower : Scheme → Scheme
  | loop parameter low high direction =>
    .loop (Text.lower parameter) (Text.lower low) (Text.lower high) (Text.lower direction)
  | condition test => .condition (Text.lower test)
  | choice expression alternatives =>
    .choice (Text.lower expression) (alternatives.map Text.lower)

namespace GenerateHeader

/-- The header of a generate statement in small letters. -/
def lower (h : GenerateHeader) : GenerateHeader where
  label := Text.lower h.label
  scheme := h.scheme.lower
  body := h.body.map Node.lower

theorem schemeOf_lower (n : Node) : schemeOf n.lower = (schemeOf n).lower := by
  simp only [schemeOf, n.schemeKind_lower, n.schemeBounds_lower, n.schemeParameter_lower,
    n.schemeText_lower]
  split
  · rfl
  · simp [Scheme.lower, List.filterMap_map, List.map_filterMap, Node.alternativeText?_lower]
  · rfl

theorem bodyOf_lower (n : Node) : bodyOf n.lower = (bodyOf n).map Node.lower := by
  simp only [bodyOf, n.schemeKind_lower, n.generateBody_lower, Node.namedChildren_lower,
    List.flatMap_map, Node.alternativeBody_lower]
  split
  · rw [List.map_flatMap]
  · rfl

/-- A generate statement has the same label, scheme and body in small letters. -/
theorem ofNode_lower (n : Node) : ofNode n.lower = (ofNode n).lower := by
  simp only [ofNode, n.generateLabel_lower, n.schemeNode_lower, schemeOf_lower, bodyOf_lower]
  rfl

theorem parameter?_lower (h : GenerateHeader) :
    h.lower.parameter? = h.parameter?.map Text.lower := by
  obtain ⟨label, scheme, body⟩ := h
  cases scheme with
  | loop parameter low high direction =>
    simp only [lower, Scheme.lower, parameter?, isEmpty_lower]
    split <;> rfl
  | condition => rfl
  | choice => rfl

end GenerateHeader

end DesignFacts

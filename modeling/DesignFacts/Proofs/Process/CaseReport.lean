import DesignFacts.Document.Behaviour
import DesignFacts.Proofs.Document.Value
import DesignFacts.Proofs.Extraction.Record
import DesignFacts.Proofs.Process.Visit
import DesignFacts.Proofs.Tree.Row

/-!
# Reports of case statements

The walk over a process reports each case statement that it comes to with its expression and its
choices. A case statement is reported before those in it, which are walked while its own choices are
still being read. This file shows that nothing gets mixed up.

**Choices** (`Node.choiceNodes`). The choices of an alternative are told by their places before the
arrow or by marks. If a case statement has its alternatives as its own parts, then its choices are
those of these alternatives and no others (`alternatives_eq_ownAlternatives`).

**Expressions** (`Node.selector?`). The expression is found by its field or after the keyword. In
the second case a comment or a label that stands before it is taken for the expression instead
(`Node.stray?`).

**Order.** The walk comes to case statements in document order and reports one after another
(`caseStatements_processActivity`).

Main result: `forall₂_reportedAs_processHarvest`.
-/

namespace DesignFacts

open Text

namespace Node

/-! ## Alternatives -/

/-- The alternatives among the parts of a case statement. -/
def ownAlternatives (n : Node) : List Node := n.namedChildren.filter (·.kind == .caseAlternative)

/-- The alternatives of a case statement are its own parts: there are none inside other parts. -/
def HasDirectAlternatives (n : Node) : Prop :=
  ∀ c ∈ n.namedChildren, c.kind ≠ .caseAlternative → ∀ m ∈ c.subtree, m.kind ≠ .caseAlternative

instance (n : Node) : Decidable n.HasDirectAlternatives := inferInstanceAs (Decidable (∀ _ ∈ _, _))

mutual

theorem kind_of_mem_collect (kind : Kind) : ∀ n : Node, ∀ m ∈ collect kind n, m.kind = kind
  | ⟨_, _, _, _, _, _, _, children⟩ => kind_of_mem_collectAll kind children

theorem kind_of_mem_collectAll (kind : Kind) :
    ∀ ns : List Node, ∀ m ∈ collectAll kind ns, m.kind = kind
  | [], m, hm => by simp [collectAll] at hm
  | n :: ns, m, hm => by
    rw [collectAll, List.mem_append] at hm
    rcases hm with hm | hm
    · split at hm
      · cases hm
      · split at hm
        · rename_i hkind
          rw [List.mem_singleton.1 hm]
          exact beq_iff_eq.1 hkind
        · exact kind_of_mem_collect kind n m hm
    · exact kind_of_mem_collectAll kind ns m hm

end

/-- Nothing is collected where there is nothing of the kind. -/
theorem collect_eq_nil {kind : Kind} {n : Node} (h : ∀ m ∈ n.subtree, m.kind ≠ kind) :
    collect kind n = [] := by
  refine List.eq_nil_iff_forall_not_mem.2 fun m hm => ?_
  have hsublist := (subtrees_collect_sublist kind n).trans n.subtrees_children_sublist
  have hmem : m ∈ n.subtree := hsublist.subset ((sublist_subtrees _).subset hm)
  exact h m hmem (kind_of_mem_collect kind n m hm)

theorem collectAll_eq_filter {kind : Kind} {ns : List Node}
    (h : ∀ c ∈ ns.filter (·.named), c.kind ≠ kind → ∀ m ∈ c.subtree, m.kind ≠ kind) :
    collectAll kind ns = (ns.filter (·.named)).filter (·.kind == kind) := by
  induction ns with
  | nil => rfl
  | cons c ns ih =>
    rw [collectAll]
    cases hnamed : c.named with
    | false =>
      rw [List.filter_cons_of_neg (by simp [hnamed])] at h ⊢
      exact ih h
    | true =>
      rw [List.filter_cons_of_pos hnamed] at h ⊢
      rw [ih fun d hd => h d (List.mem_cons_of_mem c hd), List.filter_cons]
      by_cases hkind : c.kind = kind
      · simp [hkind]
      · rw [collect_eq_nil (h c List.mem_cons_self hkind)]
        simp [hkind]

theorem alternatives_eq_ownAlternatives {n : Node} (h : n.HasDirectAlternatives) :
    n.alternatives = n.ownAlternatives := by
  rw [alternatives, collect_eq]
  exact collectAll_eq_filter h

/-! ## Choices -/

/-- The choices of an alternative: its constructs that stand before the first arrow, lie under
`choice`, or are of a kind of choices. -/
def choiceNodes (alternative : Node) : List Node :=
  (alternative.children.zipIdx.filter fun e =>
    (e.1.named && !e.1.isComment) && (e.1.isMarkedChoice ||
      (alternative.children.findIdx? (·.isToken "=>")).any (e.2 < ·))).map Prod.fst

/-- Without an arrow only the marked constructs are choices. -/
theorem choiceNodes_of_forall {n : Node} (h : ∀ c ∈ n.children, c.isToken "=>" = false) :
    n.choiceNodes = n.children.filter fun c => c.isMarkedChoice && (c.named && !c.isComment) := by
  unfold choiceNodes
  rw [List.findIdx?_eq_none_iff.2 h]
  refine map_filter_zipIdx_eq fun e _ => ?_
  rw [Option.any_none, Bool.or_false, Bool.and_comm]

/-- With an arrow all constructs before it are choices, and after it the marked ones. -/
theorem choiceNodes_append_cons {n arrow : Node} {front back : List Node}
    (hchildren : n.children = front ++ arrow :: back)
    (hfront : ∀ c ∈ front, c.isToken "=>" = false) (harrow : arrow.isToken "=>" = true) :
    n.choiceNodes = front.filter (fun c => c.named && !c.isComment) ++
      back.filter fun c => c.isMarkedChoice && (c.named && !c.isComment) := by
  have hunnamed : arrow.named = false := named_of_isToken harrow
  unfold choiceNodes
  rw [hchildren, findIdx?_append_cons hfront harrow, List.zipIdx_append, List.zipIdx_cons,
    List.filter_append, List.filter_cons_of_neg (by simp [hunnamed]), List.map_append]
  congr 1
  · refine map_filter_zipIdx_eq fun e he => ?_
    have hlt : e.2 < front.length := by simpa using (List.mem_zipIdx he).2.1
    rw [Option.any_some, decide_eq_true hlt, Bool.or_true, Bool.and_true]
  · refine map_filter_zipIdx_eq fun e he => ?_
    have hle : ¬ e.2 < front.length := by
      have := (List.mem_zipIdx he).1
      omega
    rw [Option.any_some, decide_eq_false hle, Bool.or_false, Bool.and_comm]

theorem choices_eq_choiceNodes (n : Node) : n.choices = n.choiceNodes := by
  unfold choices aroundArrow
  cases hfind : n.children.find? (·.isToken "=>") with
  | none =>
    have hnone : ∀ c ∈ n.children, c.isToken "=>" = false := by simpa using hfind
    rw [splitAt?_eq_none hnone, choiceNodes_of_forall hnone]
    simp [Bool.and_comm]
  | some arrow =>
    obtain ⟨harrow, front, back, hchildren, hfront⟩ := List.find?_eq_some_iff_append.1 hfind
    have hfront : ∀ c ∈ front, c.isToken "=>" = false := by simpa using hfront
    rw [hchildren, splitAt?_append_cons hfront harrow,
      choiceNodes_append_cons hchildren hfront harrow]
    simp [Bool.and_comm]

/-! ## Expressions -/

/-- The constructs after the keyword of a case statement that are no alternatives. -/
def afterCase (n : Node) : List Node :=
  (((splitAt? (·.isToken "case") n.children).map Prod.snd).getD n.children).filter fun c =>
    c.named && c.kind != .caseAlternative

/-- Whether a construct stands beside the expression of a statement. -/
def isAside (n : Node) : Bool := n.isComment || n.isUnder "label"

/-- The expression of a case statement: the one under its field, else the first construct after the
keyword that is no alternative, no comment and no label. -/
def selector? (n : Node) : Option Node :=
  (n.childUnder "expression").or (n.afterCase.find? fun c => !c.isAside)

/-- The comment or label that stands after the keyword where the expression is expected, if the
expression is under no field. -/
def stray? (n : Node) : Option Node :=
  if (n.childUnder "expression").isSome then none else n.afterCase.head?.filter isAside

/-- What stands where the expression is expected is taken for it. -/
theorem caseExpression?_eq (n : Node) : n.caseExpression? = n.stray?.or n.selector? := by
  have hfirst : n.caseExpression? = (n.childUnder "expression").or n.afterCase.head? := by
    rw [afterCase, List.head?_filter]
    rfl
  rw [hfirst, stray?, selector?]
  cases n.childUnder "expression" with
  | some e => rfl
  | none =>
    cases n.afterCase with
    | nil => rfl
    | cons c cs => cases hc : c.isAside <;> simp [Option.filter_some, hc]

/-! ## Reports -/

/-- What is reported of a case statement in a process. -/
structure ReportedAs (inProcess inArch : Text) (n : Node) (c : CaseStatement) : Prop where
  expression : c.expression = ((n.stray?.or n.selector?).map fun e => squash e.text).getD []
  /-- The choices are the parts of the choices of its own alternatives, in order. -/
  choices : c.choices = ((n.ownAlternatives.flatMap choiceNodes).flatMap fun e =>
    (splitTopLevel '|' e.text).map squash).filter fun t => !t.isEmpty
  has_others_iff : c.document.value? "has_others".toList = some (.flag true) ↔
    (∃ t ∈ c.choices, lower t = "others".toList) ∨
      ∃ e ∈ n.ownAlternatives.flatMap choiceNodes, ∃ m ∈ e.subtree, m.kind = .others
  is_complete :
    c.document.value? "is_complete".toList = c.document.value? "has_others".toList
  inProcess : c.inProcess = inProcess
  inArch : c.inArch = inArch
  line : c.line = n.line

theorem isWord_others_iff {t : Text} : isWord t "others" = true ↔ lower t = "others".toList := by
  have hlower : lower "others".toList = "others".toList := by decide
  rw [isWord, same_iff, hlower]

/-- All other values are covered if a choice says so, or if a node in it does. -/
theorem any_coversOthers_iff (ns : List Node) : ns.any coversOthers = true ↔
    (∃ t ∈ (ns.flatMap choiceTexts).filter (fun t => !t.isEmpty), lower t = "others".toList) ∨
      ∃ e ∈ ns, ∃ m ∈ e.subtree, m.kind = .others := by
  simp only [List.any_eq_true, coversOthers, Bool.or_eq_true, isWord_others_iff, beq_iff_eq,
    List.mem_filter, List.mem_flatMap]
  constructor
  · rintro ⟨e, he, ⟨t, ht, hword⟩ | hnode⟩
    · have hsome : t ≠ [] := by
        rintro rfl
        cases hword
      exact .inl ⟨t, ⟨⟨e, he, ht⟩, by simpa using hsome⟩, hword⟩
    · exact .inr ⟨e, he, hnode⟩
  · rintro (⟨t, ⟨⟨e, he, ht⟩, -⟩, hword⟩ | ⟨e, he, hnode⟩)
    · exact ⟨e, he, .inl ⟨t, ht, hword⟩⟩
    · exact ⟨e, he, .inr hnode⟩

end Node

theorem CaseStatement.value?_has_others (c : CaseStatement) :
    c.document.value? "has_others".toList = some (.flag c.hasOthers) := by
  unfold document
  rw [Document.value?_object]
  simp [Assoc.get?]

theorem CaseStatement.value?_is_complete (c : CaseStatement) :
    c.document.value? "is_complete".toList = some (.flag c.hasOthers) := by
  unfold document
  rw [Document.value?_object]
  simp [Assoc.get?]

/-- A case statement with its own alternatives is reported as such. -/
theorem reportedAs_caseStatement (s : ProcessSetting) {n : Node} (h : n.HasDirectAlternatives) :
    n.ReportedAs s.inProcess s.inArch (caseStatement s n) := by
  have hnodes : n.alternatives.flatMap Node.choices =
      n.ownAlternatives.flatMap Node.choiceNodes := by
    rw [Node.alternatives_eq_ownAlternatives h]
    exact List.flatMap_congr fun a _ => a.choices_eq_choiceNodes
  have hchoices : (caseStatement s n).choices =
      ((n.ownAlternatives.flatMap Node.choiceNodes).flatMap Node.choiceTexts).filter
        fun t => !t.isEmpty := by
    rw [← hnodes]
    rfl
  refine ⟨?_, hchoices, ?_, ?_, rfl, rfl, rfl⟩
  · rw [← n.caseExpression?_eq]
    rfl
  · rw [CaseStatement.value?_has_others, hchoices, ← Node.any_coversOthers_iff, ← hnodes]
    simp [caseStatement]
  · rw [CaseStatement.value?_is_complete, CaseStatement.value?_has_others]

/-! ## The walk -/

namespace Node

/-- The case statements that the walk over a process comes to. -/
def visitedCases (n : Node) : List Node :=
  n.processStatements.filter (·.kind == .caseStatement)

/-- The case statement that a statement is itself. -/
def ownCases (s : ProcessSetting) (n : Node) : List CaseStatement :=
  if n.kind == .caseStatement then [caseStatement s n] else []

end Node

/-- Only case statements are walked by their alternatives. -/
theorem StatementForm.eq_caseStatement {k : Kind} (h : ofKind k = .choice) :
    k = .caseStatement := by
  revert h
  cases k <;> first | exact fun _ => rfl | (intro h; cases h)

theorem caseStatements_procedureCallActivity (s : ProcessSetting) (n : Node) :
    (procedureCallActivity s n).caseStatements = [] := by
  unfold procedureCallActivity
  split <;> rfl

/-- A statement reports itself, if it is a case statement. -/
theorem caseStatements_ownActivity (s : ProcessSetting) (ctx : BranchContext) (n : Node) :
    (ownActivity s ctx n).caseStatements = n.ownCases s := by
  have hother (hform : StatementForm.ofKind n.kind ≠ .choice) : n.ownCases s = [] := by
    have hkind : (n.kind == .caseStatement) = false := StatementForm.kind_beq_eq_false hform
    rw [Node.ownCases, hkind]
    rfl
  unfold ownActivity steps
  cases hform : StatementForm.ofKind n.kind with
  | choice =>
    rw [Node.ownCases, StatementForm.eq_caseStatement hform]
    rfl
  | call =>
    rw [hother (by simp [hform])]
    exact caseStatements_procedureCallActivity s n
  | assignment _ | branch | wait | silent | expression | container =>
    rw [hother (by simp [hform])]
    rfl

/-- The walk reports the case statements that it comes to, one after another. -/
theorem caseStatements_processActivity (config : Config) (L : Lookup) (scope : Scope) (n : Node) :
    (processActivity config L scope n).caseStatements =
      n.visitedCases.map (caseStatement (processSetting config L scope n)) := by
  have hrow : Activity.IsRow (processSetting config L scope n) (·.caseStatements) :=
    ⟨rfl, fun _ _ => rfl, fun _ _ => rfl⟩
  rw [hrow.processActivity_eq_flatMap config L scope n (caseStatements_ownActivity _),
    Node.visitedCases]
  induction n.processStatements with
  | nil => rfl
  | cons m ms ih =>
    rw [List.flatMap_cons, ih, Node.ownCases, List.filter_cons]
    split <;> rfl

/-- **Case statements are reported in document order, each with its own choices.** If every case
statement of a process has its alternatives as its own parts, then the reports correspond one to one
to the case statements that the walk comes to, and these come in document order. Each report has the
line of its own node, the parts of the choices of its own alternatives in order, and the marks for
completeness that follow from these. It has the expression of its own node too, unless a comment or
a label stands where that is expected. -/
theorem forall₂_reportedAs_processHarvest (config : Config) (L : Lookup) (scope : Scope) {n : Node}
    (h : ∀ m ∈ n.subtree, m.kind = .caseStatement → m.HasDirectAlternatives) :
    n.visitedCases.Sublist n.subtree ∧
      List.Forall₂ (Node.ReportedAs (n.label?.getD []) scope.path) n.visitedCases
        (processHarvest config L scope n).caseStatements := by
  have hsublist : n.visitedCases.Sublist n.subtree :=
    List.filter_sublist.trans n.processStatements_sublist
  refine ⟨hsublist, ?_⟩
  show List.Forall₂ _ _ (processActivity config L scope n).caseStatements
  rw [caseStatements_processActivity, List.forall₂_map_right_iff, List.forall₂_same]
  intro m hm
  have hkind : m.kind = .caseStatement := beq_iff_eq.1 (List.mem_filter.1 hm).2
  exact reportedAs_caseStatement (processSetting config L scope n) (h m (hsublist.subset hm) hkind)

/-! ## Cases in cases -/

/-- A case statement with some nodes after its keyword. -/
def caseOf (expression alternatives : List Node) : Node :=
  .branch "case_statement"
    ([.word "case"] ++ expression ++ [.word "is"] ++ alternatives ++ [.word "end", .word "case"])

def alternativeOf (choice : Node) (statements : List Node) : Node :=
  .branch "case_alternative" ([.word "when", choice, .word "=>"] ++ statements)

/-- An assignment to `y`. -/
def assignmentOf (value : String) : Node :=
  .branch "sequential_signal_assignment"
    [.under "target" (.leaf "identifier" "y"), .word "<=", .leaf "identifier" value]

/-- A process with a case statement in an alternative, and another one in a loop in a branch. -/
def nestedCases : Node :=
  .branch "process_statement"
    [.word "begin",
      caseOf [.leaf "identifier" "outer"]
        [alternativeOf (.leaf "case_choice" "a | b")
          [caseOf [.leaf "identifier" "inner"]
            [alternativeOf (.leaf "others" "others") [assignmentOf "c"]]],
        alternativeOf (.leaf "case_choice" "c")
          [.branch "if_statement"
            [.word "if", .leaf "identifier" "en", .word "then",
              .branch "loop_statement"
                [caseOf [.leaf "identifier" "last"]
                  [alternativeOf (.leaf "case_choice" "f(1 | 2) | Others") [assignmentOf "b"]]],
              .word "end"]]],
      .word "end"]

theorem forall₂_reportedAs_nestedCases :
    (∀ m ∈ nestedCases.subtree, m.kind = .caseStatement → m.HasDirectAlternatives) ∧
      (processHarvest {} declaredLookup .file nestedCases).caseStatements.map
          (fun c => (c.expression, c.choices, c.hasOthers)) =
        [("outer".toList, ["a".toList, "b".toList, "c".toList], false),
          ("inner".toList, ["others".toList], true),
          ("last".toList, ["f(1 | 2)".toList, "Others".toList], true)] ∧
      List.Forall₂ (Node.ReportedAs [] Scope.file.path) nestedCases.visitedCases
        (processHarvest {} declaredLookup .file nestedCases).caseStatements := by
  have hdirect : ∀ m ∈ nestedCases.subtree, m.kind = .caseStatement → m.HasDirectAlternatives := by
    decide +kernel
  refine ⟨hdirect, by decide +kernel, ?_⟩
  exact (forall₂_reportedAs_processHarvest {} declaredLookup .file hdirect).2

/-- A process with a comment between `case` and the expression `sel`. -/
def commentedCase : Node :=
  .branch "process_statement"
    [.word "begin",
      caseOf [.leaf "comment" "-- state", .leaf "identifier" "sel"]
        [alternativeOf (.leaf "case_choice" "a") [assignmentOf "b"],
          alternativeOf (.leaf "others" "others") [assignmentOf "c"]],
      .word "end"]

/-- The comment is reported as the expression. -/
theorem commentedCase_hides_selector :
    (∀ m ∈ commentedCase.subtree, m.kind = .caseStatement → m.HasDirectAlternatives) ∧
      commentedCase.visitedCases.map (fun n => n.selector?.map Node.text) = [some "sel".toList] ∧
      (processHarvest {} declaredLookup .file commentedCase).caseStatements.map (·.expression) =
        ["-- state".toList] := by
  decide +kernel

end DesignFacts

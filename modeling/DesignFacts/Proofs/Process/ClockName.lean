import DesignFacts.Proofs.Name.Path
import DesignFacts.Proofs.Process.Classification
import DesignFacts.Proofs.Process.Visit

/-!
# Clocks with dotted names

A condition such as `rising_edge(bus.clk)` fixes the clock of a process. The clock is taken from the
text of the argument, and not from the path that the argument resolves to.

**Dotted names.** The text of a selection has its head, a dot and its suffix in it, with any blanks
between them (`Node.DottedName`). Without these blanks it is the path of the name
(`DottedName.compact_text`).

**Calls.** A call of an edge function tests the clock that its argument spells, if that is made of
identifiers and dots only (`edgeOfName?_of_call`). So a blank beside a dot hides the clock.

**First statements.** The clock of a process is that of the first statement that tests one, so an
edge in the first condition of the first statement counts, whatever follows
(`clock_of_firstStatement`).

Main result: `processHarvest_firstEdge`.
-/

namespace DesignFacts

open Text

namespace Node

/-! ## Dotted names -/

/-- Whether the text of a node is an identifier of ASCII letters, digits and underscores. -/
def isIdentText (n : Node) : Bool := !n.text.isEmpty && n.text.all isIdent

/-- An identifier, or a selection from a dotted name. The text of a selection is that of its head, a
dot and that of its suffix, with any blanks around the dot. -/
inductive DottedName : Node → Prop
  | identifier {n : Node} (hkind : n.kind = .identifier) (hspelled : n.isIdentText = true) :
      DottedName n
  | selection {n h s : Node} {a b : Text} (hkind : n.kind = .selectedName)
      (hh : n.childUnder "prefix" = some h) (hs : n.childUnder "suffix" = some s)
      (hsuffix : s.kind = .identifier) (hspelled : s.isIdentText = true) (ha : IsBlanks a)
      (hb : IsBlanks b) (htext : n.text = h.text ++ a ++ '.' :: b ++ s.text)
      (hhead : DottedName h) : DottedName n

theorem DottedName.markedName {n : Node} (hn : n.DottedName) : n.MarkedName := by
  induction hn with
  | identifier hkind _ => exact .identifier hkind
  | selection hkind hh hs hsuffix _ _ _ _ _ ih => exact .selection hkind hh hs hsuffix ih

theorem isIdent_of_isIdentText {n : Node} (hn : n.isIdentText = true) :
    ∀ c ∈ n.text, isIdent c = true :=
  List.all_eq_true.1 (Bool.and_eq_true_iff.1 hn).2

theorem text_ne_nil_of_isIdentText {n : Node} (hn : n.isIdentText = true) : n.text ≠ [] := by
  intro hnil
  rw [isIdentText, hnil] at hn
  cases hn

theorem compact_of_isIdentText {n : Node} (hn : n.isIdentText = true) :
    compact n.text = n.text :=
  compact_eq_self fun c hc => isBlank_of_isIdent (isIdent_of_isIdentText hn c hc)

namespace DottedName

variable {n : Node} (hn : n.DottedName)

include hn

theorem text_ne_nil : n.text ≠ [] := by
  cases hn with
  | identifier _ hspelled => exact text_ne_nil_of_isIdentText hspelled
  | selection _ _ _ _ _ _ _ htext =>
    rw [htext]
    simp

/-- The text of a dotted name is made of identifiers, dots and blanks. -/
theorem mem_text {c : Char} (hc : c ∈ n.text) : isIdent c = true ∨ c = '.' ∨ isBlank c = true := by
  induction hn with
  | identifier _ hspelled => exact .inl (isIdent_of_isIdentText hspelled c hc)
  | selection _ _ _ _ hspelled ha hb htext _ ih =>
    rw [htext] at hc
    simp only [List.mem_append, List.mem_cons] at hc
    rcases hc with ((hc | hc) | (rfl | hc)) | hc
    · exact ih hc
    · exact .inr (.inr (ha c hc))
    · exact .inr (.inl rfl)
    · exact .inr (.inr (hb c hc))
    · exact .inl (isIdent_of_isIdentText hspelled c hc)

theorem isIdent_head {c : Char} (hc : c ∈ n.text.head?) : isIdent c = true := by
  induction hn with
  | identifier _ hspelled => exact isIdent_of_isIdentText hspelled c (List.mem_of_head? hc)
  | selection _ _ _ _ _ _ _ htext hhead ih =>
    apply ih
    rw [htext, List.append_assoc, List.append_assoc, List.head?_append] at hc
    obtain ⟨d, rest, hd⟩ := List.exists_cons_of_ne_nil hhead.text_ne_nil
    rw [hd] at hc ⊢
    exact hc

theorem isIdent_getLast {c : Char} (hc : c ∈ n.text.getLast?) : isIdent c = true := by
  cases hn with
  | identifier _ hspelled => exact isIdent_of_isIdentText hspelled c (List.mem_of_getLast? hc)
  | selection _ _ _ _ hspelled _ _ htext =>
    rw [htext, List.getLast?_append_of_ne_nil _ (text_ne_nil_of_isIdentText hspelled)] at hc
    exact isIdent_of_isIdentText hspelled c (List.mem_of_getLast? hc)

theorem trimmed_eq : n.trimmed = n.text :=
  trim_eq_self_of_ends (fun _ hc => isBlank_of_isIdent (hn.isIdent_head hc))
    fun _ hc => isBlank_of_isIdent (hn.isIdent_getLast hc)

/-- Without its blanks, the text of a dotted name is its path. -/
theorem compact_text : compact n.text = join "." (n.identifiers.map text) := by
  induction hn with
  | @identifier n hkind hspelled =>
    rw [compact_of_isIdentText hspelled, identifiers, spine_of_identifier hkind]
    simp [identifier?, hkind, join]
  | @selection n h s a b hkind hh hs hsuffix hspelled ha hb htext hhead ih =>
    have happlied := isApplied_of_selectedName hkind
    have hown : n.identifier?.toList = [s] := by simp [identifier?, hkind, hs]
    have hidentifiers : h.identifiers ≠ [] := by
      obtain ⟨r, -, hfollows⟩ := hhead.markedName.exists_resolveSpine
      obtain ⟨i, hi, hroot, -⟩ := hfollows.base_eq
      exact List.ne_nil_of_mem (mem_identifiers_of_getLast? hi hroot)
    have hcompact : compact n.text = compact h.text ++ '.' :: s.text := by
      have hdot : compact ('.' :: b) = ['.'] := congrArg ('.' :: ·) (compact_blanks hb)
      rw [htext, compact_append, compact_append, compact_append, compact_blanks ha, hdot,
        compact_of_isIdentText hspelled]
      simp
    rw [identifiers_of_head happlied hh, hown, List.map_append, List.map_singleton,
      join_concat "." (by simpa using hidentifiers), ← ih, hcompact]
    rfl

/-- A dotted name is plain just if there are no blanks in it. -/
theorem isPlainName_trimmed :
    isPlainName n.trimmed = true ↔ ∀ c ∈ n.text, isBlank c = false := by
  rw [hn.trimmed_eq, isPlainName, Bool.and_eq_true, List.all_eq_true]
  constructor
  · intro h c hc
    rcases Bool.or_eq_true _ _ ▸ h.2 c hc with hident | hdot
    · exact isBlank_of_isIdent hident
    · rw [beq_iff_eq.1 hdot]
      decide
  · intro h
    refine ⟨by simpa using hn.text_ne_nil, ?_⟩
    intro c hc
    rcases hn.mem_text hc with hident | rfl | hblank
    · rw [hident, Bool.true_or]
    · rw [beq_self_eq_true, Bool.or_true]
    · rw [h c hc] at hblank
      cases hblank

/-- A dotted name without blanks is spelled as its path. -/
theorem text_eq_path (htight : ∀ c ∈ n.text, isBlank c = false) :
    n.text = join "." (n.identifiers.map text) := by
  rw [← hn.compact_text, compact_eq_self htight]

end DottedName

end Node

/-! ## Names without arguments -/

/-- A view that brings in no arguments. -/
def NameView.IsBare : NameView → Prop
  | root r => r.isIndexed = false
  | applied a _ => ∀ r, (a.apply r).isIndexed = r.isIndexed
  | noName => True

theorem Node.isBare_nameView {n : Node} (hkind : n.kind.isIndexed = false) : n.nameView.IsBare := by
  unfold nameView
  split
  case h_1 => rfl
  case h_2 =>
    unfold selectionView
    split
    · rfl
    · split
      · exact fun _ => rfl
      · trivial
  case h_6 =>
    unfold attributeView nameBeforeTick
    split
    · exact fun _ => rfl
    · dsimp only
      split
      · trivial
      · rfl
  case h_7 => trivial
  all_goals
    rename_i hn
    rw [hn] at hkind
    cases hkind

/-- Where no node has arguments, no name resolves to an indexed one. -/
theorem isIndexed_resolveSpine {n : Node} {r : ResolvedName} (h : resolveSpine n = some r)
    (hbare : ∀ m ∈ n.subtree, m.kind.isIndexed = false) : r.isIndexed = false := by
  have hview := Node.isBare_nameView (hbare n n.mem_subtree_self)
  rw [resolveSpine_eq] at h
  cases hn : n.nameView with
  | root root =>
    rw [hn] at h hview
    cases h
    exact hview
  | applied a head =>
    have hhead := Node.mem_children_of_nameView hn
    have hlt := Node.sizeOf_lt_of_mem_children hhead
    rw [hn] at h hview
    obtain ⟨inner, hinner, rfl⟩ := Option.map_eq_some_iff.1 h
    rw [hview inner]
    apply isIndexed_resolveSpine hinner
    intro m hm
    exact hbare m (Node.mem_subtree_of_mem_children hhead hm)
  | noName =>
    rw [hn] at h
    cases h
termination_by sizeOf n

/-- No name without arguments tests a clock. -/
theorem edgeOfName?_of_bare (config : Config) (L : Lookup) {n : Node}
    (hbare : ∀ m ∈ n.subtree, m.kind.isIndexed = false) : edgeOfName? config L n = none := by
  rw [edgeOfName?]
  split
  · rw [resolve]
    cases hr : resolveSpine n with
    | none => rfl
    | some r =>
      show ResolvedName.edge? config _ = none
      rw [ResolvedName.edge?, isIndexed_resolveSpine hr hbare]
      rfl
  · rfl

/-! ## Calls -/

section Calls

variable {config : Config} {L : Lookup} {call f arg : Node} (hkind : call.kind.isIndexed = true)
  (hcallee : call.childUnder "prefix" = some f) (hfunction : f.kind = .identifier)
  (hdot : '.' ∉ f.trimmed) (harg : call.arguments = [arg])

include hkind hcallee hfunction hdot harg

/-- A call of an edge function tests the clock that its argument spells. -/
theorem edgeOfName?_of_call :
    edgeOfName? config L call = (config.edgeKind (lower f.trimmed)).bind fun edge =>
      if isPlainName arg.trimmed then some (edge, arg.trimmed) else none := by
  have hname : f.kind.isName = true := by rw [hfunction]; rfl
  have hresolve := resolve_of_resolveSpine (L := L)
    (resolveSpine_of_applied (Node.nameView_of_arguments hcallee hname hkind)
      (resolveSpine_of_identifier hfunction))
  have htrim : trim arg.trimmed = arg.trimmed := trim_trim arg.text
  rw [edgeOfName?, if_pos (Node.isName_of_isIndexed hkind), hresolve, Option.bind_some,
    ResolvedName.edge?]
  simp [Application.apply, hdot, harg, htrim]

/-- So it tests the clock that a dotted name names, if there are no blanks in the name. -/
theorem edgeCall?_of_tight {edge : ClockEdge}
    (hedge : config.edgeKind (lower f.trimmed) = some edge) (hdotted : arg.DottedName)
    (htight : ∀ c ∈ arg.text, isBlank c = false) :
    edgeCall? config L call = some (edge, join "." (arg.identifiers.map Node.text)) := by
  have hcall : edgeOfName? config L call = _ :=
    edgeOfName?_of_call hkind hcallee hfunction hdot harg
  rw [hedge, Option.bind_some, if_pos (hdotted.isPlainName_trimmed.2 htight), hdotted.trimmed_eq,
    hdotted.text_eq_path htight] at hcall
  rw [edgeCall?, Node.subtree_eq, List.findSome?_cons, hcall]

/-- With a blank in the name it tests no clock, and neither does what stands in it. -/
theorem edgeCall?_of_spaced (hdotted : arg.DottedName) {c : Char} (hc : c ∈ arg.text)
    (hblank : isBlank c = true)
    (hbare : ∀ m ∈ Node.subtrees call.children, m.kind.isIndexed = false) :
    edgeCall? config L call = none := by
  have hplain : isPlainName arg.trimmed = false := by
    rw [Bool.eq_false_iff, ne_eq, hdotted.isPlainName_trimmed]
    intro htight
    rw [htight c hc] at hblank
    cases hblank
  have hcall : edgeOfName? config L call = none := by
    rw [edgeOfName?_of_call hkind hcallee hfunction hdot harg, hplain]
    cases config.edgeKind (lower f.trimmed) <;> rfl
  rw [edgeCall?, Node.subtree_eq, List.findSome?_cons, hcall]
  apply List.findSome?_eq_none_iff.2
  intro m hm
  apply edgeOfName?_of_bare
  intro k hk
  rw [Node.subtrees_eq_flatMap] at hbare hm
  obtain ⟨child, hchild, hm⟩ := List.mem_flatMap.1 hm
  exact hbare k (List.mem_flatMap.2 ⟨child, hchild, Node.mem_subtree_trans hm hk⟩)

end Calls

/-! ## First statements -/

/-- Whether a node is a statement by itself: no declaration, comment or container. -/
def Node.isProper (n : Node) : Bool :=
  match StatementForm.ofKind n.kind with
  | .silent | .container => false
  | .assignment _ | .branch | .choice | .wait | .call | .expression => true

/-- A clock that the first statement of a process tests is the clock of the process. -/
theorem clock_of_firstStatement {config : Config} {L : Lookup} {scope : Scope} {n i : Node}
    (hfirst : n.processStatements.find? Node.isProper = some i) {clock : ClockEdge × Text}
    (hclock : i.ownClock? (processSetting config L scope n) = some clock) :
    (processActivity config L scope n).clock = some clock := by
  obtain ⟨-, before, after, hsplit, hbefore⟩ := List.find?_eq_some_iff_append.1 hfirst
  have hnone : before.findSome? (Node.ownClock? (processSetting config L scope n)) = none := by
    apply List.findSome?_eq_none_iff.2
    intro m hm
    apply Node.ownClock?_eq_none
    intro hform
    have hproper := hbefore m hm
    rw [Node.isProper, hform] at hproper
    cases hproper
  rw [clock_processActivity, hsplit, List.findSome?_append, hnone, Option.none_or,
    List.findSome?_cons, hclock]

/-- How a process begins with an edge condition on a dotted name: its first statement is an `if`
statement, whose first condition calls an edge function on this name. -/
structure EdgeStart (config : Config) (n : Node) where
  branch : Node
  first : Arm
  later : List Arm
  call : Node
  function : Node
  arg : Node
  edge : ClockEdge
  is_first : n.processStatements.find? Node.isProper = some branch
  is_if : branch.kind = .ifStatement
  arms_eq : branch.arms = first :: later
  condition_eq : first.condition = some call
  is_call : call.kind.isIndexed = true
  prefix_eq : call.childUnder "prefix" = some function
  is_identifier : function.kind = .identifier
  undotted : '.' ∉ function.trimmed
  detects : config.edgeKind (lower function.trimmed) = some edge
  arguments_eq : call.arguments = [arg]
  dotted : arg.DottedName

/-- **An edge condition on a dotted name fixes the clock** if no blanks are written in the name. The
process is then sequential, with the edge of the function and the path of the name, whatever
statements follow. With a blank anywhere in the name, the condition tests no clock. -/
theorem processHarvest_firstEdge {config : Config} (L : Lookup) (scope : Scope) {n : Node}
    (e : EdgeStart config n) :
    ((∀ c ∈ e.arg.text, isBlank c = false) →
      ∃ p, (processHarvest config L scope n).processes = [p] ∧ p.isSequential = true ∧
        p.edge = some e.edge ∧ p.clock = some (join "." (e.arg.identifiers.map Node.text))) ∧
    ((∃ c ∈ e.arg.text, isBlank c = true) →
      (∀ m ∈ Node.subtrees e.call.children, m.kind.isIndexed = false) →
        e.first.edge? (processSetting config L scope n) = none) := by
  let s := processSetting config L scope n
  have hedge : e.first.edge? s = edgeCall? config s.lookup e.call := by
    rw [Arm.edge?, e.condition_eq]
    rfl
  constructor
  · intro htight
    have htest := edgeCall?_of_tight (L := s.lookup) e.is_call e.prefix_eq e.is_identifier
      e.undotted e.arguments_eq e.detects e.dotted htight
    -- The first arm of the first statement is the first place at which a clock is looked for.
    have hown : e.branch.ownClock? s =
        some (e.edge, join "." (e.arg.identifiers.map Node.text)) := by
      rw [Node.ownClock?, e.is_if, e.arms_eq, List.findSome?_cons, hedge, htest]
      rfl
    have hclock := clock_of_firstStatement e.is_first hown
    refine ⟨_, rfl, ?_, ?_, ?_⟩
    · show (Activity.kind _ == .sequential) = true
      rw [beq_iff_eq, Activity.kind_eq_sequential_iff, hclock]
      rfl
    · show Option.map Prod.fst _ = _
      rw [hclock]
      rfl
    · show Option.map Prod.snd _ = _
      rw [hclock]
      rfl
  · rintro ⟨c, hc, hblank⟩ hbare
    rw [hedge]
    exact edgeCall?_of_spaced e.is_call e.prefix_eq e.is_identifier e.undotted e.arguments_eq
      e.dotted hc hblank hbare

/-! ## A clock in a record -/

/-- The name `bus.clk`, spelled in a given way. -/
def busClock (spelling : String) : Node :=
  { Node.branch "selected_name" [.under "prefix" (.leaf "identifier" "bus"), .word ".",
      .under "suffix" (.leaf "identifier" "clk")] with
    stop := spelling.utf8ByteSize
    ahead := spelling.toList }

/-- The condition `rising_edge(bus.clk)`. -/
def busEdge (spelling : String) : Node :=
  .branch "function_call" [.under "prefix" (.leaf "identifier" "Rising_Edge"), .word "(",
    busClock spelling, .word ")"]

/-- The assignment `q <= d`. -/
def copyStatement : Node :=
  .branch "sequential_signal_assignment"
    [.leaf "identifier" "q", .word "<=", .leaf "identifier" "d"]

def busBranch (spelling : String) : Node :=
  .branch "if_statement" [.word "if", busEdge spelling, .word "then", copyStatement, .word "end"]

/-- A register with the clock `bus.clk`. -/
def busRegister (spelling : String) : Node :=
  .branch "process_statement" [.word "begin", busBranch spelling, .word "end"]

def busStart (spelling : String) (hdotted : (busClock spelling).DottedName) :
    EdgeStart {} (busRegister spelling) where
  branch := busBranch spelling
  first := ⟨some (busEdge spelling), [copyStatement]⟩
  later := []
  call := busEdge spelling
  function := .under "prefix" (.leaf "identifier" "Rising_Edge")
  arg := busClock spelling
  edge := .rising
  is_first := by
    have hcontained : (busRegister spelling).containedStatements = [busBranch spelling] := rfl
    rw [Node.processStatements, hcontained, List.flatMap_singleton, Node.allStatements_eq,
      List.find?_cons_of_pos rfl]
  is_if := rfl
  arms_eq := by
    rw [Node.arms_eq]
    rfl
  condition_eq := rfl
  is_call := rfl
  prefix_eq := rfl
  is_identifier := rfl
  undotted := by decide
  detects := by decide
  arguments_eq := by
    rw [Node.arguments_of_isIndexed (n := busEdge spelling) rfl rfl rfl, Node.arguments_eq]
    rfl
  dotted := hdotted

theorem dottedName_busClock {spelling : String} {a b : Text} (ha : IsBlanks a) (hb : IsBlanks b)
    (htext : (busClock spelling).text = "bus".toList ++ a ++ '.' :: b ++ "clk".toList) :
    (busClock spelling).DottedName :=
  .selection rfl rfl rfl rfl (by decide) ha hb htext (.identifier rfl (by decide))

theorem processHarvest_firstEdge_tight :
    (∃ e : EdgeStart {} (busRegister "bus.clk"), ∀ c ∈ e.arg.text, isBlank c = false) ∧
      ∃ p, (processHarvest {} declaredLookup .file (busRegister "bus.clk")).processes = [p] ∧
        p.isSequential = true ∧ p.edge = some .rising ∧ p.clock = some "bus.clk".toList := by
  have hdotted : (busClock "bus.clk").DottedName :=
    dottedName_busClock isBlanks_nil isBlanks_nil (by decide)
  have hspelled : (busClock "bus.clk").text.all (!isBlank ·) = true ∧
      join "." ((busClock "bus.clk").identifiers.map Node.text) = "bus.clk".toList := by
    decide +kernel
  have htight : ∀ c ∈ (busClock "bus.clk").text, isBlank c = false := by
    simpa using hspelled.1
  refine ⟨⟨busStart "bus.clk" hdotted, htight⟩, ?_⟩
  rw [← hspelled.2]
  exact (processHarvest_firstEdge declaredLookup .file (busStart "bus.clk" hdotted)).1 htight

/-- With blanks around the dot, the same register has no clock. -/
theorem busRegister_loses_clock :
    ∃ e : EdgeStart {} (busRegister "bus . clk"), e.edge = .rising ∧
      join "." (e.arg.identifiers.map Node.text) = "bus.clk".toList ∧
      ¬ ∃ p, (processHarvest {} declaredLookup .file (busRegister "bus . clk")).processes = [p] ∧
        p.isSequential = true ∧ p.edge = some .rising ∧ p.clock = some "bus.clk".toList := by
  have hdotted : (busClock "bus . clk").DottedName :=
    dottedName_busClock (a := [' ']) (b := [' ']) (by decide) (by decide) (by decide)
  have hfound : join "." ((busClock "bus . clk").identifiers.map Node.text) = "bus.clk".toList ∧
      (processHarvest {} declaredLookup .file (busRegister "bus . clk")).processes.map
        (·.isSequential) = [false] := by
    decide +kernel
  refine ⟨busStart "bus . clk" hdotted, rfl, hfound.1, ?_⟩
  rintro ⟨p, hp, hsequential, -⟩
  have hkinds := hfound.2
  rw [hp, List.map_singleton, hsequential] at hkinds
  cases hkinds

end DesignFacts

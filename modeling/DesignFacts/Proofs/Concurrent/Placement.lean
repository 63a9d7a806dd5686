import DesignFacts.Proofs.Concurrent.OneStatement
import DesignFacts.Proofs.Placement.Growth

/-!
# One assignment at two places

The items of an assignment can be put among the concurrent statements of one file, and into a
process of another.

**Assignments** (`AssignmentParts`). Wherever its items are written, they grow into an assignment
(`isAssignment_grow`), and only the places of its nodes depend on where that is.

**Processes** (`ProcessFrame`). What stands around the only statement of a process are tokens,
labels and constructs in which nothing is found, such as the sensitivity list.

Main result: `AssignmentParts.agrees_concurrent_process`.
-/

namespace DesignFacts.Sexp

open Text

/-! ## Assignments -/

/-- The target and the values of an assignment. -/
structure AssignmentParts where
  target : Item
  values : List Item
  target_field : target.field = some "target".toList
  target_isName : target.kind.isName = true
  values_field : ∀ v ∈ values, v.field = none

namespace AssignmentParts

variable (g : AssignmentParts) {source source' : Text} {p q : Page}

def arrow : Item := .token none "<=".toList

def semicolon : Item := .token none ";".toList

/-- The assignment as a statement of the given kind: `target <= values ;`. -/
def item (kind : String) : Item :=
  .list none kind.toList (g.target :: arrow :: (g.values ++ [semicolon]))

theorem kind_item (kind : String) : (g.item kind).kind = Kind.ofTag kind := by
  rw [item, Item.kind, String.ofList_toList]

theorem isList_target : g.target.isList = true := by
  have hname := g.target_isName
  cases htarget : g.target with
  | token =>
    rw [htarget] at hname
    cases hname
  | list => rfl

theorem write_item (kind : String) : (g.item kind).write p =
    semicolon.write (Item.writeAll p (g.target :: arrow :: g.values)) := by
  rw [item, write_list_of_mem List.mem_cons_self g.isList_target, ← List.cons_append,
    ← List.cons_append, Item.writeAll_append]
  rfl

/-- The values, on the page after the target and the arrow. -/
def valueNodes (source : Text) (p : Page) : List Node :=
  Item.growAll source (arrow.write (g.target.write p)) g.values

/-- The items of an assignment grow into an assignment. -/
theorem isAssignment_grow (kind : String) (htext : ((g.item kind).write p).text <+: source) :
    ((g.item kind).grow source p).IsAssignment (g.target.grow source p)
      (g.valueNodes source p) := by
  rw [write_item, Item.writeAll, Item.writeAll] at htext
  have harrow : (arrow.write (g.target.write p)).text <+: source :=
    (Item.text_writeAll g.values _).trans ((Item.text_write semicolon _).trans htext)
  rw [item, grow_list_of_mem List.mem_cons_self g.isList_target, Item.growAll, Item.growAll,
    Item.growAll_append]
  refine ⟨⟨_, _, rfl, ?_, ?_⟩, ?_, ?_, ?_⟩
  · rw [Item.isToken_grow harrow]
    decide
  · rw [Item.isToken_grow htext]
    decide
  · rw [Item.field_grow, g.target_field]
    rfl
  · rw [Item.kind_grow, g.target_isName]
  · intro c hc
    rcases List.mem_cons.1 hc with rfl | hc
    · rfl
    rcases List.mem_append.1 hc with hc | hc
    · obtain ⟨v, hv, q, -, rfl⟩ := Item.exists_of_mem_growAll hc
      rw [Item.field_grow, g.values_field v hv]
      rfl
    · obtain rfl := List.mem_singleton.1 hc
      rfl

/-- At two places, the target and the values grow into nodes that differ in their places only. -/
theorem unplaced_eq {kind kind' : String} (htext : ((g.item kind).write p).text <+: source)
    (htext' : ((g.item kind').write q).text <+: source') :
    (g.target.grow source p).unplaced = (g.target.grow source' q).unplaced ∧
      (g.valueNodes source p).map Node.unplaced = (g.valueNodes source' q).map Node.unplaced := by
  rw [write_item] at htext htext'
  have hrow := (Item.shifted_growAll (g.target :: arrow :: g.values) p q (List.cons_ne_nil _ _)
    ((Item.text_write semicolon _).trans htext)
    ((Item.text_write semicolon _).trans htext')).unplaced_eq
  obtain ⟨htarget, hrest⟩ := List.cons.inj hrow
  exact ⟨htarget, (List.cons.inj hrest).2⟩

end AssignmentParts

/-! ## Processes -/

/-- Whether no statement is found in an item of a process: it is a token, a label, or of a silent
kind. -/
def Item.isSilent (item : Item) : Bool :=
  !item.isList || item.field == some "label".toList || item.kind.isSilent

/-- A process with its only statement left out. -/
structure ProcessFrame where
  before : List Item
  after : List Item
  not_end : ∀ i ∈ before, i.isWordToken "end" = false
  silent_before : ∀ i ∈ before, i.isSilent = true
  silent_after : ∀ i ∈ after, i.isSilent = true

namespace ProcessFrame

variable (f : ProcessFrame) (g : AssignmentParts) {source : Text} {p : Page}

def hole : Hole := ⟨none, "process_statement".toList, f.before, f.after⟩

def fill (statement : Item) : Item := Hole.fill statement [f.hole]

/-- No statement is found in a row of silent items. -/
theorem filter_growAll_eq_nil {items : List Item} (h : ∀ i ∈ items, i.isSilent = true)
    {ns : List Node} (hns : ns.Sublist (Item.growAll source p items)) :
    (ns.filter fun c => c.named && !c.isUnder "label").filter (fun c => !c.kind.isSilent) = [] := by
  rw [List.filter_filter, List.filter_eq_nil_iff]
  intro c hc
  obtain ⟨i, hi, q, -, rfl⟩ := Item.exists_of_mem_growAll (hns.subset hc)
  have hsilent := h i hi
  rw [Item.isSilent, Bool.or_eq_true, Bool.or_eq_true, beq_iff_eq] at hsilent
  rw [Item.kind_grow, Item.named_grow, Node.isUnder, Item.field_grow]
  rcases hsilent with (hlist | hlabel) | hkind
  · simp_all
  · simp [hlabel]
  · simp [hkind]

/-- The statement is the only one that is found in the process. -/
theorem filter_containedStatements {statement : Item} (hlist : statement.isList = true)
    (hfield : statement.field = none) (hkind : statement.kind.isSilent = false)
    (htext : ((f.fill statement).write p).text <+: source) :
    ((f.fill statement).grow source p).containedStatements.filter (fun c => !c.kind.isSilent) =
      [statement.grow source (Item.writeAll p f.before)] := by
  set q := Item.writeAll p f.before
  have hstatement : (statement.write q).text <+: source :=
    (Hole.text_write_page hlist [f.hole] p).trans htext
  have hchildren : ((f.fill statement).grow source p).children =
      Item.growAll source p f.before ++ statement.grow source q ::
        Item.growAll source (statement.write q) f.after := by
    rw [fill, Hole.grow_fill_cons hlist]
    rfl
  -- The keyword `end` comes after the statement.
  have hbefore : ∀ c ∈ Item.growAll source p f.before, (!c.isToken "end") = true := by
    intro c hc
    obtain ⟨i, hi, q', hq', rfl⟩ := Item.exists_of_mem_growAll hc
    have hitem := hq'.trans ((Item.text_write statement q).trans hstatement)
    rw [Item.isToken_grow hitem, f.not_end i hi, Bool.not_false]
  have hend : (!(statement.grow source q).isToken "end") = true := by
    rw [Node.isToken, Item.named_grow, hlist]
    rfl
  have hstated : ((statement.grow source q).named &&
      !(statement.grow source q).isUnder "label") = true := by
    rw [Item.named_grow, hlist, Node.isUnder, Item.field_grow, hfield]
    rfl
  have hfound : (!(statement.grow source q).kind.isSilent) = true := by
    rw [Item.kind_grow, hkind, Bool.not_false]
  rw [Node.containedStatements, hchildren, List.takeWhile_append_of_pos hbefore,
    List.takeWhile_cons_of_pos (by exact hend), List.filter_append, List.filter_append,
    filter_growAll_eq_nil f.silent_before (List.Sublist.refl _), List.nil_append,
    List.filter_cons_of_pos (by exact hstated), List.filter_cons_of_pos (by exact hfound),
    filter_growAll_eq_nil f.silent_after (List.takeWhile_sublist _)]

/-- A process in which the items of an assignment are the only statement grows into one. -/
theorem isOneAssignment_grow
    (htext : ((f.fill (g.item "sequential_signal_assignment")).write p).text <+: source)
    (hlocals : ((f.fill (g.item "sequential_signal_assignment")).grow source p).localNodes = []) :
    ((f.fill (g.item "sequential_signal_assignment")).grow source p).IsOneAssignment
      (g.target.grow source (Item.writeAll p f.before))
      (g.valueNodes source (Item.writeAll p f.before)) := by
  have hkind := g.kind_item "sequential_signal_assignment"
  have hlist : (g.item "sequential_signal_assignment").isList = true := rfl
  have hstatement := Hole.text_write_page hlist [f.hole] p
  refine ⟨?_, hlocals, _, f.filter_containedStatements hlist rfl ?_ htext, ?_,
    g.isAssignment_grow _ (hstatement.trans htext)⟩
  · rw [Item.kind_grow]
    rfl
  · rw [hkind]
    rfl
  · rw [Item.kind_grow, hkind]
    rfl

end ProcessFrame

/-- **A concurrent assignment and a process with one statement agree.** An assignment to a name is
put among the concurrent statements of one file, and into a process of another. If the process
brings in no local names and the name resolves to a path, both have the same facts, under any
lookup. -/
theorem AssignmentParts.agrees_concurrent_process (g : AssignmentParts) (f : ProcessFrame)
    (around around' : List Hole) :
    ∃ tree tree' n p,
      (layout (Hole.fill (g.item "concurrent_signal_assignment") around)).load = .ok tree ∧
      (layout (Hole.fill (f.fill (g.item "sequential_signal_assignment")) around')).load =
        .ok tree' ∧
      Hole.node? around tree.root = some n ∧ Hole.node? around' tree'.root = some p ∧
      ∀ (L : Lookup) (r : ResolvedName), p.localNodes = [] →
        n.target?.bind (resolve L) = some r → r.path ≠ [] →
        ∀ (config : Config) (scope scope' : Scope),
          (walk config L scope n).Agrees (walk config L scope' p) := by
  have hlist : (g.item "concurrent_signal_assignment").isList = true := rfl
  have hlist' : (f.fill (g.item "sequential_signal_assignment")).isList = true := rfl
  refine ⟨_, _, _, _, load_layout_eq_grow _, load_layout_eq_grow _,
    Hole.node?_grow_fill hlist around _ {}, Hole.node?_grow_fill hlist' around' _ {}, ?_⟩
  intro L r hlocals hr hpath config scope scope'
  have htext := Hole.text_write_page hlist around {}
  have htext' := Hole.text_write_page hlist' around' {}
  have hassignment := g.isAssignment_grow _ htext
  rw [hassignment.concurrent.1, Option.bind_some] at hr
  obtain ⟨htarget, hvalues⟩ := g.unplaced_eq htext
    ((Hole.text_write_page rfl [f.hole] _).trans htext')
  refine agrees_walk_of_isOneAssignment ?_ hassignment
    (f.isOneAssignment_grow g htext' hlocals) htarget hvalues hr hpath config scope scope'
  rw [Item.kind_grow, g.kind_item]
  rfl

/-- A product and a comparison of `a` and `b` are assigned to an element of `y`. -/
def elementAssignment : AssignmentParts :=
  let word (t : String) : Item := .token none t.toList
  let name (t : String) : Item := .list none "identifier".toList [word t]
  { target :=
      .list (some "target".toList) "indexed_name".toList [name "y", word "(", name "i", word ")"]
    values :=
      [.list none "multiplicative_expression".toList [name "a", word "*", name "b"],
        .list none "relational_expression".toList [name "a", word "=", name "b"]]
    target_field := rfl
    target_isName := by decide
    values_field := by decide }

/-- A process with a sensitivity list. -/
def sensitiveProcess : ProcessFrame where
  before := [.token none "process".toList,
    .list none "sensitivity_list".toList [.token none "a".toList], .token none "begin".toList]
  after := [.token none "end".toList, .token none "process".toList, .token none ";".toList]
  not_end := by decide
  silent_before := by decide
  silent_after := by decide

/-- An architecture around its only statement. -/
def bareArchitecture : Hole where
  field := none
  kind := "architecture_body".toList
  before := [.token none "begin".toList]
  after := [.token none "end".toList]

theorem agrees_concurrent_process_element :
    ∃ tree tree' n p r,
      (layout (Hole.fill (elementAssignment.item "concurrent_signal_assignment")
        [bareArchitecture])).load = .ok tree ∧
      (layout (Hole.fill (sensitiveProcess.fill
        (elementAssignment.item "sequential_signal_assignment")) [bareArchitecture])).load =
          .ok tree' ∧
      Hole.node? [bareArchitecture] tree.root = some n ∧
      Hole.node? [bareArchitecture] tree'.root = some p ∧
      p.localNodes = [] ∧ n.target?.bind (resolve declaredLookup) = some r ∧ r.path ≠ [] ∧
      (walk {} declaredLookup {} n).Agrees (walk {} declaredLookup {} p) := by
  obtain ⟨tree, tree', n, p, hload, hload', hn, hp, hagrees⟩ :=
    elementAssignment.agrees_concurrent_process sensitiveProcess [bareArchitecture]
      [bareArchitecture]
  obtain rfl := Except.ok.inj ((load_layout_eq_grow _).symm.trans hload)
  obtain rfl := Except.ok.inj ((load_layout_eq_grow _).symm.trans hload')
  have hlocals : (some p).all (fun p => p.localNodes.isEmpty) = true := by
    rw [← hp]
    decide +kernel
  have htarget : ((some n).bind fun n => n.target?.bind (resolve declaredLookup)).any
      (fun r => !r.path.isEmpty) = true := by
    rw [← hn]
    decide +kernel
  rw [Option.all_some, List.isEmpty_iff] at hlocals
  rw [Option.bind_some] at htarget
  obtain ⟨r, hr, hpath⟩ := (Option.any_eq_true ..).1 htarget
  rw [Bool.not_eq_true', List.isEmpty_eq_false_iff] at hpath
  exact ⟨_, _, n, p, r, hload, hload', hn, hp, hlocals, hr, hpath,
    hagrees declaredLookup r hlocals hr hpath {} {} {}⟩

end DesignFacts.Sexp

import DesignFacts.Tree.Node

/-!
# Arms of an if statement

An `if` statement is a row of arms, each with a condition and a body; an `else` arm has no
condition. Later arms stand directly in the statement, behind their keywords, or in clause nodes
of their own. Main definition: `Node.arms`.
-/

namespace DesignFacts

open Text

/-- An arm of an `if` statement. -/
structure Arm where
  condition : Option Node := none
  body : List Node := []

def Arm.nodes (a : Arm) : List Node := a.condition.toList ++ a.body

/-- What a child of an `if` statement or clause is. -/
inductive ArmPiece where
  /-- A keyword that begins an arm, with a condition next or not. -/
  | start (conditional : Bool)
  /-- The keyword after a condition. -/
  | conditionEnd
  /-- A condition or statement. -/
  | part (n : Node)
  /-- The arms of a clause. -/
  | clause (arms : List Arm)

namespace ArmPiece

/-- The arms that a row of pieces makes, while `current` is the arm that is open and `expects`
says whether a condition comes next. -/
def arms (current : Option Arm) (expects : Bool) : List ArmPiece → List Arm
  | [] => current.toList
  | .start conditional :: ps => current.toList ++ arms (some {}) conditional ps
  | .conditionEnd :: ps => arms current false ps
  | .clause inner :: ps => current.toList ++ inner ++ arms none expects ps
  | .part n :: ps =>
    let arm := current.getD {}
    if (n.isUnder "condition" || expects) && arm.condition.isNone then
      arms (some { arm with condition := some n }) false ps
    else arms (some { arm with body := arm.body ++ [n] }) expects ps

def nodes : ArmPiece → List Node
  | start _ | conditionEnd => []
  | part n => [n]
  | clause arms => arms.flatMap Arm.nodes

theorem mem_nodes_of_mem_arms {ps : List ArmPiece} {current : Option Arm} {expects : Bool}
    {a : Arm} {n : Node} (ha : a ∈ arms current expects ps) (hn : n ∈ a.nodes) :
    n ∈ (current.map Arm.nodes).getD [] ∨ n ∈ ps.flatMap nodes := by
  have opened : ∀ {a : Arm} {current : Option Arm}, a ∈ current.toList → n ∈ a.nodes →
      n ∈ (current.map Arm.nodes).getD [] := by
    intro a current ha hn
    cases current <;> simp_all
  induction ps generalizing current expects with
  | nil => exact .inl (opened ha hn)
  | cons p ps ih =>
    have later : n ∈ ps.flatMap nodes → n ∈ (p :: ps).flatMap nodes := by
      intro h
      rw [List.flatMap_cons]
      exact List.mem_append_right _ h
    cases p with
    | start conditional =>
      simp only [arms, List.mem_append] at ha
      rcases ha with ha | ha
      · exact .inl (opened ha hn)
      · rcases ih ha with h | h
        · simp [Arm.nodes] at h
        · exact .inr (later h)
    | conditionEnd =>
      simp only [arms] at ha
      exact (ih ha).imp_right later
    | clause inner =>
      simp only [arms, List.mem_append] at ha
      rcases ha with (ha | ha) | ha
      · exact .inl (opened ha hn)
      · exact .inr (by
          rw [List.flatMap_cons]
          exact List.mem_append_left _ (List.mem_flatMap.2 ⟨a, ha, hn⟩))
      · rcases ih ha with h | h
        · simp at h
        · exact .inr (later h)
    | part m =>
      -- Whatever place in the current arm the part is given, only the part itself is new there.
      have step : ∀ {b : Arm}, (∀ x ∈ b.nodes, x = m ∨ x ∈ (current.map Arm.nodes).getD []) →
          n ∈ ((some b).map Arm.nodes).getD [] ∨ n ∈ ps.flatMap nodes →
          n ∈ (current.map Arm.nodes).getD [] ∨ n ∈ (part m :: ps).flatMap nodes := by
        intro b hb h
        rcases h with h | h
        · rcases hb n h with rfl | h
          · exact .inr (by simp [nodes])
          · exact .inl h
        · exact .inr (later h)
      simp only [arms] at ha
      split at ha
      · refine step ?_ (ih ha)
        intro x hx
        cases current <;> simp_all [Arm.nodes]
      · refine step ?_ (ih ha)
        intro x hx
        cases current with
        | none => simp_all [Arm.nodes]
        | some c =>
          simp only [Arm.nodes, Option.getD_some, List.mem_append, List.mem_singleton] at hx
          simp only [Option.map_some, Option.getD_some, Arm.nodes, List.mem_append]
          rcases hx with hx | hx | hx
          · exact .inr (.inl hx)
          · exact .inr (.inr hx)
          · exact .inl hx

end ArmPiece

namespace Node

/-- Whether a node is a clause with arms of its own. -/
def isArmClause (n : Node) : Bool :=
  !n.isUnder "label" && (n.kind == .elsifClause || n.kind == .elseClause)

/-- What a child of an `if` statement is, clauses apart. Labels, comments and other tokens are no
pieces. -/
def armPiece? (n : Node) : Option ArmPiece :=
  if n.isUnder "label" || n.isComment then none
  else if n.named then some (.part n)
  else if n.isToken "if" || n.isToken "elsif" then some (.start true)
  else if n.isToken "else" then some (.start false)
  else if n.isToken "then" then some .conditionEnd
  else none

/-- The children of an `if` statement before the keyword `end`. -/
def armChildren (n : Node) : List Node :=
  n.children.takeWhile fun c => c.isUnder "label" || !c.isToken "end"

theorem mem_children_of_mem_armChildren {n c : Node} (h : c ∈ n.armChildren) : c ∈ n.children :=
  (List.takeWhile_sublist _).subset h

/-- The arms of an `if` statement or of a clause of one. -/
def arms (n : Node) : List Arm :=
  ArmPiece.arms none false (n.armChildren.attach.filterMap fun c =>
    if c.1.isArmClause then some (.clause (arms c.1)) else c.1.armPiece?)
termination_by sizeOf n
decreasing_by exact sizeOf_lt_of_mem_children (mem_children_of_mem_armChildren c.2)

theorem arms_eq (n : Node) :
    n.arms = ArmPiece.arms none false (n.armChildren.filterMap fun c =>
      if c.isArmClause then some (.clause c.arms) else c.armPiece?) := by
  rw [arms]
  conv => rhs; rw [← List.attach_map_subtype_val n.armChildren, List.filterMap_map]
  rfl

theorem mem_nodes_of_armPiece? {n m : Node} {p : ArmPiece} (hp : n.armPiece? = some p)
    (hm : m ∈ p.nodes) : m = n := by
  simp only [armPiece?] at hp
  repeat' split at hp
  all_goals cases hp
  all_goals simp_all [ArmPiece.nodes]

theorem sizeOf_lt_of_mem_arms {n m : Node} {a : Arm} (ha : a ∈ n.arms) (hm : m ∈ a.nodes) :
    sizeOf m < sizeOf n := by
  rw [arms_eq] at ha
  rcases ArmPiece.mem_nodes_of_mem_arms ha hm with h | h
  · simp at h
  · simp only [List.mem_flatMap, List.mem_filterMap] at h
    obtain ⟨p, ⟨c, hc, hp⟩, hmp⟩ := h
    have hlt := sizeOf_lt_of_mem_children (mem_children_of_mem_armChildren hc)
    split at hp
    · cases hp
      simp only [ArmPiece.nodes, List.mem_flatMap] at hmp
      obtain ⟨b, hb, hmb⟩ := hmp
      have := sizeOf_lt_of_mem_arms hb hmb
      omega
    · rw [mem_nodes_of_armPiece? hp hmp]
      exact hlt
termination_by sizeOf n

end Node

end DesignFacts

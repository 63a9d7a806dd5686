import DesignFacts.Declaration.TypeText
import DesignFacts.Fact.Generate
import DesignFacts.Instance.Basic
import DesignFacts.Process.Local

/-!
# Headers of generate statements

A generate statement has a label, a scheme and a body. The grammar may wrap the scheme with the
body in a node of its own, or put everything in one node.
-/

namespace DesignFacts

open Text

namespace Node

/-- The node that holds the scheme of a generate statement: itself, or the wrapped one. -/
def schemeNode (n : Node) : Node :=
  if n.kind.isScheme then n else (n.namedChildren.find? (·.kind.isScheme)).getD n

/-- The label of a generate statement; a statement without one is named after its line. -/
def generateLabel (n : Node) : Text :=
  (n.label?.or (n.schemeNode.label?.or n.labelBeforeColon?)).getD
    ("generate_".toList ++ Numeral.decimal n.line)

/-- The kind that the first keyword of a scheme makes it. -/
def keywordScheme? (n : Node) : Option Kind :=
  if n.isToken "for" then some .forGenerate
  else if n.isToken "case" then some .caseGenerate
  else if n.isToken "if" then some .ifGenerate
  else none

def schemeKind (n : Node) : Kind :=
  if n.kind.isScheme then n.kind else (n.children.findSome? keywordScheme?).getD .ifGenerate

/-! ## Parts of a scheme -/

/-- The children of a scheme before the keyword `generate`. -/
def schemeHead (n : Node) : List Node := n.children.takeWhile fun c => !c.isToken "generate"

/-- The text under a field, else that of the constructs between a keyword and `generate`. -/
def schemeText (n : Node) (field keyword : String) : Text :=
  match n.childUnder field with
  | some c => squash c.text
  | none =>
    let after := ((splitAt? (·.isToken keyword) n.schemeHead).map Prod.snd).getD []
    (spanText (after.filter (·.named))).getD []

/-- The parameter of a `for` scheme, empty if there is none. -/
def schemeParameter (n : Node) : Text :=
  (((n.childUnder "loop_var").map trimmed).or n.loopParameter?).getD []

/-- The text between the words `in` and `generate`. -/
def rangeInText? (t : Text) : Option Text := do
  let t := squash t
  let (left, rest) ← cut " in ".toList (lower t)
  let (range, _) ← cut " generate".toList rest
  return trim ((t.drop (left.length + 4)).take range.length)

/-- The text of the range of a `for` scheme. -/
def schemeRange? (n : Node) : Option Text :=
  (((n.childUnder "range").or (n.schemeHead.find? (·.kind == .range))).map
    fun c => squash c.text).or (rangeInText? n.text)

/-- The bounds of a `for` scheme. A range that cannot be split is taken for the low bound. -/
def schemeBounds (n : Node) : Text × Text × Text :=
  match n.schemeRange? with
  | some t => (range? t).getD (t, [], [])
  | none => ([], [], [])

/-- The children around the arrow of an alternative. -/
def alternativeSides? (n : Node) : Option (List Node × List Node) :=
  splitAt? (·.isToken "=>") n.children

/-- The choices of an alternative of a `case` scheme. -/
def alternativeText? (n : Node) : Option Text :=
  n.alternativeSides?.bind fun (front, _) =>
    spanText (front.filter fun c => !c.isToken "when" && !c.isUnder "label")

/-- The body of an alternative of a `case` scheme. -/
def alternativeBody (n : Node) : List Node :=
  (n.alternativeSides?.map fun (_, back) => back.filter (·.named)).getD []

/-- The constructs between the keywords `generate` and `end`. -/
def generateBody (n : Node) : List Node :=
  let after := ((splitAt? (·.isToken "generate") n.children).map Prod.snd).getD []
  (after.takeWhile fun c => !c.isToken "end").filter fun c => c.named && !c.isUnder "label"

end Node

/-- The parts of a generate statement. -/
structure GenerateHeader where
  label : Text
  scheme : Scheme
  body : List Node

namespace GenerateHeader

def schemeOf (n : Node) : Scheme :=
  match n.schemeKind with
  | .forGenerate =>
    let (low, high, direction) := n.schemeBounds
    .loop n.schemeParameter low high direction
  | .caseGenerate =>
    .choice (n.schemeText "expression" "case") (n.namedChildren.filterMap Node.alternativeText?)
  | _ => .condition (n.schemeText "condition" "if")

def bodyOf (n : Node) : List Node :=
  if n.schemeKind == .caseGenerate then n.namedChildren.flatMap Node.alternativeBody
  else n.generateBody

def ofNode (n : Node) : GenerateHeader where
  label := n.generateLabel
  scheme := schemeOf n.schemeNode
  body := bodyOf n.schemeNode

/-- The parameter of a `for` generate, if it has one. -/
def parameter? (h : GenerateHeader) : Option Text :=
  match h.scheme with
  | .loop parameter _ _ _ => if parameter.isEmpty then none else some parameter
  | _ => none

/-! ## Bodies are smaller -/

theorem mem_children_of_mem_generateBody {n c : Node} (h : c ∈ n.generateBody) :
    c ∈ n.children := by
  simp only [Node.generateBody] at h
  have h := (List.takeWhile_sublist _).subset (List.mem_filter.1 h).1
  cases hs : Node.splitAt? (·.isToken "generate") n.children with
  | none => simp [hs] at h
  | some p =>
    rw [hs] at h
    exact Node.mem_of_mem_splitAt? hs c (List.mem_append_right _ h)

theorem mem_children_of_mem_alternativeBody {n c : Node} (h : c ∈ n.alternativeBody) :
    c ∈ n.children := by
  simp only [Node.alternativeBody, Node.alternativeSides?] at h
  cases hs : Node.splitAt? (·.isToken "=>") n.children with
  | none => simp [hs] at h
  | some p =>
    rw [hs] at h
    exact Node.mem_of_mem_splitAt? hs c (List.mem_append_right _ (List.mem_filter.1 h).1)

theorem sizeOf_lt_of_mem_bodyOf {n c : Node} (h : c ∈ bodyOf n) : sizeOf c < sizeOf n := by
  simp only [bodyOf] at h
  split at h
  · simp only [List.mem_flatMap] at h
    obtain ⟨a, ha, hc⟩ := h
    have := Node.sizeOf_lt_of_mem_children (Node.mem_children_of_mem_namedChildren ha)
    have := Node.sizeOf_lt_of_mem_children (mem_children_of_mem_alternativeBody hc)
    omega
  · exact Node.sizeOf_lt_of_mem_children (mem_children_of_mem_generateBody h)

theorem sizeOf_schemeNode_le (n : Node) : sizeOf n.schemeNode ≤ sizeOf n := by
  simp only [Node.schemeNode]
  split
  · exact Nat.le_refl _
  · cases hf : n.namedChildren.find? (·.kind.isScheme) with
    | none => exact Nat.le_refl _
    | some c =>
      exact Nat.le_of_lt (Node.sizeOf_lt_of_mem_children
        (Node.mem_children_of_mem_namedChildren (List.mem_of_find?_eq_some hf)))

theorem sizeOf_lt_of_mem_body {n c : Node} (h : c ∈ (ofNode n).body) : sizeOf c < sizeOf n :=
  Nat.lt_of_lt_of_le (sizeOf_lt_of_mem_bodyOf h) (sizeOf_schemeNode_le n)

end GenerateHeader

end DesignFacts

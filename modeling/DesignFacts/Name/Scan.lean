import DesignFacts.Name.Resolve

/-!
# Reads and calls in an expression

Scanning an expression finds the signals it reads and the subprograms it calls. Every node has a
contribution of its own, at most one read or one call (`ownReads`, `ownCalls`), and hands on the
nodes below it in which more may be found (`scanParts`). A scan is the contribution of a node
followed by the scans of these parts.

Not everything that looks like a name is a read: choices and formals before `=>`, the type mark of
a qualified expression, selected suffixes, and names that are built in, excluded or subprograms
are left out.
-/

namespace DesignFacts

open Text

structure CallSite where
  name : Text
  args : List Text
  line : Nat

/-- The reads and calls of an expression, in the order of their nodes. -/
structure Scan where
  reads : List ResolvedName := []
  calls : List CallSite := []
  /-- Whether a far line was needed. -/
  farLine : Bool := false

namespace Scan

/-- Two scans, one after the other. -/
def append (a b : Scan) : Scan where
  reads := a.reads ++ b.reads
  calls := a.calls ++ b.calls
  farLine := a.farLine || b.farLine

instance : Append Scan := ⟨append⟩

/-- A row of scans. -/
def concat (ss : List Scan) : Scan := ss.foldr append {}

/-- The paths that are read, each once, up to letter case. -/
def readPaths (s : Scan) : List Text := distinct (s.reads.map (·.path))

/-- The root identifiers that are read, each once, up to letter case. -/
def readBases (s : Scan) : List Text := distinct (s.reads.map (·.base))

end Scan

/-! ## What a node contributes -/

/-- What an occurrence of a name is. -/
inductive Occurrence where
  | read
  | call
  | neither
  deriving DecidableEq

/-- Decide what an occurrence of a resolved name is. -/
def classify (L : Lookup) (r : ResolvedName) : Occurrence :=
  let base := lower r.base
  if r.isAttribute then
    if L.declared base && !L.excluded base then .read else .neither
  else if r.isIndexed then
    if L.excluded base then .neither
    else if L.declared base then .read
    else if L.builtin (lower r.lastSegment) || L.builtin base then .neither
    else .call
  else if L.excluded base || (!L.declared base && (L.builtin base || L.subprogram base)) then
    .neither
  else .read

/-- The contribution of a resolved name that stands at a node. -/
def contribution (L : Lookup) (n : Node) (r : ResolvedName) : Scan :=
  match classify L r with
  | .read => { reads := [r] }
  | .call => { calls := [⟨r.path, n.arguments.map Node.trimmed, r.line⟩] }
  | .neither => {}

/-- The reads and calls of a node itself. -/
def ownScan (L : Lookup) (n : Node) : Scan :=
  if n.kind.isName then
    { ((resolve L n).map (contribution L n)).getD {} with farLine := n.resolvesFar }
  else {}

/-! ## Where more is found -/

namespace Node

/-- The value of an association: what a field marks as the value or actual, else the constructs
after the arrow, else all of them. -/
def associationValue (n : Node) : List Node :=
  match (n.childUnder "value").or (n.childUnder "actual") with
  | some v => [v]
  | none =>
    match splitAt? (·.isToken "=>") n.children with
    | some (_, after) => after.filter (·.named)
    | none => n.namedChildren

/-- The place of the type mark of a qualified expression. -/
def typeMarkIndex? (n : Node) : Option Nat :=
  (n.children.findIdx? (·.isUnder "type_mark")).or (n.children.findIdx? (·.named))

/-- The constructs of a qualified expression other than its type mark. -/
def qualifiedOperand (n : Node) : List Node :=
  (n.children.zipIdx.filter fun (c, i) => c.named && n.typeMarkIndex? != some i).map Prod.fst

end Node

/-- Where the arguments of a resolved name are looked through: nowhere for an attribute or for a
bare name that is no read. -/
def nameParts (L : Lookup) (n : Node) (r : ResolvedName) : List Node :=
  if r.isAttribute then []
  else if r.isIndexed || classify L r == .read then n.arguments
  else []

/-- The nodes below a node in which more reads and calls may stand. -/
def scanParts (L : Lookup) (n : Node) : List Node :=
  if n.kind.isName then
    match resolve L n with
    | some r => nameParts L n r
    | none => n.namedChildren
  else match n.kind with
    | .qualifiedExpression => n.qualifiedOperand
    | .elementAssociation | .associationElement => n.associationValue
    | .comment | .others | .openActual => []
    | k => if k.isLiteral then [] else n.namedChildren

/-! ## Parts are smaller -/

namespace Node

theorem mem_children_of_mem_zipIdx_filter {n c : Node} {p : Node × Nat → Bool}
    (h : c ∈ (n.children.zipIdx.filter p).map Prod.fst) : c ∈ n.children := by
  simp only [List.mem_map, List.mem_filter, Prod.exists, exists_and_right, exists_eq_right] at h
  obtain ⟨i, hi, _⟩ := h
  have := List.mem_zipIdx hi
  simp_all

theorem sizeOf_lt_of_mem_ownArguments {n a : Node} (h : a ∈ n.ownArguments) :
    sizeOf a < sizeOf n := by
  simp only [ownArguments, List.mem_flatMap] at h
  obtain ⟨c, hc, ha⟩ := h
  have hlt := sizeOf_lt_of_mem_children (mem_children_of_mem_zipIdx_filter (List.mem_filter.1 hc).1)
  split at ha
  · have := sizeOf_lt_of_mem_children (mem_children_of_mem_namedChildren ha)
    omega
  · simp_all

theorem sizeOf_lt_of_mem_arguments {n a : Node} (h : a ∈ n.arguments) : sizeOf a < sizeOf n := by
  rw [arguments_eq] at h
  have inner : a ∈ (n.nameHead?.map arguments).getD [] → sizeOf a < sizeOf n := by
    intro ha
    cases hh : n.nameHead? with
    | none => simp [hh] at ha
    | some head =>
      rw [hh] at ha
      have := sizeOf_lt_of_mem_children (mem_children_of_nameHead? hh)
      have := sizeOf_lt_of_mem_arguments (n := head) ha
      omega
  split at h
  · rw [List.mem_append] at h
    rcases h with h | h
    · exact inner h
    · exact sizeOf_lt_of_mem_ownArguments h
  · split at h
    · exact inner h
    · simp at h
termination_by sizeOf n

theorem mem_children_of_mem_associationValue {n v : Node} (h : v ∈ n.associationValue) :
    v ∈ n.children := by
  simp only [associationValue] at h
  split at h
  · rename_i v' hv
    simp only [List.mem_singleton] at h
    subst h
    rcases Option.or_eq_some_iff.1 hv with hv | ⟨_, hv⟩ <;> exact mem_children_of_childUnder hv
  · split at h
    · rename_i hs
      exact mem_of_mem_splitAt? hs _ (List.mem_append_right _ (List.mem_filter.1 h).1)
    · exact mem_children_of_mem_namedChildren h

end Node

theorem sizeOf_lt_of_mem_scanParts {L : Lookup} {n p : Node} (h : p ∈ scanParts L n) :
    sizeOf p < sizeOf n := by
  simp only [scanParts] at h
  split at h
  · split at h
    · simp only [nameParts] at h
      split at h
      · simp at h
      · split at h
        · exact Node.sizeOf_lt_of_mem_arguments h
        · simp at h
    · exact Node.sizeOf_lt_of_mem_children (Node.mem_children_of_mem_namedChildren h)
  · split at h
    · exact Node.sizeOf_lt_of_mem_children (Node.mem_children_of_mem_zipIdx_filter h)
    · exact Node.sizeOf_lt_of_mem_children (Node.mem_children_of_mem_associationValue h)
    · exact Node.sizeOf_lt_of_mem_children (Node.mem_children_of_mem_associationValue h)
    · simp at h
    · simp at h
    · simp at h
    · split at h
      · simp at h
      · exact Node.sizeOf_lt_of_mem_children (Node.mem_children_of_mem_namedChildren h)

/-! ## Scanning -/

/-- The reads and calls of an expression. -/
def scan (L : Lookup) (n : Node) : Scan :=
  ownScan L n ++ Scan.concat ((scanParts L n).attach.map fun p => scan L p.1)
termination_by sizeOf n
decreasing_by exact sizeOf_lt_of_mem_scanParts p.2

theorem scan_eq (L : Lookup) (n : Node) :
    scan L n = ownScan L n ++ Scan.concat ((scanParts L n).map (scan L)) := by
  rw [scan]
  simp

/-- The reads and calls of a row of expressions. -/
def scanAll (L : Lookup) (ns : List Node) : Scan := Scan.concat (ns.map (scan L))

end DesignFacts

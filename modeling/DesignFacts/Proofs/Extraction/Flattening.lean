import DesignFacts.Extraction.Walk
import Mathlib.Data.List.Basic

/-!
# Generates are flattened

`walk` gathers the body of a generate statement in a harvest of its own, copies some of it into the
statement, and lets the harvest around it absorb the rest. This file compares it with a walk that
knows no harvests of bodies: `walkInto` goes through the same visits, but writes everything, also
inside generate statements, straight into one record of flat lists.

A record is a list for every `FlatList`. These are all lists of a harvest but two: the generate
statements, which form a tree, and the references, which are grouped by bodies.

The two walks agree because what `walkInto` appends to a list does not depend on what the list
holds already: it is what `walk` has in that list (`walkInto_apply`).

Main result: `walk_flatList`.
-/

namespace DesignFacts

/-! ## Flat lists -/

/-- The flat lists of a harvest, by what they list. -/
inductive FlatList : Type → Type
  | entities : FlatList Entity
  | architectures : FlatList Architecture
  | packages : FlatList Package
  | configurations : FlatList Configuration
  | components : FlatList Component
  | instances : FlatList Instance
  | useClauses : FlatList UseClause
  | libraryClauses : FlatList LibraryClause
  | contextClauses : FlatList ContextClause
  | ports : FlatList Port
  | generics : FlatList Port
  | signals : FlatList Signal
  | constants : FlatList Constant
  | sharedVariables : FlatList SharedVariable
  | types : FlatList TypeDeclaration
  | subtypes : FlatList SubtypeDeclaration
  | functions : FlatList FunctionDeclaration
  | procedures : FlatList ProcedureDeclaration
  | processes : FlatList ProcessStatement
  | assignments : FlatList ConcurrentAssignment
  | caseStatements : FlatList CaseStatement
  | comparisons : FlatList Comparison
  | arithmeticOps : FlatList ArithmeticOp
  | signalDeps : FlatList SignalDep
  | enumLiterals : FlatList Text
  | constantNames : FlatList Text

namespace FlatList

def of {α : Type} : FlatList α → Harvest → List α
  | entities, h => h.entities
  | architectures, h => h.architectures
  | packages, h => h.packages
  | configurations, h => h.configurations
  | components, h => h.components
  | instances, h => h.instances
  | useClauses, h => h.useClauses
  | libraryClauses, h => h.libraryClauses
  | contextClauses, h => h.contextClauses
  | ports, h => h.ports
  | generics, h => h.generics
  | signals, h => h.signals
  | constants, h => h.constants
  | sharedVariables, h => h.sharedVariables
  | types, h => h.types
  | subtypes, h => h.subtypes
  | functions, h => h.functions
  | procedures, h => h.procedures
  | processes, h => h.processes
  | assignments, h => h.assignments
  | caseStatements, h => h.caseStatements
  | comparisons, h => h.comparisons
  | arithmeticOps, h => h.arithmeticOps
  | signalDeps, h => h.signalDeps
  | enumLiterals, h => h.enumLiterals
  | constantNames, h => h.constantNames

variable {α : Type}

@[simp] theorem of_empty (l : FlatList α) : l.of {} = [] := by cases l <;> rfl

@[simp] theorem of_append (l : FlatList α) (a b : Harvest) : l.of (a ++ b) = l.of a ++ l.of b := by
  cases l <;> rfl

@[simp] theorem of_concat (l : FlatList α) (hs : List Harvest) :
    l.of (.concat hs) = hs.flatMap l.of := by
  induction hs with
  | nil => exact l.of_empty
  | cons h hs ih =>
    rw [List.flatMap_cons, ← ih]
    exact l.of_append h (.concat hs)

/-- Absorbing a body loses, repeats and reorders nothing in a flat list. -/
@[simp] theorem of_absorb (l : FlatList α) (a body : Harvest) :
    l.of (a.absorb body) = l.of a ++ l.of body := by
  rw [← l.of_append]
  cases l <;> rfl

theorem of_generateHarvest (l : FlatList α) (scope : Scope) (n : Node) (body : Harvest) :
    l.of (generateHarvest scope n body) = l.of body := by
  unfold generateHarvest
  rw [of_absorb]
  cases l <;> rfl

end FlatList

/-! ## Walking into one record -/

/-- A list of facts for every flat list. -/
abbrev Record := (α : Type) → FlatList α → List α

namespace Record

/-- The record without facts. -/
def empty : Record := fun _ _ => []

/-- Append a contribution to every list. -/
def add (r : Record) (own : Harvest) : Record := fun α l => r α l ++ l.of own

end Record

/-- Walk a node into a record. The body of a generate statement is walked like all other nodes,
in its own scope and with its own name tables. -/
def walkInto (config : Config) (L : Lookup) (scope : Scope) (n : Node) (r : Record) : Record :=
  match _h : visit config L scope n with
  | .construct own inner next =>
    next.attach.foldl (fun r c => walkInto config L inner c.1 r) (r.add own)
  | .generate =>
    let header := GenerateHeader.ofNode n
    header.body.attach.foldl (fun r c =>
      walkInto config (L.withParameter (header.parameter?.map Text.lower))
        (scope.inGenerate header.label) c.1 r) r
termination_by sizeOf n
decreasing_by
  · exact Node.sizeOf_lt_of_mem_children (mem_children_of_visit _h c.2)
  · exact GenerateHeader.sizeOf_lt_of_mem_body c.2

/-- Walking nodes one after another appends what each of them appends. -/
theorem foldl_append_apply {α β : Type} (l : FlatList α) (f : β → Record → Record)
    (g : β → List α) (ns : List β) (h : ∀ n ∈ ns, ∀ r, f n r α l = r α l ++ g n) (r : Record) :
    (ns.foldl (fun r n => f n r) r) α l = r α l ++ ns.flatMap g := by
  induction ns generalizing r with
  | nil => simp
  | cons n ns ih =>
    rw [List.foldl_cons, ih (fun m hm => h m (List.mem_cons_of_mem n hm)),
      h n List.mem_cons_self, List.flatMap_cons, List.append_assoc]

theorem walkInto_eq (config : Config) (L : Lookup) (scope : Scope) (n : Node) (r : Record) :
    walkInto config L scope n r =
      match visit config L scope n with
      | .construct own inner next =>
        next.foldl (fun r c => walkInto config L inner c r) (r.add own)
      | .generate =>
        (GenerateHeader.ofNode n).body.foldl (fun r c =>
          walkInto config (generateLookup L n)
            (scope.inGenerate (GenerateHeader.ofNode n).label) c r) r := by
  rw [walkInto]
  split
  · rename_i own inner next h
    rw [h]
    exact List.foldl_attach (f := fun r c => walkInto config L inner c r)
  · rename_i h
    rw [h]
    exact List.foldl_attach (f := fun r c => walkInto config (generateLookup L n)
      (scope.inGenerate (GenerateHeader.ofNode n).label) c r)

/-- What a node appends to a list is what its harvest has in it. -/
theorem walkInto_apply {α : Type} (l : FlatList α) (config : Config) (L : Lookup) (scope : Scope)
    (n : Node) (r : Record) :
    walkInto config L scope n r α l = r α l ++ l.of (walk config L scope n) := by
  -- The induction follows the visits: over the next nodes, or over the body of a generate.
  induction L, scope, n using walk.induct config generalizing r with
  | case1 L scope n own inner next hvisit ih =>
    rw [walk_eq, walkInto_eq, hvisit]
    dsimp only
    rw [foldl_append_apply l (walkInto config L inner) (fun c => l.of (walk config L inner c)) next
      (fun c hc r => ih ⟨c, hc⟩ r)]
    simp [Record.add, List.flatMap_map]
  | case2 L scope n hvisit header ih =>
    rw [walk_eq, walkInto_eq, hvisit]
    dsimp only
    rw [foldl_append_apply l (walkInto config (generateLookup L n) (scope.inGenerate header.label))
      (fun c => l.of (walk config (generateLookup L n) (scope.inGenerate header.label) c))
      header.body (fun c hc r => ih ⟨c, hc⟩ r)]
    simp [FlatList.of_generateHarvest, List.flatMap_map, header]

/-- **Flattening generates loses, repeats and reorders nothing.** Every flat list of a harvest is
the one that a walk straight into a single record makes, at any depth of generate statements. -/
theorem walk_flatList {α : Type} (l : FlatList α) (config : Config) (L : Lookup) (scope : Scope)
    (n : Node) : l.of (walk config L scope n) = walkInto config L scope n .empty α l := by
  rw [walkInto_apply]
  rfl

end DesignFacts

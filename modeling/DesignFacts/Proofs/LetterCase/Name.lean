import DesignFacts.Name.Scan
import DesignFacts.Proofs.LetterCase.Tree
import Mathlib.Tactic.Simps.Basic

/-!
# Letter case of names

Resolving and scanning over a source in small letters.

**Resolving.** The parts of a name are found by their kinds, fields and places, so the heads of a
name stay where they are, and its base, path and arguments become small (`resolve_lower`).

**Scanning.** Name tables are asked in small letters. So an occurrence of a name is a read, a call
or neither whatever its letter case, and the same reads and calls are found in the same order.

Main result: `scan_lower`.
-/

namespace DesignFacts

open Text

/-! ## Resolved names -/

/-- A resolved name in small letters. -/
@[simps]
def ResolvedName.lower (r : ResolvedName) : ResolvedName where
  base := Text.lower r.base
  path := Text.lower r.path
  isIndexed := r.isIndexed
  isAttribute := r.isAttribute
  isCall := r.isCall
  designator := r.designator.map Text.lower
  indices := r.indices.map Text.lower
  line := r.line

@[simp] theorem ResolvedName.lastSegment_lower (r : ResolvedName) :
    r.lower.lastSegment = Text.lower r.lastSegment := by
  simp [lastSegment]

namespace Node

variable (n : Node)

@[simp] theorem headIndex?_lower : n.lower.headIndex? = n.headIndex? := by
  simp [headIndex?, Function.comp_def]

@[simp] theorem head?_lower : n.lower.head? = n.head?.map lower := by
  simp only [head?, headIndex?_lower, children_lower, List.getElem?_map, Option.map_bind,
    Function.comp_def]

@[simp] theorem nameHead?_lower : n.lower.nameHead? = n.nameHead?.map lower := by
  simp [nameHead?, Option.filter_map, Function.comp_def]

@[simp] theorem selectedHead?_lower : n.lower.selectedHead? = n.selectedHead?.map lower := by
  simp [selectedHead?, Option.map_or]

@[simp] theorem suffix?_lower : n.lower.suffix? = n.suffix?.map lower := by
  simp [suffix?, Option.map_or]

@[simp] theorem isArgumentList_lower : n.lower.isArgumentList = n.isArgumentList := by
  simp [isArgumentList]

@[simp] theorem besideHead_lower : n.lower.besideHead = n.besideHead.map lower := by
  simp [besideHead, List.zipIdx_map, List.filter_map, Function.comp_def]

@[simp] theorem ownArguments_lower : n.lower.ownArguments = n.ownArguments.map lower := by
  simp only [ownArguments, besideHead_lower, List.flatMap_map, List.map_flatMap]
  congr 1
  funext c
  by_cases hlist : c.isArgumentList <;> simp [hlist]

@[simp] theorem arguments_lower (n : Node) : n.lower.arguments = n.arguments.map lower := by
  have hinner : (n.lower.nameHead?.map arguments).getD [] =
      ((n.nameHead?.map arguments).getD []).map lower := by
    rw [nameHead?_lower]
    cases hhead : n.nameHead? with
    | none => rfl
    | some head =>
      have := sizeOf_lt_of_mem_children (mem_children_of_nameHead? hhead)
      exact arguments_lower head
  rw [arguments_eq, arguments_eq, hinner, kind_lower, ownArguments_lower]
  split
  · rw [List.map_append]
  · split <;> rfl
termination_by sizeOf n

end Node

/-! ## Names in texts -/

@[simp] theorem nameOfText_lower (t : Text) (line : Nat) :
    nameOfText (lower t) line = (nameOfText t line).lower := by
  simp [nameOfText, ResolvedName.lower]

@[simp] theorem callOfText_lower (t : Text) (line : Nat) :
    callOfText (lower t) line = (callOfText t line).map ResolvedName.lower := by
  simp only [callOfText, cut_lower _ (show ['('].all (!·.isAlpha) = true by decide)]
  cases cut ['('] t with
  | none => rfl
  | some parts =>
    obtain ⟨head, rest⟩ := parts
    by_cases hhead : (trim head).isEmpty
    · simp [hhead]
    · simp [hhead, ResolvedName.lower, Function.comp_def, List.filter_map]

@[simp] theorem nameBeforeTick_lower (t : Text) (line : Nat) :
    nameBeforeTick (lower t) line = (nameBeforeTick t line).map ResolvedName.lower := by
  simp only [nameBeforeTick, before_lower _ (show '\''.isAlpha = false by decide), trim_lower,
    isEmpty_lower, nameOfText_lower]
  split <;> rfl

/-! ## Views -/

/-- An application in small letters. -/
def Application.lower : Application → Application
  | selection suffix => .selection (Text.lower suffix)
  | arguments texts => .arguments (texts.map Text.lower)
  | attr designator => .attr (Text.lower designator)

@[simp] theorem Application.apply_lower (a : Application) (r : ResolvedName) :
    a.lower.apply r.lower = (a.apply r).lower := by
  cases a <;> simp [Application.lower, apply, ResolvedName.lower]

/-- A view in small letters. -/
def NameView.lower : NameView → NameView
  | root r => .root r.lower
  | applied a head => .applied a.lower head.lower
  | noName => .noName

theorem NameView.ofRoot_lower (o : Option ResolvedName) :
    ofRoot (o.map ResolvedName.lower) = (ofRoot o).lower := by
  cases o <;> rfl

namespace Node

variable (n : Node)

@[simp] theorem designator_lower : n.lower.designator = Text.lower n.designator := by
  have hfound : (n.lower.childUnder "designator").or
      ((n.lower.childUnder "attribute").or n.lower.namedChildren[1]?) =
      ((n.childUnder "designator").or
        ((n.childUnder "attribute").or n.namedChildren[1]?)).map lower := by
    simp [Option.map_or]
  rw [designator, designator, hfound]
  cases (n.childUnder "designator").or ((n.childUnder "attribute").or n.namedChildren[1]?) <;> simp

theorem selectionView_lower : n.lower.selectionView = n.selectionView.lower := by
  simp only [selectionView, namedChildren_lower, List.length_map, text_lower, line_lower,
    nameOfText_lower, selectedHead?_lower, suffix?_lower]
  split
  · rfl
  · cases n.selectedHead? <;> cases n.suffix? <;>
      simp [NameView.lower, Application.lower]

theorem indexedView_lower : n.lower.indexedView = n.indexedView.lower := by
  simp only [indexedView, nameHead?_lower, text_lower, line_lower, callOfText_lower,
    NameView.ofRoot_lower]
  cases n.nameHead? <;> simp [NameView.lower, Application.lower, Function.comp_def]

theorem attributeView_lower : n.lower.attributeView = n.attributeView.lower := by
  simp only [attributeView, nameHead?_lower, text_lower, line_lower, nameBeforeTick_lower,
    designator_lower, Option.map_map]
  cases n.nameHead? with
  | none =>
    simp only [Option.map_none, ← NameView.ofRoot_lower, Option.map_map]
    rfl
  | some head => rfl

theorem nameView_lower : n.lower.nameView = n.nameView.lower := by
  simp only [nameView, kind_lower]
  cases n.kind with
  | identifier => simp [NameView.lower, ResolvedName.lower]
  | selectedName => exact n.selectionView_lower
  | indexedName | sliceName | functionCall => exact n.indexedView_lower
  | attributeName => exact n.attributeView_lower
  | _ => rfl

@[simp] theorem spineHead?_lower : n.lower.spineHead? = n.spineHead?.map lower := by
  simp only [spineHead?, kind_lower, namedChildren_lower, List.length_map, selectedHead?_lower,
    nameHead?_lower]
  split <;> try rfl
  split <;> rfl

@[simp] theorem resolvesFar_lower (n : Node) : n.lower.resolvesFar = n.resolvesFar := by
  rw [resolvesFar_eq, resolvesFar_eq, isFar_lower, spineHead?_lower]
  cases hhead : n.spineHead? with
  | none => rfl
  | some head =>
    have := sizeOf_lt_of_mem_children (mem_children_of_spineHead? hhead)
    simp [resolvesFar_lower head]
termination_by sizeOf n

end Node

/-! ## Resolving -/

theorem resolveSpine_lower (n : Node) :
    resolveSpine n.lower = (resolveSpine n).map ResolvedName.lower := by
  rw [resolveSpine_eq, resolveSpine_eq, Node.nameView_lower]
  cases hview : n.nameView with
  | root r => rfl
  | noName => rfl
  | applied a head =>
    have := Node.sizeOf_lt_of_mem_children (Node.mem_children_of_nameView hview)
    simp only [NameView.lower, resolveSpine_lower head, Option.map_map]
    congr 1
    funext r
    exact a.apply_lower r
termination_by sizeOf n

/-- A name resolves to the same name in small letters. -/
@[simp] theorem resolve_lower (L : Lookup) (n : Node) :
    resolve L n.lower = (resolve L n).map ResolvedName.lower := by
  rw [resolve, resolve, resolveSpine_lower, Option.map_map, Option.map_map]
  congr 1
  funext r
  simp [ResolvedName.lower]

/-! ## Scanning -/

/-- A call in small letters. -/
def CallSite.lower (c : CallSite) : CallSite where
  name := Text.lower c.name
  args := c.args.map Text.lower
  line := c.line

namespace Scan

/-- The reads and calls in small letters. -/
def lower (s : Scan) : Scan where
  reads := s.reads.map ResolvedName.lower
  calls := s.calls.map CallSite.lower
  farLine := s.farLine

theorem append_lower (a b : Scan) : a.lower ++ b.lower = (a ++ b).lower := by
  show append a.lower b.lower = (append a b).lower
  simp [append, lower]

theorem concat_lower (ss : List Scan) : concat (ss.map lower) = (concat ss).lower := by
  induction ss with
  | nil => rfl
  | cons s ss ih =>
    rw [List.map_cons, concat, List.foldr_cons]
    exact (congrArg (append s.lower) ih).trans (append_lower s (concat ss))

@[simp] theorem readPaths_lower (s : Scan) : s.lower.readPaths = s.readPaths.map Text.lower := by
  rw [readPaths, readPaths, ← distinct_lower]
  simp [lower, ResolvedName.lower, Function.comp_def]

end Scan

/-- Whether a name is read or called does not depend on letter case. -/
@[simp] theorem classify_lower (L : Lookup) (r : ResolvedName) :
    classify L r.lower = classify L r := by
  rw [classify, classify, ResolvedName.lastSegment_lower]
  simp [ResolvedName.lower]

theorem contribution_lower (L : Lookup) (n : Node) (r : ResolvedName) :
    contribution L n.lower r.lower = (contribution L n r).lower := by
  rw [contribution, contribution, classify_lower]
  cases classify L r <;> simp [Scan.lower, CallSite.lower, ResolvedName.lower, Function.comp_def]

theorem ownScan_lower (L : Lookup) (n : Node) : ownScan L n.lower = (ownScan L n).lower := by
  simp only [ownScan, Node.kind_lower, resolve_lower, Node.resolvesFar_lower]
  split
  · cases resolve L n with
    | none => rfl
    | some r => simp only [Option.map_some, Option.getD_some, contribution_lower]; rfl
  · rfl

namespace Node

variable (n : Node)

theorem associationValue_lower : n.lower.associationValue = n.associationValue.map lower := by
  have hfound : (n.lower.childUnder "value").or (n.lower.childUnder "actual") =
      ((n.childUnder "value").or (n.childUnder "actual")).map lower := by
    simp [Option.map_or]
  rw [associationValue, associationValue, hfound, children_lower, splitAt?_isToken_lower,
    namedChildren_lower]
  cases (n.childUnder "value").or (n.childUnder "actual") with
  | some v => rfl
  | none =>
    cases splitAt? (·.isToken "=>") n.children <;> simp [List.filter_map, Function.comp_def]

@[simp] theorem typeMarkIndex?_lower : n.lower.typeMarkIndex? = n.typeMarkIndex? := by
  simp [typeMarkIndex?, Function.comp_def]

theorem qualifiedOperand_lower : n.lower.qualifiedOperand = n.qualifiedOperand.map lower := by
  simp [qualifiedOperand, List.zipIdx_map, List.filter_map, Function.comp_def]

end Node

theorem nameParts_lower (L : Lookup) (n : Node) (r : ResolvedName) :
    nameParts L n.lower r.lower = (nameParts L n r).map Node.lower := by
  rw [nameParts, nameParts, classify_lower, Node.arguments_lower, ResolvedName.lower_isAttribute,
    ResolvedName.lower_isIndexed]
  split
  · rfl
  · split <;> rfl

theorem scanParts_lower (L : Lookup) (n : Node) :
    scanParts L n.lower = (scanParts L n).map Node.lower := by
  simp only [scanParts, Node.kind_lower, resolve_lower, Node.qualifiedOperand_lower,
    Node.associationValue_lower, Node.namedChildren_lower]
  split
  · cases resolve L n with
    | none => rfl
    | some r => exact nameParts_lower L n r
  · split <;> try rfl
    split <;> rfl

/-- **Scanning ignores letter case.** -/
theorem scan_lower (L : Lookup) (n : Node) : scan L n.lower = (scan L n).lower := by
  have hparts : ((scanParts L n).map Node.lower).map (scan L) =
      ((scanParts L n).map (scan L)).map Scan.lower := by
    rw [List.map_map, List.map_map]
    refine List.map_congr_left fun p hp => ?_
    have := sizeOf_lt_of_mem_scanParts hp
    exact scan_lower L p
  rw [scan_eq, scan_eq, ownScan_lower, scanParts_lower, hparts, Scan.concat_lower,
    Scan.append_lower]
termination_by sizeOf n

@[simp] theorem scanAll_lower (L : Lookup) (ns : List Node) :
    scanAll L (ns.map Node.lower) = (scanAll L ns).lower := by
  rw [scanAll, scanAll, ← Scan.concat_lower, List.map_map, List.map_map]
  congr 2
  funext n
  exact scan_lower L n

end DesignFacts

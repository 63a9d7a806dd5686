import DesignFacts.Proofs.Table.Nesting
import Mathlib.Algebra.BigOperators.Group.List.Basic
import Mathlib.Algebra.GroupWithZero.Nat
import Mathlib.Data.Char
import Mathlib.Data.List.Lex
import Mathlib.Data.List.Sort

/-!
# The tables are complete

`Tables.ofFiles` sorts the files by their paths and joins their tables. If no two files have the
same path, there is only one sorted order (`inOrder_eq_of_perm`), so the order of arrival is
forgotten, and the rows of a file can be told apart from all others by their path.

**Columns.** Each of the eighteen tables is a column: a function from `Tables` to a list that is
empty without files and follows the joining of tables (`IsColumn`). What holds of all tables alike
is proved once for columns: a column of all files lists the columns of the files in order
(`column_ofFiles`), and what it says about one file is what the file says
(`factsOf_column_ofFiles`).

Main result: `ofFiles_complete`.
-/

namespace DesignFacts

/-! ## The order of paths -/

/-- Texts are ordered as lists of characters. -/
theorem Text.precedes_iff_lt (a b : Text) : Text.precedes a b = true ↔ a < b := by
  induction a generalizing b with
  | nil => cases b <;> simp [Text.precedes]
  | cons c a ih =>
    cases b with
    | nil => simp [Text.precedes]
    | cons d b =>
      rw [Text.precedes, List.cons_lt_cons_iff, ← ih]
      simp [Char.lt_def]

namespace Tables

theorem pairwise_inOrder (fs : List FileFacts) :
    (inOrder fs).Pairwise fun a b => a.file ≤ b.file := by
  have hle (a b : FileFacts) : (!Text.precedes b.file a.file) = true ↔ a.file ≤ b.file := by
    rw [Bool.not_eq_true', Bool.eq_false_iff, Ne, Text.precedes_iff_lt, not_lt]
  have hsorted : (inOrder fs).Pairwise fun a b => (!Text.precedes b.file a.file) = true :=
    List.pairwise_mergeSort
      (fun a b c hab hbc => (hle a c).2 (le_trans ((hle a b).1 hab) ((hle b c).1 hbc)))
      (fun a b => by rw [Bool.or_eq_true, hle, hle]; exact le_total _ _) fs
  exact hsorted.imp fun {a b} => (hle a b).1

theorem inOrder_perm (fs : List FileFacts) : (inOrder fs).Perm fs := List.mergeSort_perm fs _

/-- Files with one path are one file. -/
theorem eq_of_file_eq {fs : List FileFacts} (hpaths : (fs.map (·.file)).Nodup) {a b : FileFacts}
    (ha : a ∈ fs) (hb : b ∈ fs) (hab : a.file = b.file) : a = b :=
  List.inj_on_of_nodup_map hpaths ha hb hab

/-- There is one order of the paths. -/
theorem inOrder_eq_of_perm {fs fs' : List FileFacts} (hpaths : (fs.map (·.file)).Nodup)
    (hperm : fs'.Perm fs) : inOrder fs' = inOrder fs := by
  have hboth : (inOrder fs').Perm (inOrder fs) :=
    (inOrder_perm fs').trans (hperm.trans (inOrder_perm fs).symm)
  refine hboth.eq_of_pairwise (fun a b ha hb hab hba => ?_) (pairwise_inOrder fs')
    (pairwise_inOrder fs)
  exact eq_of_file_eq hpaths ((hperm.mem_iff).1 ((inOrder_perm fs').mem_iff.1 ha))
    ((inOrder_perm fs).mem_iff.1 hb) (le_antisymm hab hba)

/-! ## Columns -/

/-- A list of the tables that is joined when tables are joined. -/
structure IsColumn {α : Type} (column : Tables → List α) : Prop where
  empty : column {} = []
  append (a b : Tables) : column (append a b) = column a ++ column b

variable {α : Type} {column : Tables → List α}

theorem column_ofFiles (h : IsColumn column) (fs : List FileFacts) :
    column (ofFiles fs) = (inOrder fs).flatMap fun f => column (ofFile f) := by
  unfold Tables.ofFiles
  induction inOrder fs with
  | nil => exact h.empty
  | cons f rest ih =>
    rw [List.map_cons, List.foldr_cons, h.append, ih]
    rfl

/-- What rows say about a file. -/
def factsOf (rows : List (Row α)) (path : Text) : List α :=
  (rows.filter fun r => r.file = path).map Row.fact

theorem factsOf_append (rows rows' : List (Row α)) (path : Text) :
    factsOf (rows ++ rows') path = factsOf rows path ++ factsOf rows' path := by
  simp [factsOf]

theorem factsOf_map_mk (file path : Text) (facts : List α) :
    factsOf (facts.map (Row.mk file)) path = if file = path then facts else [] := by
  by_cases h : file = path <;> simp [factsOf, h, List.filter_map, Function.comp_def]

section

variable {column : Tables → List (Row α)} {facts : FileFacts → List α}
  (hfacts : ∀ f, column (ofFile f) = (facts f).map (Row.mk f.file))
include hfacts

theorem factsOf_flatMap_eq_nil {path : Text} {fs : List FileFacts}
    (hother : ∀ f ∈ fs, f.file ≠ path) :
    factsOf (fs.flatMap fun f => column (ofFile f)) path = [] := by
  induction fs with
  | nil => rfl
  | cons f fs ih =>
    rw [List.flatMap_cons, factsOf_append, hfacts, factsOf_map_mk, if_neg (hother f (by simp)),
      ih fun g hg => hother g (by simp [hg]), List.nil_append]

/-- A column of all files says about a file what the file says. -/
theorem factsOf_column_ofFiles (h : IsColumn column) {fs : List FileFacts}
    (hpaths : (fs.map (·.file)).Nodup) {f : FileFacts} (hf : f ∈ fs) :
    factsOf (column (ofFiles fs)) f.file = facts f := by
  have hnodup : ((inOrder fs).map (·.file)).Nodup :=
    ((inOrder_perm fs).map _).nodup_iff.2 hpaths
  -- The rows before and behind those of `f` carry other paths.
  obtain ⟨pre, post, hsplit⟩ := List.append_of_mem ((inOrder_perm fs).mem_iff.2 hf)
  rw [hsplit, List.map_append, List.map_cons, List.nodup_append] at hnodup
  obtain ⟨-, hpost, hpre⟩ := hnodup
  have hbefore : ∀ g ∈ pre, g.file ≠ f.file := fun g hg =>
    hpre _ (List.mem_map_of_mem hg) _ (by simp)
  have hbehind : ∀ g ∈ post, g.file ≠ f.file := fun g hg hfile =>
    (List.nodup_cons.1 hpost).1 (hfile ▸ List.mem_map_of_mem hg)
  rw [column_ofFiles h, hsplit, List.flatMap_append, List.flatMap_cons, factsOf_append,
    factsOf_append, factsOf_flatMap_eq_nil hfacts hbefore, factsOf_flatMap_eq_nil hfacts hbehind,
    hfacts, factsOf_map_mk, if_pos rfl, List.nil_append, List.append_nil]

end

/-! ## Completeness -/

/-- The paths in all rows, table by table. -/
def rowFiles (t : Tables) : List Text :=
  t.files.map Row.file ++ t.entities.map Row.file ++ t.architectures.map Row.file
    ++ t.packages.map Row.file ++ t.ports.map Row.file ++ t.signals.map Row.file
    ++ t.instances.map Row.file ++ t.dependencies.map Row.file ++ t.useClauses.map Row.file
    ++ t.libraryClauses.map Row.file ++ t.contextClauses.map Row.file ++ t.processes.map Row.file
    ++ t.generates.map Row.file ++ t.types.map Row.file ++ t.subtypes.map Row.file
    ++ t.functions.map Row.file ++ t.procedures.map Row.file ++ t.constants.map Row.file

/-- The tables say about a file what the file says, table by table. -/
structure Lists (t : Tables) (f : FileFacts) : Prop where
  files : factsOf t.files f.file = [f.count]
  entities : factsOf t.entities f.file = f.entities
  architectures : factsOf t.architectures f.file = f.architectures
  packages : factsOf t.packages f.file = f.packages
  ports : factsOf t.ports f.file = f.generics ++ f.ports
  signals : factsOf t.signals f.file = f.signals
  instances : factsOf t.instances f.file = f.instances
  dependencies : factsOf t.dependencies f.file = f.dependencies
  useClauses : factsOf t.useClauses f.file = f.useClauses
  libraryClauses : factsOf t.libraryClauses f.file = f.libraryClauses
  contextClauses : factsOf t.contextClauses f.file = f.contextClauses
  processes : factsOf t.processes f.file = f.processes
  generates : (factsOf t.generates f.file).map NestedGenerate.generate =
    Generate.walkAll f.generates
  parents (i : Nat) (row : NestedGenerate) : (factsOf t.generates f.file)[i]? = some row ↔
    ∃ around, Generate.Placed f.generates i around row.generate ∧
      row.parent = Generate.labelOr [] around
  types : factsOf t.types f.file = f.types
  subtypes : factsOf t.subtypes f.file = f.subtypes
  functions : factsOf t.functions f.file = f.functions
  procedures : factsOf t.procedures f.file = f.procedures
  constants : factsOf t.constants f.file = f.constants

/-- The number of rows that a file should have. -/
def rowsNeeded (f : FileFacts) : Nat :=
  1 + f.entities.length + f.architectures.length + f.packages.length + f.generics.length
    + f.ports.length + f.signals.length + f.instances.length + f.dependencies.length
    + f.useClauses.length + f.libraryClauses.length + f.contextClauses.length
    + f.processes.length + f.types.length + f.subtypes.length + f.functions.length
    + f.procedures.length + f.constants.length + (Generate.walkAll f.generates).length

theorem lists_ofFiles {fs : List FileFacts} (hpaths : (fs.map (·.file)).Nodup) {f : FileFacts}
    (hf : f ∈ fs) : (ofFiles fs).Lists f := by
  have hrows {β : Type} (column : Tables → List (Row β)) (facts : FileFacts → List β)
      (h : IsColumn column)
      (hfacts : ∀ f, column (ofFile f) = (facts f).map (Row.mk f.file)) :
      factsOf (column (ofFiles fs)) f.file = facts f := factsOf_column_ofFiles hfacts h hpaths hf
  -- The one column that is no plain list of the file: nested statements become rows of their own.
  have hgenerates : factsOf (ofFiles fs).generates f.file = Generate.nestedAll [] f.generates :=
    hrows Tables.generates _ ⟨rfl, fun _ _ => rfl⟩ fun _ => rfl
  exact {
    files := hrows Tables.files (fun f => [f.count]) ⟨rfl, fun _ _ => rfl⟩ fun _ => rfl
    entities := hrows Tables.entities _ ⟨rfl, fun _ _ => rfl⟩ fun _ => rfl
    architectures := hrows Tables.architectures _ ⟨rfl, fun _ _ => rfl⟩ fun _ => rfl
    packages := hrows Tables.packages _ ⟨rfl, fun _ _ => rfl⟩ fun _ => rfl
    ports := hrows Tables.ports _ ⟨rfl, fun _ _ => rfl⟩ fun _ => rfl
    signals := hrows Tables.signals _ ⟨rfl, fun _ _ => rfl⟩ fun _ => rfl
    instances := hrows Tables.instances _ ⟨rfl, fun _ _ => rfl⟩ fun _ => rfl
    dependencies := hrows Tables.dependencies _ ⟨rfl, fun _ _ => rfl⟩ fun _ => rfl
    useClauses := hrows Tables.useClauses _ ⟨rfl, fun _ _ => rfl⟩ fun _ => rfl
    libraryClauses := hrows Tables.libraryClauses _ ⟨rfl, fun _ _ => rfl⟩ fun _ => rfl
    contextClauses := hrows Tables.contextClauses _ ⟨rfl, fun _ _ => rfl⟩ fun _ => rfl
    processes := hrows Tables.processes _ ⟨rfl, fun _ _ => rfl⟩ fun _ => rfl
    generates := by rw [hgenerates, Generate.map_generate_nestedAll]
    parents := fun i row => by rw [hgenerates, Generate.getElem?_nestedAll_iff]
    types := hrows Tables.types _ ⟨rfl, fun _ _ => rfl⟩ fun _ => rfl
    subtypes := hrows Tables.subtypes _ ⟨rfl, fun _ _ => rfl⟩ fun _ => rfl
    functions := hrows Tables.functions _ ⟨rfl, fun _ _ => rfl⟩ fun _ => rfl
    procedures := hrows Tables.procedures _ ⟨rfl, fun _ _ => rfl⟩ fun _ => rfl
    constants := hrows Tables.constants _ ⟨rfl, fun _ _ => rfl⟩ fun _ => rfl }

/-! ## All rows -/

theorem rowCount_append (a b : Tables) : (append a b).rowCount = a.rowCount + b.rowCount := by
  unfold rowCount
  dsimp only [append]
  simp only [List.length_append]
  omega

theorem rowCount_ofFile (f : FileFacts) : (ofFile f).rowCount = rowsNeeded f := by
  unfold rowCount rowsNeeded
  dsimp only [ofFile]
  simp only [List.length_map, List.length_append, List.length_singleton, Generate.length_nestedAll]
  omega

theorem rowCount_ofFiles (fs : List FileFacts) :
    (ofFiles fs).rowCount = (fs.map rowsNeeded).sum := by
  rw [← ((inOrder_perm fs).map rowsNeeded).sum_eq]
  unfold ofFiles
  induction inOrder fs with
  | nil => rfl
  | cons f rest ih =>
    rw [List.map_cons, List.foldr_cons, rowCount_append, ih, rowCount_ofFile, List.map_cons,
      List.sum_cons]

theorem mem_rowFiles_append {a b : Tables} {path : Text} (h : path ∈ (append a b).rowFiles) :
    path ∈ a.rowFiles ∨ path ∈ b.rowFiles := by
  unfold rowFiles at h ⊢
  dsimp only [append] at h
  simp only [List.map_append, List.mem_append] at h ⊢
  grind only

theorem eq_file_of_mem_rowFiles_ofFile {f : FileFacts} :
    ∀ path ∈ (ofFile f).rowFiles, path = f.file := by
  have hrows {α : Type} (facts : List α) :
      ∀ path ∈ (facts.map (Row.mk f.file)).map Row.file, path = f.file := by simp
  unfold rowFiles
  simp only [List.forall_mem_append]
  repeat' apply And.intro
  · exact hrows [f.count]
  all_goals exact hrows _

theorem mem_of_mem_rowFiles_ofFiles {fs : List FileFacts} {path : Text}
    (h : path ∈ (ofFiles fs).rowFiles) : path ∈ fs.map (·.file) := by
  rw [← ((inOrder_perm fs).map _).mem_iff]
  revert h
  unfold ofFiles
  induction inOrder fs with
  | nil => exact fun h => absurd h List.not_mem_nil
  | cons f rest ih =>
    intro h
    rw [List.map_cons, List.mem_cons]
    exact (mem_rowFiles_append h).imp (eq_file_of_mem_rowFiles_ofFile path) ih

/-- The paths of the files table are the sorted paths of the files. -/
theorem map_file_files_ofFiles (fs : List FileFacts) :
    (ofFiles fs).files.map Row.file = (inOrder fs).map (·.file) := by
  have hfiles : IsColumn Tables.files := ⟨rfl, fun _ _ => rfl⟩
  rw [column_ofFiles hfiles, List.map_flatMap, List.map_eq_flatMap]
  rfl

/-- **The tables are complete and do not depend on the order of the files.** For files with distinct
paths: every order gives the same tables; the files are listed by ascending path, each once; every
row carries the path of a file; there are as many rows as facts; and the rows of a file are its
facts in order, with its generate statements as in the walk over them, each after the label of the
one directly around it. -/
theorem ofFiles_complete (fs : List FileFacts) (hpaths : (fs.map (·.file)).Nodup) :
    (∀ fs' : List FileFacts, fs'.Perm fs → ofFiles fs' = ofFiles fs) ∧
    ((ofFiles fs).files.map Row.file).Pairwise (· < ·) ∧
    ((ofFiles fs).files.map Row.file).Perm (fs.map (·.file)) ∧
    (∀ path ∈ (ofFiles fs).rowFiles, path ∈ fs.map (·.file)) ∧
    (ofFiles fs).rowCount = (fs.map rowsNeeded).sum ∧
    ∀ f ∈ fs, (ofFiles fs).Lists f := by
  have hsorted : ((inOrder fs).map (·.file)).Pairwise (· ≤ ·) :=
    List.pairwise_map.2 (pairwise_inOrder fs)
  have hperm : ((inOrder fs).map (·.file)).Perm (fs.map (·.file)) := (inOrder_perm fs).map _
  rw [map_file_files_ofFiles]
  refine ⟨fun fs' hfs' => ?_, ?_, hperm, fun path => mem_of_mem_rowFiles_ofFiles,
    rowCount_ofFiles fs, fun f => lists_ofFiles hpaths⟩
  · rw [ofFiles, ofFiles, inOrder_eq_of_perm hpaths hfs']
  · exact (hsorted.and (hperm.nodup_iff.2 hpaths)).imp fun h => lt_of_le_of_ne h.1 h.2

/-- An `if` generate around others. -/
def conditional (label : Text) (generates : List Generate) : Generate where
  label := label
  scheme := .condition ['c']
  inArch := ['r']
  line := 1
  canElaborate := false
  iterationCount := -1
  signals := []
  instances := []
  processes := []
  assignments := []
  generates := generates

/-- A file of which nothing but generate statements is known. -/
def fileOf (path : Text) (generates : List Generate) : FileFacts where
  generates := generates
  file := path
  dependencies := []
  clockDomains := []
  resets := []
  usages := []
  crossings := []

/-- A file with a generate statement in another one in a third one, before an empty file. -/
def nestedThenEmpty : List FileFacts :=
  [fileOf ['b'] [conditional ['o'] [conditional ['m'] [conditional ['i'] []]]], fileOf ['a'] []]

theorem ofFiles_complete_nested :
    (nestedThenEmpty.map (·.file)).Nodup ∧
      ofFiles nestedThenEmpty.reverse = ofFiles nestedThenEmpty ∧
      (ofFiles nestedThenEmpty).rowCount = 5 ∧
      (factsOf (ofFiles nestedThenEmpty).generates ['b'])[2]? =
        some ⟨['m'], conditional ['i'] []⟩ := by
  have hpaths : (nestedThenEmpty.map (·.file)).Nodup := by decide
  obtain ⟨horder, -, -, -, hcount, hlists⟩ := ofFiles_complete nestedThenEmpty hpaths
  refine ⟨hpaths, horder _ (List.reverse_perm _), hcount, ?_⟩
  have hrows := hlists _ (List.mem_cons_self ..)
  have honly {gs : List Generate} {i : Nat} {around : Option Generate} {p g : Generate}
      (hp : Generate.Placed gs i around p) (hg : p.generates = [] ++ g :: []) :
      Generate.Placed gs (i + 1) (some p) g := hp.inner hg
  have hfirst (g : Generate) : Generate.Placed [g] 0 none g := .top (List.nil_append [g]).symm
  exact (hrows.parents 2 _).2 ⟨some _, honly (honly (hfirst _) rfl) rfl, rfl⟩

end Tables

end DesignFacts

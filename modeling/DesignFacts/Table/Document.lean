import DesignFacts.Document.Behaviour
import DesignFacts.Table.Basic

/-!
# Documents of tables

The columns of every table. What is missing in a fact is written as an empty text.
-/

namespace DesignFacts

open Document

/-- The document of a row: its columns, the file and the line. -/
def Row.document {α : Type} (columns : α → List (String × Document)) (line : α → Nat)
    (r : Row α) : Document :=
  object (columns r.fact ++ [("file", .text r.file), ("line", count (line r.fact))])

/-- A text that is empty if it is missing. -/
def orEmpty (t : Option Text) : Document := .text (t.getD [])

def NestedGenerate.columns (g : NestedGenerate) : List (String × Document) :=
  [("label", .text g.generate.label), ("kind", word g.generate.scheme.keyword),
    ("parent", .text g.parent), ("in_arch", .text g.generate.inArch),
    ("can_elaborate", .flag g.generate.canElaborate),
    ("iteration_count", .number g.generate.iterationCount)]

def ProcessStatement.columns (p : ProcessStatement) : List (String × Document) :=
  [("label", .text p.labelText), ("in_arch", .text p.inArch),
    ("is_sequential", .flag p.isSequential), ("is_combinational", .flag (p.kind == .combinational)),
    ("has_wait", .flag (p.kind == .waiting))]

def FunctionDeclaration.columns (f : FunctionDeclaration) : List (String × Document) :=
  [("name", .text f.name), ("return_type", .text f.returnType), ("is_pure", .flag f.isPure),
    ("has_body", .flag f.hasBody), ("in_package", orEmpty f.package),
    ("in_arch", orEmpty f.architecture)]

namespace Tables

def fields (t : Tables) : List (String × Document) :=
  [("files", rows (fun r : Row Nat =>
      object [("path", .text r.file), ("fact_count", count r.fact)]) t.files),
    ("entities", rows (Row.document (fun e => [("name", .text e.name)]) Entity.line) t.entities),
    ("architectures", rows (Row.document (fun a =>
      [("name", .text a.name), ("entity_name", .text a.entityName)]) Architecture.line)
      t.architectures),
    ("packages", rows (Row.document (fun p => [("name", .text p.name)]) Package.line) t.packages),
    ("ports", rows (Row.document (fun p =>
      [("entity", .text p.owner), ("name", .text p.name), ("direction", word p.direction.keyword),
        ("type", .text p.typeText)]) Port.line) t.ports),
    ("signals", rows (Row.document (fun s =>
      [("name", .text s.name), ("type", .text s.typeText), ("scope", .text s.scope)]) Signal.line)
      t.signals),
    ("instances", rows (Row.document (fun i =>
      [("name", .text i.name), ("target", .text i.target), ("in_arch", .text i.inArch)])
      Instance.line) t.instances),
    ("dependencies", rows (Row.document (fun d =>
      [("source", .text d.source), ("target", .text d.target), ("kind", word d.kind.keyword)])
      Dependency.line) t.dependencies),
    ("use_clauses", rows (Row.document (fun u => [("name", .text u.path)]) UseClause.line)
      t.useClauses),
    ("library_clauses", rows (Row.document (fun l => [("name", .text l.name)]) LibraryClause.line)
      t.libraryClauses),
    ("context_clauses", rows (Row.document (fun c => [("name", .text c.name)]) ContextClause.line)
      t.contextClauses),
    ("processes", rows (Row.document ProcessStatement.columns ProcessStatement.line) t.processes),
    ("generates", rows (Row.document NestedGenerate.columns (·.generate.line)) t.generates),
    ("types", rows (Row.document (fun d =>
      [("name", .text d.name), ("kind", word d.kind.keyword), ("in_package", orEmpty d.package),
        ("in_arch", orEmpty d.architecture)]) TypeDeclaration.line) t.types),
    ("subtypes", rows (Row.document (fun s =>
      [("name", .text s.name), ("base_type", .text s.baseType), ("in_package", orEmpty s.package),
        ("in_arch", orEmpty s.architecture)]) SubtypeDeclaration.line) t.subtypes),
    ("functions", rows (Row.document FunctionDeclaration.columns FunctionDeclaration.line)
      t.functions),
    ("procedures", rows (Row.document (fun p =>
      [("name", .text p.name), ("has_body", .flag p.hasBody), ("in_package", orEmpty p.package),
        ("in_arch", orEmpty p.architecture)]) ProcedureDeclaration.line) t.procedures),
    ("constants", rows (Row.document (fun c =>
      [("name", .text c.name), ("type", .text c.typeText), ("value", orEmpty c.value),
        ("in_package", orEmpty c.package), ("in_arch", orEmpty c.architecture)]) Constant.line)
      t.constants)]

def document (t : Tables) : Document := object t.fields

end Tables

end DesignFacts

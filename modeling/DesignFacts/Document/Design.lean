import DesignFacts.Declaration.Width
import DesignFacts.Document.Basic
import DesignFacts.Fact.Instance
import DesignFacts.Fact.Object

/-!
# Documents of declarations

How units, objects, types, subprograms and instances are written.
-/

namespace DesignFacts

open Document

/-! ## Units -/

def Port.document (p : Port) : Document :=
  object [("name", .text p.name), ("direction", word p.direction.keyword),
    ("type", .text p.typeText), ("default", orNull p.default),
    ("class", orNull p.objectClass), ("width", count (Width.estimate p.typeText)),
    ("entity", .text p.owner), ("line", count p.line)]

def Entity.document (e : Entity) : Document :=
  object [("name", .text e.name), ("line", count e.line),
    ("generics", rows Port.document e.generics), ("ports", rows Port.document e.ports)]

def Architecture.document (a : Architecture) : Document :=
  object [("name", .text a.name), ("entity_name", .text a.entityName), ("line", count a.line)]

def Package.document (p : Package) : Document :=
  object [("name", .text p.name), ("line", count p.line)]

def Configuration.document (c : Configuration) : Document :=
  object [("name", .text c.name), ("entity_name", .text c.entityName), ("line", count c.line)]

def Component.document (c : Component) : Document :=
  object [("name", .text c.name), ("generics", rows Port.document c.generics),
    ("ports", rows Port.document c.ports), ("line", count c.line)]

def UseClause.document (u : UseClause) : Document :=
  object [("path", .text u.path), ("library", .text u.library), ("package", .text u.package),
    ("item", .text u.item), ("line", count u.line)]

def LibraryClause.document (l : LibraryClause) : Document :=
  object [("name", .text l.name), ("line", count l.line)]

def ContextClause.document (c : ContextClause) : Document :=
  object [("name", .text c.name), ("line", count c.line)]

def Dependency.document (d : Dependency) : Document :=
  object [("source", .text d.source), ("target", .text d.target), ("kind", word d.kind.keyword),
    ("line", count d.line)]

/-! ## Objects -/

def Signal.document (s : Signal) : Document :=
  object [("name", .text s.name), ("type", .text s.typeText), ("default", orNull s.default),
    ("width", count (Width.estimate s.typeText)), ("scope", .text s.scope), ("line", count s.line)]

def Constant.document (c : Constant) : Document :=
  object [("name", .text c.name), ("type", .text c.typeText), ("value", orNull c.value),
    ("in_package", orNull c.package), ("in_arch", orNull c.architecture),
    ("line", count c.line)]

def SharedVariable.document (v : SharedVariable) : Document :=
  object [("name", .text v.name), ("type", .text v.typeText), ("scope", .text v.scope),
    ("line", count v.line)]

/-! ## Types -/

def RecordField.document (f : RecordField) : Document :=
  object [("name", .text f.name), ("type", .text f.typeText), ("line", count f.line)]

/-- The fields that a kind of type has of its own. -/
def TypeKind.fields : TypeKind → List (String × Document)
  | enumeration literals => [("literals", texts literals)]
  | record fields => [("fields", rows RecordField.document fields)]
  | array elementType indexTypes unconstrained =>
    [("element_type", .text elementType), ("index_types", texts indexTypes),
      ("unconstrained", .flag unconstrained)]
  | physical bounds units =>
    [("range", orNull bounds), ("base_unit", .text (baseUnit units)), ("units", texts units)]
  | access designated | file designated => [("designated_type", .text designated)]
  | incomplete => []
  | protectedType isBody => [("is_body", .flag isBody)]
  | range low high direction =>
    [("low", .text low), ("high", .text high), ("direction", .text direction)]
  | aliasFor target aliasType => [("target", .text target), ("alias_type", orNull aliasType)]

def TypeDeclaration.document (t : TypeDeclaration) : Document :=
  object ([("name", .text t.name), ("kind", word t.kind.keyword)] ++ t.kind.fields
    ++ [("in_package", orNull t.package), ("in_arch", orNull t.architecture),
      ("line", count t.line)])

def SubtypeDeclaration.document (s : SubtypeDeclaration) : Document :=
  object [("name", .text s.name), ("base_type", .text s.baseType),
    ("constraint", orNull s.constraint), ("resolution", orNull s.resolution),
    ("in_package", orNull s.package), ("in_arch", orNull s.architecture),
    ("line", count s.line)]

/-! ## Subprograms -/

def Parameter.document (p : Parameter) : Document :=
  object [("name", .text p.name), ("direction", word p.direction.keyword),
    ("type", .text p.typeText), ("class", orNull p.objectClass),
    ("default", orNull p.default), ("line", count p.line)]

def FunctionDeclaration.document (f : FunctionDeclaration) : Document :=
  object [("name", .text f.name), ("return_type", .text f.returnType),
    ("parameters", rows Parameter.document f.parameters), ("is_pure", .flag f.isPure),
    ("has_body", .flag f.hasBody), ("in_package", orNull f.package),
    ("in_arch", orNull f.architecture), ("line", count f.line)]

def ProcedureDeclaration.document (p : ProcedureDeclaration) : Document :=
  object [("name", .text p.name), ("parameters", rows Parameter.document p.parameters),
    ("has_body", .flag p.hasBody), ("in_package", orNull p.package),
    ("in_arch", orNull p.architecture), ("line", count p.line)]

/-! ## Instances -/

def Association.document (a : Association) : Document :=
  let (formal, isPositional, position) : Text × Bool × Nat := match a.formal with
    | .named formal => (formal, false, 0)
    | .positional index => ([], true, index)
  let (base, path) : Text × Text := match a.actual with
    | .name base path => (base, path)
    | _ => ([], [])
  object [("kind", word a.kind.keyword), ("formal", .text formal), ("actual", .text a.actualText),
    ("is_positional", .flag isPositional), ("position_index", count position),
    ("actual_kind", word a.actual.keyword), ("actual_base", .text base),
    ("actual_full", .text path), ("line", count a.line)]

/-- The document of a map, in the order of its keys. -/
def mapDocument (m : Assoc Text Text) : Document :=
  .record ((m.mergeSort fun a b => !Text.precedes b.1 a.1).map fun (key, value) =>
    (key, .text value))

def Instance.document (i : Instance) : Document :=
  object [("name", .text i.name), ("target", .text i.target), ("is_entity", .flag i.isEntity),
    ("port_map", mapDocument i.portMap), ("generic_map", mapDocument i.genericMap),
    ("associations", rows Association.document i.associations), ("in_arch", .text i.inArch),
    ("line", count i.line)]

end DesignFacts

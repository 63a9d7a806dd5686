import DesignFacts.Declaration.Basic

/-!
# Design units and clauses

The facts of entities, architectures, packages, configurations and components, and of the clauses
in front of them.
-/

namespace DesignFacts

open Text

/-! ## Interfaces -/

/-- The generics or ports that a clause declares for an owner. -/
def interfaceOf (owner : Text) (isGeneric : Bool) (clause : Node) : List Port :=
  (Node.collect .parameter clause).flatMap fun p =>
    let d := ObjectDeclaration.ofNode p
    d.names.map fun (name, line) =>
      { name
        direction := if isGeneric then .none else d.direction
        typeText := d.typeText
        default := d.default
        objectClass := d.objectClass
        owner
        line }

/-- The generics that a unit declares. -/
def genericsOf (owner : Text) (n : Node) : List Port :=
  (n.namedChildren.filter (·.kind == .genericClause)).flatMap (interfaceOf owner true)

/-- The ports that a unit declares. -/
def portsOf (owner : Text) (n : Node) : List Port :=
  (n.namedChildren.filter (·.kind == .portClause)).flatMap (interfaceOf owner false)

/-! ## Units -/

def Entity.ofNode (n : Node) : Entity where
  name := n.declaredName
  line := n.line
  generics := genericsOf n.declaredName n
  ports := portsOf n.declaredName n

def Component.ofNode (n : Node) : Component where
  name := n.declaredName
  generics := genericsOf n.declaredName n
  ports := portsOf n.declaredName n
  line := n.line

/-- The architecture of a body: the first identifier names it and the second one its entity, where
no fields say so. -/
def Architecture.ofNode (n : Node) : Architecture :=
  let identifiers := n.namedChildren.filter (·.kind == .identifier)
  { name := (((n.childUnder "name").or identifiers[0]?).map Node.trimmed).getD []
    entityName :=
      (((n.childUnder "entity").or identifiers[1]?).map fun c => compact c.text).getD []
    line := n.line }

/-- The package of a declaration or body. -/
def Package.ofNode (n : Node) : Package := { name := n.declaredName, line := n.line }

def Configuration.ofNode (n : Node) : Configuration :=
  let names := n.namedChildren.filter (·.kind.isName)
  { name := n.declaredName
    entityName := (((n.childUnder "entity").or names[1]?).map fun c => compact c.text).getD []
    line := n.line }

/-! ## Clauses -/

/-- A text without a keyword at its start. -/
def dropKeyword (keyword : String) (t : Text) : Text :=
  if isWord (t.take keyword.length) keyword then t.drop keyword.length else t

/-- The names in a clause: the names among its children, else those in its text after the
keyword. -/
def clauseNames (keyword : String) (n : Node) : List Text :=
  match (n.namedChildren.filter (·.kind.isName)).map fun c => compact c.text with
  | [] =>
    ((splitOn ',' (dropKeyword keyword (dropEnd (· == ';') n.trimmed))).map compact).filter
      fun t => !t.isEmpty
  | names => names

/-- The libraries of a library clause. -/
def libraryClauses (n : Node) : List LibraryClause :=
  (clauseNames "library" n).map fun name => { name, line := n.line }

/-- The selected names of a use clause. -/
def useClauses (n : Node) : List UseClause :=
  (clauseNames "use" n).map fun path => { path, line := n.line }

def contextClauses (n : Node) : List ContextClause :=
  (clauseNames "context" n).map fun name => { name, line := n.line }

end DesignFacts

import DesignFacts.Declaration.DesignUnit
import DesignFacts.Extraction.NameTable
import DesignFacts.Proofs.LetterCase.Tree

/-!
# Letter case of declarations

Declarations over a source in small letters.

**Object declarations.** Keywords are compared as words and modes and object classes are kept in
small letters, so a declaration has the same parts, with its names, type and default in small
letters (`ObjectDeclaration.ofNode_lower`).

**Name tables.** The names of a file are collected in small letters, so its tables do not depend on
letter case at all.

Main result: `nameTable_lower`.
-/

namespace DesignFacts

open Text

/-! ## Object declarations in texts -/

namespace ObjectDeclaration

/-- A declaration in small letters. -/
def lower (d : ObjectDeclaration) : ObjectDeclaration where
  names := d.names.map (Prod.map Text.lower id)
  typeText := Text.lower d.typeText
  default := d.default.map Text.lower
  mode := d.mode.map Text.lower
  objectClass := d.objectClass.map Text.lower
  shared := d.shared

@[simp] theorem direction_lower (d : ObjectDeclaration) : d.lower.direction = d.direction := by
  have hmode (t : Text) : Direction.ofText (Text.lower t) = Direction.ofText t := by
    rw [Direction.ofText, Direction.ofText, trim_lower, lower_lower]
  rw [direction, direction, lower, Option.map_map]
  congr 1
  exact congrArg (d.mode.map ·) (funext hmode)

theorem firstWord_lower (t : Text) :
    firstWord (Text.lower t) = Prod.map Text.lower Text.lower (firstWord t) := by
  simp [firstWord, Function.comp_def]

/-- What opening words say, in small letters. -/
def Opening.lower (o : Opening) : Opening where
  objectClass := o.objectClass.map Text.lower
  shared := o.shared

theorem openingWords_lower (known : Opening) (t : Text) :
    openingWords known.lower (Text.lower t) =
      Prod.map Opening.lower Text.lower (openingWords known t) := by
  have hnil (u : Text) : Text.lower u = [] ↔ u = [] := List.map_eq_nil_iff
  fun_induction openingWords known t with
  | case1 known t hempty =>
    rw [openingWords, firstWord_lower]
    simp [hempty]
  | case2 known t word hempty hshared ih =>
    rw [openingWords, firstWord_lower]
    simp only [Prod.map_fst, Prod.map_snd, lower_lower, trimStart_lower, hnil]
    rw [dif_neg hempty, if_pos hshared, ← ih]
    rfl
  | case3 known t word hempty hshared hclass ih =>
    have hlower : ({ known with objectClass := some word } : Opening).lower =
        { known.lower with objectClass := some word } := by
      simp [Opening.lower, word]
    rw [openingWords, firstWord_lower]
    simp only [Prod.map_fst, Prod.map_snd, lower_lower, trimStart_lower, hnil]
    rw [dif_neg hempty, if_neg hshared, if_pos hclass, ← ih, hlower]
  | case4 known t word hempty hshared hclass =>
    rw [openingWords, firstWord_lower]
    simp only [Prod.map_fst, Prod.map_snd, lower_lower, trimStart_lower, hnil]
    rw [dif_neg hempty, if_neg hshared, if_neg hclass]
    rfl

theorem cutColon_lower (t : Text) :
    cutColon (Text.lower t) = (cutColon t).map (Prod.map Text.lower Text.lower) := by
  induction t with
  | nil => rfl
  | cons c t ih =>
    rw [lower_cons, cutColon, cutColon, ih, head?_lower, map_toLower_bne (d := '=') rfl,
      toLower_beq (d := ':') rfl]
    split <;> simp [Function.comp_def]

theorem modeAndType_lower (t : Text) :
    modeAndType (Text.lower t) = Prod.map (Option.map Text.lower) Text.lower (modeAndType t) := by
  simp only [modeAndType, firstWord_lower, Prod.map_fst, Prod.map_snd, lower_lower, squash_lower]
  split <;> simp

theorem ofText_lower (t : Text) (line : Nat) :
    ofText (Text.lower t) line = (ofText t line).lower := by
  have hopening : openingWords {} (trim (dropEnd (· == ';') (trim (Text.lower t)))) =
      Prod.map Opening.lower Text.lower
        (openingWords {} (trim (dropEnd (· == ';') (trim t)))) := by
    rw [← openingWords_lower]
    simp [Opening.lower, Function.comp_def]
  rw [ofText, ofText, hopening]
  obtain ⟨opening, body⟩ := openingWords {} (trim (dropEnd (· == ';') (trim t)))
  simp only [Prod.map_apply, cutColon_lower, Opening.lower]
  cases cutColon body with
  | none => rfl
  | some parts =>
    obtain ⟨names, after⟩ := parts
    simp only [Option.map_some, Prod.map_apply, trim_lower,
      cut_lower _ (show ":=".toList.all (!·.isAlpha) = true by decide)]
    cases cut ":=".toList (trim after) with
    | none =>
      simp [lower, modeAndType_lower, List.filter_map, Function.comp_def]
    | some sides =>
      by_cases hempty : (squash sides.2).isEmpty <;>
        simp [lower, modeAndType_lower, List.filter_map, Function.comp_def, Option.filter_some,
          hempty]

/-! ## Object declarations in trees -/

@[simp] theorem classWord?_lower (c : Node) :
    classWord? c.lower = (classWord? c).map Text.lower := by
  simp only [classWord?, Node.kind_lower, Node.named_lower, Node.trimmed_lower, Node.text_lower,
    lower_lower]
  split
  · simp
  · split <;> simp

theorem namesIn_lower (cs : List Node) :
    namesIn (cs.map Node.lower) = (namesIn cs).map (Prod.map Text.lower id) := by
  simp [namesIn, List.filter_map, Function.comp_def]

def TypePart.lower (p : TypePart) : TypePart where
  mode := p.mode.map Text.lower
  nodes := p.nodes.map Node.lower

theorem TypePart.add_lower (p : TypePart) (c : Node) : p.lower.add c.lower = (p.add c).lower := by
  simp only [add, Node.kind_lower, Node.isComment_lower, Node.named_lower, Node.trimmed_lower,
    Node.text_lower, lower_lower]
  split
  · simp [TypePart.lower]
  · split
    · rfl
    · split
      · simp [TypePart.lower]
      · simp only [TypePart.lower, List.isEmpty_map, Option.isNone_map]
        split
        · simp
        · split <;> simp

theorem foldl_add_lower (cs : List Node) (p : TypePart) :
    (cs.map Node.lower).foldl TypePart.add p.lower = (cs.foldl TypePart.add p).lower := by
  induction cs generalizing p with
  | nil => rfl
  | cons c cs ih => rw [List.map_cons, List.foldl_cons, List.foldl_cons, p.add_lower, ih]

theorem ofParts_lower (n : Node) (front back : List Node) :
    ofParts n.lower (front.map Node.lower) (back.map Node.lower) =
      (ofParts n front back).lower := by
  have hsplit : (Node.splitAt? (·.isToken ":=") (back.map Node.lower)).getD
      (back.map Node.lower, []) = Prod.map (List.map Node.lower) (List.map Node.lower)
        ((Node.splitAt? (·.isToken ":=") back).getD (back, [])) := by
    rw [Node.splitAt?_isToken_lower]
    cases Node.splitAt? (·.isToken ":=") back <;> rfl
  rw [ofParts, ofParts, hsplit]
  obtain ⟨middle, value⟩ := (Node.splitAt? (·.isToken ":=") back).getD (back, [])
  have hpart : (middle.map Node.lower).foldl TypePart.add {} =
      (middle.foldl TypePart.add {}).lower := foldl_add_lower middle {}
  simp [hpart, TypePart.lower, lower, namesIn_lower, List.filter_map, List.filterMap_map,
    Option.map_or, Function.comp_def]

/-- A declaration has the same parts in small letters. -/
@[simp] theorem ofNode_lower (n : Node) : ofNode n.lower = (ofNode n).lower := by
  rw [ofNode, ofNode, Node.children_lower, Node.splitAt?_isToken_lower]
  cases Node.splitAt? (·.isToken ":") n.children with
  | none => simp [ofText_lower]
  | some parts => exact ofParts_lower n parts.1 parts.2

@[simp] theorem needsFarLine_lower (n : Node) : needsFarLine n.lower = needsFarLine n := by
  rw [needsFarLine, needsFarLine, Node.children_lower, Node.splitAt?_isToken_lower]
  cases Node.splitAt? (·.isToken ":") n.children <;> simp [Function.comp_def]

end ObjectDeclaration

/-! ## Names and labels -/

namespace Node

variable (n : Node)

@[simp] theorem nameChild?_lower : n.lower.nameChild? = n.nameChild?.map lower := by
  simp [nameChild?, Option.map_or]

@[simp] theorem declaredName?_lower : n.lower.declaredName? = n.declaredName?.map Text.lower := by
  simp only [declaredName?, nameChild?_lower, Option.map_map, Option.filter_map, Function.comp_def,
    trimmed_lower, isEmpty_lower]

@[simp] theorem declaredName_lower : n.lower.declaredName = Text.lower n.declaredName := by
  simp [declaredName]

@[simp] theorem label?_lower : n.lower.label? = n.label?.map Text.lower := by
  simp [label?, Option.filter_map, Function.comp_def]

@[simp] theorem isShared_lower : n.lower.isShared = n.isShared := by
  simp [isShared, Function.comp_def]

@[simp] theorem objectNames_lower : n.lower.objectNames = n.objectNames.map Text.lower := by
  simp [objectNames, ObjectDeclaration.lower, Function.comp_def]

end Node

/-! ## Objects in their scopes -/

/-- A scope in small letters. -/
@[simps]
def Scope.lower (s : Scope) : Scope where
  package := s.package.map Text.lower
  arch := s.arch.map Text.lower
  generate := s.generate.map Text.lower

/-- A signal in small letters. -/
@[simps]
def Signal.lower (s : Signal) : Signal where
  name := Text.lower s.name
  typeText := Text.lower s.typeText
  default := s.default.map Text.lower
  scope := Text.lower s.scope
  line := s.line

/-- A constant in small letters. -/
@[simps]
def Constant.lower (c : Constant) : Constant where
  name := Text.lower c.name
  typeText := Text.lower c.typeText
  value := c.value.map Text.lower
  package := c.package.map Text.lower
  architecture := c.architecture.map Text.lower
  line := c.line

/-- A port or generic in small letters. -/
@[simps]
def Port.lower (p : Port) : Port where
  name := Text.lower p.name
  direction := p.direction
  typeText := Text.lower p.typeText
  default := p.default.map Text.lower
  objectClass := p.objectClass.map Text.lower
  owner := Text.lower p.owner
  line := p.line

namespace Scope

variable (s : Scope)

@[simp] theorem path_lower : s.lower.path = Text.lower s.path := by simp [path]

@[simp] theorem owner_lower : s.lower.owner = Text.lower s.owner := by
  simp [owner]

theorem inGenerate_lower (label : Text) :
    s.lower.inGenerate (Text.lower label) = (s.inGenerate label).lower := by
  simp only [inGenerate, lower]
  cases s.arch with
  | none => simp
  | some path => by_cases hpath : path.isEmpty <;> simp [hpath]

theorem signals_lower (n : Node) : s.lower.signals n.lower = (s.signals n).map Signal.lower := by
  simp [signals, ObjectDeclaration.lower, Signal.lower, Function.comp_def]

theorem constants_lower (n : Node) :
    s.lower.constants n.lower = (s.constants n).map Constant.lower := by
  simp [constants, ObjectDeclaration.lower, Constant.lower, Function.comp_def]

end Scope

theorem interfaceOf_lower (owner : Text) (isGeneric : Bool) (clause : Node) :
    interfaceOf (lower owner) isGeneric clause.lower =
      (interfaceOf owner isGeneric clause).map Port.lower := by
  simp only [interfaceOf, Node.collect_lower, List.flatMap_map, List.map_flatMap,
    ObjectDeclaration.ofNode_lower, ObjectDeclaration.direction_lower]
  simp [ObjectDeclaration.lower, Port.lower, Function.comp_def]

theorem genericsOf_lower (owner : Text) (n : Node) :
    genericsOf (lower owner) n.lower = (genericsOf owner n).map Port.lower := by
  simp [genericsOf, List.filter_map, List.flatMap_map, List.map_flatMap, interfaceOf_lower,
    Function.comp_def]

theorem portsOf_lower (owner : Text) (n : Node) :
    portsOf (lower owner) n.lower = (portsOf owner n).map Port.lower := by
  simp [portsOf, List.filter_map, List.flatMap_map, List.map_flatMap, interfaceOf_lower,
    Function.comp_def]

theorem clauseNames_lower (keyword : String) (n : Node) :
    clauseNames keyword n.lower = (clauseNames keyword n).map lower := by
  have hkeyword (t : Text) : dropKeyword keyword (lower t) = lower (dropKeyword keyword t) := by
    simp only [dropKeyword, take_lower, isWord_lower, drop_lower]
    split <;> rfl
  simp only [clauseNames, Node.namedChildren_lower, List.filter_map, List.map_map,
    Function.comp_def, Node.kind_lower, Node.text_lower, compact_lower]
  cases n.namedChildren.filter (·.kind.isName) with
  | nil => simp [hkeyword, List.filter_map, Function.comp_def]
  | cons c cs => simp

/-! ## Types -/

theorem rangeAt?_lower {direction : String} (hdirection : lower direction.toList = direction.toList)
    (t : Text) :
    rangeAt? direction (lower t) =
      (rangeAt? direction t).map (Prod.map lower (Prod.map lower lower)) := by
  rw [rangeAt?, rangeAt?, cutWord_lower]
  cases cutWord direction t with
  | none => rfl
  | some sides =>
    obtain ⟨left, right⟩ := sides
    simp only [Option.map_some, Prod.map_apply, squash_lower, isEmpty_lower]
    split <;> simp [hdirection]

/-- A range has the same bounds and direction in small letters. -/
theorem range?_lower (t : Text) :
    range? (lower t) = (range? t).map (Prod.map lower (Prod.map lower lower)) := by
  rw [range?, range?, trim_lower, rangeAt?_lower rfl, rangeAt?_lower rfl, Option.map_or]

namespace TypeKind

theorem valueNames_enumeration_lower (literals : List Text) :
    (enumeration (literals.map lower)).valueNames =
      (enumeration literals).valueNames.map lower := by
  simp only [valueNames, List.filter_map, Function.comp_def, head?_lower,
    map_toLower_bne (show '\''.isAlpha = false by decide)]

theorem unitsOf_lower (body : Text) : unitsOf (lower body) = (unitsOf body).map lower := by
  have hbody : ((cutWord "end" (lower body)).map Prod.fst).getD (lower body) =
      lower (((cutWord "end" body).map Prod.fst).getD body) := by
    simp [Function.comp_def]
  simp only [unitsOf, hbody]
  generalize ((cutWord "end" body).map Prod.fst).getD body = units
  simp [List.filterMap_map, List.map_filterMap, Function.comp_def]

theorem valueNames_physical_lower (range range' : Option Text) (units : List Text) :
    (physical range' (units.map lower)).valueNames =
      (physical range units).valueNames.map lower := by
  have hbase : baseUnit (units.map lower) = lower (baseUnit units) := by simp [baseUnit]
  rw [valueNames, hbase, ← List.map_cons, List.filter_map, valueNames]
  simp [Function.comp_def]

theorem valueNames_rangeOfText_lower (t : Text) :
    (rangeOfText (lower t)).valueNames = (rangeOfText t).valueNames.map lower := by
  rw [rangeOfText, rangeOfText, cutWord_lower]
  cases cutWord "units" t with
  | none => rfl
  | some sides =>
    obtain ⟨left, body⟩ := sides
    simp only [Option.map_some, Prod.map_apply, unitsOf_lower]
    exact valueNames_physical_lower _ _ _

theorem valueNames_enumerationOfText_lower (t : Text) :
    (enumerationOfText (lower t)).valueNames = (enumerationOfText t).valueNames.map lower := by
  rw [enumerationOfText, enumerationOfText, ← valueNames_enumeration_lower]
  simp [List.filter_map, Function.comp_def]

/-- Only enumerations and physical types bring in names. -/
theorem valueNames_ofText_lower (t : Text) :
    (ofText (lower t)).valueNames = (ofText t).valueNames.map lower := by
  have htext : definitionText (lower t) = lower (definitionText t) := by
    simp [definitionText, Function.comp_def]
  rw [ofText, ofText]
  simp only [htext, head?_lower, map_toLower_beq (show '('.isAlpha = false by decide), lower_lower]
  by_cases h₁ : (definitionText t).head? == some '('
  · simp only [h₁, if_true]
    exact valueNames_enumerationOfText_lower _
  · simp only [h₁, Bool.false_eq_true, if_false]
    split; · rfl
    split; · rfl
    split; · rfl
    split; · rfl
    split; · rfl
    split; · exact valueNames_rangeOfText_lower _
    rfl

theorem literalsOf_lower (n : Node) : literalsOf n.lower = (literalsOf n).map lower := by
  simp [literalsOf, List.filter_map, Function.comp_def]

theorem valueNames_ofDefinition_lower (n : Node) :
    (ofDefinition n.lower).valueNames = (ofDefinition n).valueNames.map lower := by
  simp only [ofDefinition, Node.kind_lower, literalsOf_lower, Node.text_lower]
  split
  · cases literalsOf n with
    | nil => exact valueNames_ofText_lower n.text
    | cons l ls => exact valueNames_enumeration_lower (l :: ls)
  · rfl
  · rfl
  · exact valueNames_ofText_lower n.text

theorem definition?_lower (n : Node) : definition? n.lower = (definition? n).map Node.lower := by
  simp only [definition?, Node.childUnder_lower, Node.namedChildren_lower, List.find?_map,
    Option.map_or, Function.comp_def, Node.kind_lower]

theorem valueNames_ofDeclaration_lower (n : Node) :
    (ofDeclaration n.lower).valueNames = (ofDeclaration n).valueNames.map lower := by
  rw [ofDeclaration, ofDeclaration, definition?_lower]
  cases definition? n with
  | some d => exact valueNames_ofDefinition_lower d
  | none =>
    rw [Node.text_lower, cutWord_lower]
    cases cutWord "is" n.text with
    | none => rfl
    | some sides => exact valueNames_ofText_lower sides.2

theorem needsFarLine_lower (n : Node) : needsFarLine n.lower = needsFarLine n := by
  simp [needsFarLine, definition?_lower, Option.any_map, Function.comp_def]

end TypeKind

/-! ## Name tables -/

namespace Node

variable (n : Node)

@[simp] theorem isSubprogram_lower : n.lower.isSubprogram = n.isSubprogram := by simp [isSubprogram]

theorem objectsDeclared_lower : n.lower.objectsDeclared = n.objectsDeclared.map Text.lower := by
  simp only [objectsDeclared, kind_lower, objectNames_lower, isShared_lower, declaredName?_lower]
  cases n.kind with
  | variableDeclaration => by_cases hshared : n.isShared <;> simp [hshared]
  | aliasDeclaration => cases n.declaredName? <;> rfl
  | _ => rfl

theorem valuesDeclared_lower : n.lower.valuesDeclared = n.valuesDeclared.map Text.lower := by
  simp only [valuesDeclared, kind_lower, TypeKind.valueNames_ofDeclaration_lower]
  split <;> rfl

theorem subprogramsDeclared_lower :
    n.lower.subprogramsDeclared = n.subprogramsDeclared.map Text.lower := by
  simp only [subprogramsDeclared, isSubprogram_lower, declaredName?_lower]
  split
  · cases n.declaredName? <;> rfl
  · rfl

theorem declaresFar_lower : n.lower.declaresFar = n.declaresFar := by
  simp [declaresFar, TypeKind.needsFarLine_lower]

end Node

/-- **Name tables ignore letter case.** -/
theorem nameTable_lower (config : Config) (root : Node) :
    nameTable config root.lower = nameTable config root := by
  simp only [nameTable, Node.subtree_lower, List.flatMap_map, Node.objectsDeclared_lower,
    Node.valuesDeclared_lower, Node.subprogramsDeclared_lower, List.map_flatMap, List.map_map,
    lower_comp_lower]

end DesignFacts

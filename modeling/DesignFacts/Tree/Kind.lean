/-!
# Node kinds

The vocabulary of the syntax trees that facts are taken from. A node carries the tag that its
grammar gave it; `Kind.ofTag` maps all known spellings of a construct to one kind and everything
else to `Kind.other`, which is treated as a plain container.
-/

namespace DesignFacts

/-- The kind of a construct. -/
inductive Kind where
  | designFile | libraryClause | useClause | contextReference | entityDeclaration
  | architectureBody | packageDeclaration | packageBody | configurationDeclaration
  | componentDeclaration
  | genericClause | portClause | parameterList | parameter | mode | interfaceClass
  | signalDeclaration | constantDeclaration | variableDeclaration | fileDeclaration
  | aliasDeclaration
  | typeDeclaration | subtypeDeclaration | subtypeIndication | enumerationTypeDefinition
  | recordTypeDefinition | elementDeclaration | arrayTypeDefinition | physicalTypeDefinition
  | accessTypeDefinition | fileTypeDefinition | rangeConstraint | protectedTypeDeclaration
  | range
  | functionDeclaration | procedureDeclaration | subprogramBody
  | componentInstantiation | genericMapAspect | portMapAspect | associationElement | openActual
  | processStatement | sensitivityList | sequentialSignalAssignment | variableAssignment
  | ifStatement | elsifClause | elseClause | caseStatement | caseAlternative | caseChoice | others
  | loopStatement | waitStatement | sensitivityClause | conditionClause | timeoutClause
  | procedureCallStatement
  | concurrentSignalAssignment | generateStatement | forGenerate | ifGenerate | caseGenerate
  | identifier | selectedName | indexedName | sliceName | functionCall | attributeName
  | qualifiedExpression | aggregate | elementAssociation | relationalExpression
  | multiplicativeExpression | exponentialExpression
  | characterLiteral | stringLiteral | bitStringLiteral | decimalLiteral | basedLiteral
  | physicalLiteral
  | comment | other
  deriving DecidableEq

namespace Kind

/-- The kind that a grammar's tag stands for. -/
def ofTag : String → Kind
  | "design_file" | "source_file" => .designFile
  | "library_clause" => .libraryClause
  | "use_clause" => .useClause
  | "context_reference" | "context_clause" => .contextReference
  | "entity_declaration" => .entityDeclaration
  | "architecture_body" | "architecture_declaration" => .architectureBody
  | "package_declaration" => .packageDeclaration
  | "package_body" => .packageBody
  | "configuration_declaration" => .configurationDeclaration
  | "component_declaration" => .componentDeclaration
  | "generic_clause" => .genericClause
  | "port_clause" => .portClause
  | "parameter_list" | "formal_parameter_list" | "interface_list" => .parameterList
  | "parameter" | "interface_declaration" | "interface_element" => .parameter
  | "port_direction" | "mode" => .mode
  | "parameter_class" | "interface_class" => .interfaceClass
  | "signal_declaration" => .signalDeclaration
  | "constant_declaration" => .constantDeclaration
  | "variable_declaration" | "shared_variable_declaration" => .variableDeclaration
  | "file_declaration" => .fileDeclaration
  | "alias_declaration" => .aliasDeclaration
  | "type_declaration" | "full_type_declaration" | "incomplete_type_declaration" =>
    .typeDeclaration
  | "subtype_declaration" => .subtypeDeclaration
  | "subtype_indication" => .subtypeIndication
  | "enumeration_type_definition" => .enumerationTypeDefinition
  | "record_type_definition" => .recordTypeDefinition
  | "element_declaration" => .elementDeclaration
  | "array_type_definition" | "constrained_array_definition" | "unbounded_array_definition" =>
    .arrayTypeDefinition
  | "physical_type_definition" => .physicalTypeDefinition
  | "access_type_definition" => .accessTypeDefinition
  | "file_type_definition" => .fileTypeDefinition
  | "range_constraint" | "integer_type_definition" => .rangeConstraint
  | "protected_type_declaration" | "protected_type_body" => .protectedTypeDeclaration
  | "range" | "simple_range" | "discrete_range" => .range
  | "function_declaration" | "function_body" | "function_specification" => .functionDeclaration
  | "procedure_declaration" | "procedure_body" | "procedure_specification" =>
    .procedureDeclaration
  | "subprogram_body" => .subprogramBody
  | "component_instantiation" | "component_instantiation_statement" => .componentInstantiation
  | "generic_map_aspect" => .genericMapAspect
  | "port_map_aspect" => .portMapAspect
  | "association_element" | "named_association" | "positional_association" =>
    .associationElement
  | "open" => .openActual
  | "process_statement" => .processStatement
  | "sensitivity_list" => .sensitivityList
  | "sequential_signal_assignment" | "simple_signal_assignment" => .sequentialSignalAssignment
  | "variable_assignment" | "assignment_statement" | "simple_variable_assignment" =>
    .variableAssignment
  | "if_statement" => .ifStatement
  | "elsif_clause" => .elsifClause
  | "else_clause" => .elseClause
  | "case_statement" => .caseStatement
  | "case_alternative" | "case_statement_alternative" => .caseAlternative
  | "case_choice" | "choice" => .caseChoice
  | "others" | "others_choice" => .others
  | "loop_statement" => .loopStatement
  | "wait_statement" => .waitStatement
  | "sensitivity_clause" => .sensitivityClause
  | "condition_clause" => .conditionClause
  | "timeout_clause" => .timeoutClause
  | "procedure_call_statement" => .procedureCallStatement
  | "concurrent_signal_assignment" | "signal_assignment" | "concurrent_simple_signal_assignment"
  | "concurrent_conditional_signal_assignment" | "concurrent_selected_signal_assignment" =>
    .concurrentSignalAssignment
  | "generate_statement" => .generateStatement
  | "for_generate" | "for_generate_statement" => .forGenerate
  | "if_generate" | "if_generate_statement" => .ifGenerate
  | "case_generate" | "case_generate_statement" => .caseGenerate
  | "identifier" | "simple_name" | "extended_identifier" => .identifier
  | "selected_name" => .selectedName
  | "indexed_name" => .indexedName
  | "slice_name" => .sliceName
  | "function_call" => .functionCall
  | "attribute_name" => .attributeName
  | "qualified_expression" => .qualifiedExpression
  | "aggregate" => .aggregate
  | "element_association" => .elementAssociation
  | "relational_expression" => .relationalExpression
  | "multiplicative_expression" => .multiplicativeExpression
  | "exponential_expression" => .exponentialExpression
  | "character_literal" => .characterLiteral
  | "string_literal" => .stringLiteral
  | "bit_string_literal" => .bitStringLiteral
  | "decimal_literal" | "integer_literal" | "abstract_literal" => .decimalLiteral
  | "based_literal" => .basedLiteral
  | "physical_literal" => .physicalLiteral
  | "comment" | "line_comment" | "block_comment" => .comment
  | _ => .other

/-- The name under which a kind is shown. -/
def title : Kind → String
  | designFile => "DesignFile" | libraryClause => "LibraryClause" | useClause => "UseClause"
  | contextReference => "ContextReference" | entityDeclaration => "EntityDeclaration"
  | architectureBody => "ArchitectureBody" | packageDeclaration => "PackageDeclaration"
  | packageBody => "PackageBody" | configurationDeclaration => "ConfigurationDeclaration"
  | componentDeclaration => "ComponentDeclaration"
  | genericClause => "GenericClause" | portClause => "PortClause"
  | parameterList => "ParameterList" | parameter => "Parameter" | mode => "Mode"
  | interfaceClass => "InterfaceClass"
  | signalDeclaration => "SignalDeclaration" | constantDeclaration => "ConstantDeclaration"
  | variableDeclaration => "VariableDeclaration" | fileDeclaration => "FileDeclaration"
  | aliasDeclaration => "AliasDeclaration"
  | typeDeclaration => "TypeDeclaration" | subtypeDeclaration => "SubtypeDeclaration"
  | subtypeIndication => "SubtypeIndication"
  | enumerationTypeDefinition => "EnumerationTypeDefinition"
  | recordTypeDefinition => "RecordTypeDefinition" | elementDeclaration => "ElementDeclaration"
  | arrayTypeDefinition => "ArrayTypeDefinition"
  | physicalTypeDefinition => "PhysicalTypeDefinition"
  | accessTypeDefinition => "AccessTypeDefinition" | fileTypeDefinition => "FileTypeDefinition"
  | rangeConstraint => "RangeConstraint"
  | protectedTypeDeclaration => "ProtectedTypeDeclaration" | range => "Range"
  | functionDeclaration => "FunctionDeclaration"
  | procedureDeclaration => "ProcedureDeclaration" | subprogramBody => "SubprogramBody"
  | componentInstantiation => "ComponentInstantiation" | genericMapAspect => "GenericMapAspect"
  | portMapAspect => "PortMapAspect" | associationElement => "AssociationElement"
  | openActual => "Open"
  | processStatement => "ProcessStatement" | sensitivityList => "SensitivityList"
  | sequentialSignalAssignment => "SequentialSignalAssignment"
  | variableAssignment => "VariableAssignment" | ifStatement => "IfStatement"
  | elsifClause => "ElsifClause" | elseClause => "ElseClause" | caseStatement => "CaseStatement"
  | caseAlternative => "CaseAlternative" | caseChoice => "CaseChoice" | others => "Others"
  | loopStatement => "LoopStatement" | waitStatement => "WaitStatement"
  | sensitivityClause => "SensitivityClause" | conditionClause => "ConditionClause"
  | timeoutClause => "TimeoutClause" | procedureCallStatement => "ProcedureCallStatement"
  | concurrentSignalAssignment => "ConcurrentSignalAssignment"
  | generateStatement => "GenerateStatement" | forGenerate => "ForGenerate"
  | ifGenerate => "IfGenerate" | caseGenerate => "CaseGenerate"
  | identifier => "Identifier" | selectedName => "SelectedName" | indexedName => "IndexedName"
  | sliceName => "SliceName" | functionCall => "FunctionCall" | attributeName => "AttributeName"
  | qualifiedExpression => "QualifiedExpression" | aggregate => "Aggregate"
  | elementAssociation => "ElementAssociation"
  | relationalExpression => "RelationalExpression"
  | multiplicativeExpression => "MultiplicativeExpression"
  | exponentialExpression => "ExponentialExpression"
  | characterLiteral => "CharacterLiteral" | stringLiteral => "StringLiteral"
  | bitStringLiteral => "BitStringLiteral" | decimalLiteral => "DecimalLiteral"
  | basedLiteral => "BasedLiteral" | physicalLiteral => "PhysicalLiteral"
  | comment => "Comment" | other => "Other"

/-- Whether the construct is a name: an identifier, or one built from a name by selection,
indexing, slicing, a call or an attribute. -/
def isName : Kind → Bool
  | identifier | selectedName | indexedName | sliceName | functionCall | attributeName => true
  | _ => false

/-- Whether the construct is a name followed by arguments in parentheses. -/
def isIndexed : Kind → Bool
  | indexedName | sliceName | functionCall => true
  | _ => false

/-- Whether the construct is a literal value. -/
def isLiteral : Kind → Bool
  | characterLiteral | stringLiteral | bitStringLiteral | decimalLiteral | basedLiteral
  | physicalLiteral => true
  | _ => false

/-- Whether the construct defines a type inside a type declaration. -/
def isTypeDefinition : Kind → Bool
  | enumerationTypeDefinition | recordTypeDefinition | arrayTypeDefinition
  | physicalTypeDefinition | accessTypeDefinition | fileTypeDefinition | rangeConstraint
  | protectedTypeDeclaration => true
  | _ => false

/-- Whether the construct is a generate statement with its scheme written in it. -/
def isScheme : Kind → Bool
  | forGenerate | ifGenerate | caseGenerate => true
  | _ => false

end Kind

end DesignFacts

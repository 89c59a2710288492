import JsxOrigin.Text.Basic

/-!
# Kinds of syntax nodes

Node kinds and field names of the JavaScript and TypeScript grammars. A kind that no analysis asks
for is kept by its name, because operators are reported by the name of their kind.
-/

namespace JsxOrigin

/-- The kind of a syntax node. -/
inductive Kind where
  /-- A whole module. -/
  | program
  /-- A comment. -/
  | comment
  /-- An expression in parentheses. -/
  | parenthesized
  /-- A string literal. -/
  | string
  /-- A number literal. -/
  | number
  | trueLiteral
  | falseLiteral
  | nullLiteral
  | undefined
  /-- A name. -/
  | identifier
  /-- The name of a property. -/
  | propertyIdentifier
  /-- A property that is named like the variable it holds. -/
  | shorthandProperty
  /-- As in `a.b`. -/
  | member
  /-- As in `a[b]`. -/
  | subscript
  /-- A call. -/
  | call
  /-- A call of a constructor. -/
  | construct
  /-- A template string. -/
  | template
  /-- An expression inside a template string. -/
  | substitution
  | binary
  | unary
  /-- As in `a++` and the like. -/
  | update
  | ternary
  /-- An object literal. -/
  | object
  /-- A key with its value. -/
  | pair
  /-- An array literal. -/
  | array
  /-- As in `...a`. -/
  | spread
  /-- The arguments of a call. -/
  | arguments
  | superKeyword
  | importKeyword
  /-- As in `import.meta` and the like. -/
  | metaProperty
  /-- One variable of a declaration. -/
  | declarator
  /-- A declaration by `let` or `const`. -/
  | lexicalDeclaration
  /-- A declaration by `var`. -/
  | variableDeclaration
  | functionDeclaration
  | generatorDeclaration
  | classDeclaration
  | abstractClassDeclaration
  | importStatement
  | importClause
  /-- As in `* as a` of an import. -/
  | namespaceImport
  | namedImports
  | importSpecifier
  | exportStatement
  | exportClause
  | exportSpecifier
  /-- As in `* as a` of an export. -/
  | namespaceExport
  /-- As in `a = b`. -/
  | assignment
  /-- As in `a += b` and the like. -/
  | augmentedAssignment
  | functionExpression
  /-- The keyword; an expression in some grammars. -/
  | functionKeyword
  | generatorFunction
  /-- The keyword, or a class expression. -/
  | classExpression
  /-- As in `a as T`. -/
  | asExpression
  /-- As in `a satisfies T`. -/
  | satisfiesExpression
  /-- As in `a!`. -/
  | nonNull
  | defaultKeyword
  | varKeyword
  | letKeyword
  | constKeyword
  | comma
  | openBracket
  | closeBracket
  /-- An element with an opening and a closing tag. -/
  | jsxElement
  /-- An element that is one tag. -/
  | jsxSelfClosing
  /-- An opening tag. -/
  | jsxOpening
  | jsxAttribute
  /-- An expression in braces inside an element. -/
  | jsxExpression
  /-- Any other kind, by its name. -/
  | other (name : Text)
deriving DecidableEq, Inhabited

namespace Kind

/-- The kinds that analyses ask for, with their names. -/
def known : List (String × Kind) := [
  ("program", program), ("comment", comment), ("parenthesized_expression", parenthesized),
  ("string", string), ("number", number), ("true", trueLiteral), ("false", falseLiteral),
  ("null", nullLiteral), ("undefined", undefined), ("identifier", identifier),
  ("property_identifier", propertyIdentifier),
  ("shorthand_property_identifier", shorthandProperty), ("member_expression", member),
  ("subscript_expression", subscript), ("call_expression", call), ("new_expression", construct),
  ("template_string", template), ("template_substitution", substitution),
  ("binary_expression", binary), ("unary_expression", unary), ("update_expression", update),
  ("ternary_expression", ternary), ("object", object), ("pair", pair), ("array", array),
  ("spread_element", spread), ("arguments", arguments), ("super", superKeyword),
  ("import", importKeyword), ("meta_property", metaProperty), ("variable_declarator", declarator),
  ("lexical_declaration", lexicalDeclaration), ("variable_declaration", variableDeclaration),
  ("function_declaration", functionDeclaration),
  ("generator_function_declaration", generatorDeclaration),
  ("class_declaration", classDeclaration),
  ("abstract_class_declaration", abstractClassDeclaration), ("import_statement", importStatement),
  ("import_clause", importClause), ("namespace_import", namespaceImport),
  ("named_imports", namedImports), ("import_specifier", importSpecifier),
  ("export_statement", exportStatement), ("export_clause", exportClause),
  ("export_specifier", exportSpecifier), ("namespace_export", namespaceExport),
  ("assignment_expression", assignment), ("augmented_assignment_expression", augmentedAssignment),
  ("function_expression", functionExpression), ("function", functionKeyword),
  ("generator_function", generatorFunction), ("class", classExpression),
  ("as_expression", asExpression), ("satisfies_expression", satisfiesExpression),
  ("non_null_expression", nonNull), ("default", defaultKeyword), ("var", varKeyword),
  ("let", letKeyword), ("const", constKeyword), (",", comma), ("[", openBracket),
  ("]", closeBracket), ("jsx_element", jsxElement), ("jsx_self_closing_element", jsxSelfClosing),
  ("jsx_opening_element", jsxOpening), ("jsx_attribute", jsxAttribute),
  ("jsx_expression", jsxExpression)]

/-- The kind of a name. -/
def ofName (name : Text) : Kind :=
  match known.find? fun k => Text.ofString k.1 == name with
  | some (_, kind) => kind
  | none => other name

/-- The name of a kind. -/
def name : Kind → Text
  | other name => name
  | kind =>
    match known.find? fun k => k.2 == kind with
    | some (name, _) => name
    | none => []

end Kind

/-- The places of a node that a child can take. -/
inductive Field where
  /-- The other name that a specifier gives. -/
  | renamed
  | alternative
  | argument
  | arguments
  | body
  | condition
  | consequence
  | constructor
  | declaration
  | function
  | index
  | key
  | left
  | name
  | object
  | openTag
  | operator
  | property
  | right
  | source
  | value
deriving DecidableEq, Inhabited

namespace Field

/-- The fields with their names. -/
def known : List (String × Field) := [
  ("alias", renamed), ("alternative", alternative), ("argument", argument),
  ("arguments", arguments), ("body", body), ("condition", condition),
  ("consequence", consequence), ("constructor", constructor), ("declaration", declaration),
  ("function", function), ("index", index), ("key", key), ("left", left), ("name", name),
  ("object", object), ("open_tag", openTag), ("operator", operator), ("property", property),
  ("right", right), ("source", source), ("value", value)]

/-- The field of a name, if analyses ask for it. -/
def ofName? (name : Text) : Option Field :=
  (known.find? fun f => Text.ofString f.1 == name).map Prod.snd

end Field

end JsxOrigin

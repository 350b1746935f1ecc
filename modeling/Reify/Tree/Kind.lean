/-
The kinds of syntax nodes.

Each kind that some rule of the library looks at has a constructor; every other grammar node
keeps its grammar name.  `ofGrammar` reads a kind from the name of a named grammar node, and
`words` says it in words for messages.
-/

namespace Reify
namespace Tree

inductive Kind
  | program | comment | error
  | expressionStatement | statementBlock | lexicalDeclaration | variableDeclaration
  | variableDeclarator | returnStatement | ifStatement | elseClause | whileStatement
  | doStatement | forInStatement | forStatement | breakStatement | continueStatement
  | tryStatement | catchClause | finallyClause | throwStatement | emptyStatement
  | labeledStatement | switchStatement | functionDeclaration | functionSignature
  | generatorFunctionDeclaration | classDeclaration | importStatement
  | identifier | propertyIdentifier | shorthandPropertyIdentifier | numberLiteral | stringLiteral
  | templateString | templateSubstitution | trueLiteral | falseLiteral | nullLiteral
  | undefinedLiteral | thisExpression | superExpression | regexLiteral | callExpression
  | newExpression | arguments | arrowFunction | functionExpression | generatorFunction
  | formalParameters | requiredParameter | optionalParameter | restPattern | memberExpression
  | subscriptExpression | binaryExpression | unaryExpression | updateExpression
  | assignmentExpression | augmentedAssignmentExpression | ternaryExpression
  | parenthesizedExpression | asExpression | satisfiesExpression | nonNullExpression
  | typeAssertion | array | object | pair | computedPropertyName | spreadElement
  | methodDefinition | awaitExpression | yieldExpression | sequenceExpression | arrayPattern
  | objectPattern | optionalChain | typeMark
  /-- A grammar node without a kind of its own, or an anonymous token. -/
  | unknown (name : String)
  deriving DecidableEq, Repr

namespace Kind

def ofGrammar (name : String) : Kind :=
  match name with
  | "program" => .program
  | "comment" => .comment
  | "html_comment" => .comment
  | "ERROR" => .error
  | "expression_statement" => .expressionStatement
  | "statement_block" => .statementBlock
  | "lexical_declaration" => .lexicalDeclaration
  | "variable_declaration" => .variableDeclaration
  | "variable_declarator" => .variableDeclarator
  | "return_statement" => .returnStatement
  | "if_statement" => .ifStatement
  | "else_clause" => .elseClause
  | "while_statement" => .whileStatement
  | "do_statement" => .doStatement
  | "for_in_statement" => .forInStatement
  | "for_statement" => .forStatement
  | "break_statement" => .breakStatement
  | "continue_statement" => .continueStatement
  | "try_statement" => .tryStatement
  | "catch_clause" => .catchClause
  | "finally_clause" => .finallyClause
  | "throw_statement" => .throwStatement
  | "empty_statement" => .emptyStatement
  | "labeled_statement" => .labeledStatement
  | "switch_statement" => .switchStatement
  | "function_declaration" => .functionDeclaration
  | "function_signature" => .functionSignature
  | "generator_function_declaration" => .generatorFunctionDeclaration
  | "class_declaration" => .classDeclaration
  | "import_statement" => .importStatement
  | "identifier" => .identifier
  | "property_identifier" => .propertyIdentifier
  | "private_property_identifier" => .propertyIdentifier
  | "shorthand_property_identifier" => .shorthandPropertyIdentifier
  | "number" => .numberLiteral
  | "string" => .stringLiteral
  | "template_string" => .templateString
  | "template_substitution" => .templateSubstitution
  | "true" => .trueLiteral
  | "false" => .falseLiteral
  | "null" => .nullLiteral
  | "undefined" => .undefinedLiteral
  | "this" => .thisExpression
  | "super" => .superExpression
  | "regex" => .regexLiteral
  | "call_expression" => .callExpression
  | "new_expression" => .newExpression
  | "arguments" => .arguments
  | "arrow_function" => .arrowFunction
  | "function_expression" => .functionExpression
  | "function" => .functionExpression
  | "generator_function" => .generatorFunction
  | "formal_parameters" => .formalParameters
  | "required_parameter" => .requiredParameter
  | "optional_parameter" => .optionalParameter
  | "rest_pattern" => .restPattern
  | "member_expression" => .memberExpression
  | "subscript_expression" => .subscriptExpression
  | "binary_expression" => .binaryExpression
  | "unary_expression" => .unaryExpression
  | "update_expression" => .updateExpression
  | "assignment_expression" => .assignmentExpression
  | "augmented_assignment_expression" => .augmentedAssignmentExpression
  | "ternary_expression" => .ternaryExpression
  | "parenthesized_expression" => .parenthesizedExpression
  | "as_expression" => .asExpression
  | "satisfies_expression" => .satisfiesExpression
  | "non_null_expression" => .nonNullExpression
  | "type_assertion" => .typeAssertion
  | "array" => .array
  | "object" => .object
  | "pair" => .pair
  | "computed_property_name" => .computedPropertyName
  | "spread_element" => .spreadElement
  | "method_definition" => .methodDefinition
  | "await_expression" => .awaitExpression
  | "yield_expression" => .yieldExpression
  | "sequence_expression" => .sequenceExpression
  | "array_pattern" => .arrayPattern
  | "object_pattern" => .objectPattern
  | "optional_chain" => .optionalChain
  | "type_annotation" => .typeMark
  | name => .unknown name

/-- A grammar name with its underscores read as spaces. -/
def spaced (name : String) : String :=
  String.ofList (name.toList.map fun c => if c = '_' then ' ' else c)

/-- The kind in words, as messages name it. -/
def words : Kind → String
  | .program => "program"
  | .comment => "comment"
  | .error => "syntax error"
  | .expressionStatement => "expression statement"
  | .statementBlock => "block"
  | .lexicalDeclaration => "lexical declaration"
  | .variableDeclaration => "variable declaration"
  | .variableDeclarator => "variable declarator"
  | .returnStatement => "return statement"
  | .ifStatement => "if statement"
  | .elseClause => "else clause"
  | .whileStatement => "while statement"
  | .doStatement => "do statement"
  | .forInStatement => "for-in/of statement"
  | .forStatement => "for statement"
  | .breakStatement => "break statement"
  | .continueStatement => "continue statement"
  | .tryStatement => "try statement"
  | .catchClause => "catch clause"
  | .finallyClause => "finally clause"
  | .throwStatement => "throw statement"
  | .emptyStatement => "empty statement"
  | .labeledStatement => "labeled statement"
  | .switchStatement => "switch statement"
  | .functionDeclaration => "function declaration"
  | .functionSignature => "function signature"
  | .generatorFunctionDeclaration => "generator declaration"
  | .classDeclaration => "class declaration"
  | .importStatement => "import statement"
  | .identifier => "identifier"
  | .propertyIdentifier => "property identifier"
  | .shorthandPropertyIdentifier => "shorthand property"
  | .numberLiteral => "number literal"
  | .stringLiteral => "string literal"
  | .templateString => "template literal"
  | .templateSubstitution => "template substitution"
  | .trueLiteral => "boolean literal"
  | .falseLiteral => "boolean literal"
  | .nullLiteral => "null"
  | .undefinedLiteral => "undefined"
  | .thisExpression => "this"
  | .superExpression => "super"
  | .regexLiteral => "regular expression"
  | .callExpression => "call expression"
  | .newExpression => "new expression"
  | .arguments => "arguments"
  | .arrowFunction => "arrow function"
  | .functionExpression => "function expression"
  | .generatorFunction => "generator function"
  | .formalParameters => "parameters"
  | .requiredParameter => "parameter"
  | .optionalParameter => "optional parameter"
  | .restPattern => "rest pattern"
  | .memberExpression => "property access"
  | .subscriptExpression => "element access"
  | .binaryExpression => "binary expression"
  | .unaryExpression => "unary expression"
  | .updateExpression => "update expression"
  | .assignmentExpression => "assignment"
  | .augmentedAssignmentExpression => "compound assignment"
  | .ternaryExpression => "conditional expression"
  | .parenthesizedExpression => "parenthesized expression"
  | .asExpression => "as expression"
  | .satisfiesExpression => "satisfies expression"
  | .nonNullExpression => "non-null assertion"
  | .typeAssertion => "type assertion"
  | .array => "array literal"
  | .object => "object literal"
  | .pair => "property assignment"
  | .computedPropertyName => "computed property name"
  | .spreadElement => "spread element"
  | .methodDefinition => "method definition"
  | .awaitExpression => "await expression"
  | .yieldExpression => "yield expression"
  | .sequenceExpression => "sequence expression"
  | .arrayPattern => "array destructuring pattern"
  | .objectPattern => "object destructuring pattern"
  | .optionalChain => "optional chain"
  | .typeMark => "type annotation"
  | .unknown name => spaced name

end Kind
end Tree
end Reify

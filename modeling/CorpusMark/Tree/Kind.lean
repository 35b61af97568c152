/-!
# Node kinds

The kinds of node that transforms inspect. Every other kind, and every anonymous token, is
`other`.
-/

namespace CorpusMark

/-- Kind of a syntax node. -/
inductive NodeKind where
  | identifier
  | argumentList
  | parenthesizedExpression
  | block
  | expressionStatement
  | comment
  | trueLiteral
  | falseLiteral
  | error
  | module
  | call
  | attributeAccess
  | keywordArgument
  | listSplat
  | dictionarySplat
  | list
  | assignment
  | forStatement
  | generatorExpression
  | patternList
  | program
  | binaryExpression
  | unaryExpression
  | methodInvocation
  | fieldAccess
  | nullLiteral
  | localVariableDeclaration
  | variableDeclarator
  | typeIdentifier
  | stringLiteral
  | characterLiteral
  | decimalIntegerLiteral
  | ifStatement
  | returnStatement
  | updateExpression
  | assignmentExpression
  | lambdaExpression
  | ternaryExpression
  | this
  | other (name : String)
deriving DecidableEq, Repr

namespace NodeKind

/-- Kind of a node from its name in the grammar. -/
def ofGrammar : String → NodeKind
  | "identifier" => identifier
  | "argument_list" => argumentList
  | "parenthesized_expression" => parenthesizedExpression
  | "block" => block
  | "expression_statement" => expressionStatement
  | "comment" | "line_comment" | "block_comment" => comment
  | "true" => trueLiteral
  | "false" => falseLiteral
  | "ERROR" => error
  | "module" => module
  | "call" => call
  | "attribute" => attributeAccess
  | "keyword_argument" => keywordArgument
  | "list_splat" => listSplat
  | "dictionary_splat" => dictionarySplat
  | "list" => list
  | "assignment" => assignment
  | "for_statement" => forStatement
  | "generator_expression" => generatorExpression
  | "pattern_list" => patternList
  | "program" => program
  | "binary_expression" => binaryExpression
  | "unary_expression" => unaryExpression
  | "method_invocation" => methodInvocation
  | "field_access" => fieldAccess
  | "null_literal" => nullLiteral
  | "local_variable_declaration" => localVariableDeclaration
  | "variable_declarator" => variableDeclarator
  | "type_identifier" => typeIdentifier
  | "string_literal" => stringLiteral
  | "character_literal" => characterLiteral
  | "decimal_integer_literal" => decimalIntegerLiteral
  | "if_statement" => ifStatement
  | "return_statement" => returnStatement
  | "update_expression" => updateExpression
  | "assignment_expression" => assignmentExpression
  | "lambda_expression" => lambdaExpression
  | "ternary_expression" => ternaryExpression
  | "this" => this
  | name => other name

/-- Name of a kind in listings. -/
def tag : NodeKind → String
  | identifier => "Identifier"
  | argumentList => "ArgumentList"
  | parenthesizedExpression => "ParenthesizedExpression"
  | block => "Block"
  | expressionStatement => "ExpressionStatement"
  | comment => "Comment"
  | trueLiteral => "True"
  | falseLiteral => "False"
  | error => "Error"
  | module => "Module"
  | call => "Call"
  | attributeAccess => "Attribute"
  | keywordArgument => "KeywordArgument"
  | listSplat => "ListSplat"
  | dictionarySplat => "DictionarySplat"
  | list => "List"
  | assignment => "Assignment"
  | forStatement => "ForStatement"
  | generatorExpression => "GeneratorExpression"
  | patternList => "PatternList"
  | program => "Program"
  | binaryExpression => "BinaryExpression"
  | unaryExpression => "UnaryExpression"
  | methodInvocation => "MethodInvocation"
  | fieldAccess => "FieldAccess"
  | nullLiteral => "NullLiteral"
  | localVariableDeclaration => "LocalVariableDeclaration"
  | variableDeclarator => "VariableDeclarator"
  | typeIdentifier => "TypeIdentifier"
  | stringLiteral => "StringLiteral"
  | characterLiteral => "CharacterLiteral"
  | decimalIntegerLiteral => "DecimalIntegerLiteral"
  | ifStatement => "IfStatement"
  | returnStatement => "ReturnStatement"
  | updateExpression => "UpdateExpression"
  | assignmentExpression => "AssignmentExpression"
  | lambdaExpression => "LambdaExpression"
  | ternaryExpression => "TernaryExpression"
  | this => "This"
  | other _ => "Other"

end NodeKind

end CorpusMark

set_option autoImplicit false

/-!
# Kinds of syntax nodes

The constructs that a PHP syntax tree tells apart, and the roles a child may play in its parent.

## Main definitions

* `Kind`: what a node is. Keywords and punctuation have the kind `token`; every other kind is a
  *named* one.
* `Role`: what a child is to its parent, where the grammar says so.
-/

namespace PhpCalls.Syntax

/-- What a node of the syntax tree is. -/
inductive Kind where
  /-- A keyword or a mark of punctuation. -/
  | token
  -- The page around the code.
  | program | phpTag | html | interlude | comment
  -- Names.
  | name | qualifiedName | namespaceName | relativeScope
  | variableName | dynamicVariableName
  -- Literals.
  | integer | float | boolean | null | string | encapsedString | heredoc | nowdoc | shellCommand
  | stringContent | arrayLiteral | arrayElement | listLiteral | byRef
  -- Expressions.
  | parenthesized | cast | castType | clone | unary | update | errorSuppression | binary
  | conditional | assignment | referenceAssignment | augmentedAssignment
  | functionCall | memberCall | nullsafeMemberCall | scopedCall
  | memberAccess | nullsafeMemberAccess | scopedPropertyAccess | classConstantAccess | subscript
  | objectCreation | anonymousClass | anonymousFunction | closureUses | arrowFunction
  | matchExpression | matchBlock | matchArm | matchConditions | matchDefault
  | print | throw | yield | include_ | includeOnce | require | requireOnce | sequence
  -- Arguments and parameters.
  | arguments | argument | variadicUnpacking | variadicPlaceholder | referenceModifier
  | parameters | simpleParameter | variadicParameter | promotedParameter
  -- Types.
  | namedType | primitiveType | optionalType | unionType | intersectionType | disjunctiveType
  | bottomType | typeList
  -- Modifiers and attributes.
  | visibilityModifier | staticModifier | abstractModifier | finalModifier | readonlyModifier
  | varModifier | attributeList | attributeGroup | attributeItem
  -- Declarations.
  | namespaceDefinition | useDeclaration | useClause | useGroup
  | functionDefinition | methodDeclaration
  | classDeclaration | interfaceDeclaration | traitDeclaration | enumDeclaration
  | baseClause | interfaceClause | declarationList | enumCase
  | propertyDeclaration | propertyElement | propertyHooks | propertyHook
  | constDeclaration | constElement | traitUse | traitUseRules
  | globalDeclaration | staticDeclaration | staticVariable
  -- Statements.
  | block | colonBlock | emptyStatement | expressionStatement | echoStatement
  | ifStatement | elseIfClause | elseClause
  | switchStatement | switchBlock | caseClause | defaultClause
  | whileStatement | doStatement | forStatement | foreachStatement | foreachPair
  | gotoStatement | labelStatement | continueStatement | breakStatement | returnStatement
  | tryStatement | catchClause | finallyClause
  | declareStatement | declareDirective | exitStatement | unsetStatement
  deriving DecidableEq, Repr

/-- What a child is to its parent. -/
inductive Role where
  | name | type | body | parameters | returnType | defaultValue | value
  | function | arguments | object | scope | left | right | aliasName
  deriving DecidableEq, Repr

/-! ## Families of kinds -/

namespace Kind

/-- Named kinds are the constructs, as opposed to keywords and punctuation. -/
def isNamed (k : Kind) : Bool := k ≠ .token

/-- Comments, and the pages between a closing and the next opening tag, may stand between any two
tokens. -/
def isExtra (k : Kind) : Bool := k = .comment || k = .interlude

/-- Names, plain or with namespaces. -/
def isClassName (k : Kind) : Bool := k = .name || k = .qualifiedName

/-- The constructs that open a scope of variables. -/
def isFunctionScope (k : Kind) : Bool :=
  k = .functionDefinition || k = .methodDeclaration || k = .anonymousFunction || k = .arrowFunction

/-- The declarations that have a record of their own and own the calls in their bodies. -/
def isRoutine (k : Kind) : Bool := k = .functionDefinition || k = .methodDeclaration

/-- The declarations of classes, interfaces, traits and enumerations. -/
def isClassLike (k : Kind) : Bool :=
  k = .classDeclaration || k = .interfaceDeclaration || k = .traitDeclaration || k =
    .enumDeclaration

/-- The expressions that call something. -/
def isCall (k : Kind) : Bool :=
  k = .functionCall || k = .memberCall || k = .nullsafeMemberCall || k = .scopedCall
    || k = .objectCreation

end Kind

end PhpCalls.Syntax

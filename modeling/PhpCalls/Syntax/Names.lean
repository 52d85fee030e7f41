import PhpCalls.Syntax.Parse

set_option autoImplicit false

/-!
# Grammar: names, variables and types

The parts of the grammar that hold no statement, and an expression only between braces.

## Main definitions

* `Grammar.qualified`: a name with or without namespaces.
* `Grammar.variable_`: `$x`, `$$x` and the like.
* `Grammar.type`: a type in a declaration.
-/

namespace PhpCalls.Syntax.Grammar

open Parse

/-- A word after a backslash. -/
def subspace : Parse Fragment := row [mark "\\", name]

/-- A name, or a name with namespaces before it. -/
def qualified : Parse Fragment := do
  if ← seesMark "\\" then node .qualifiedName [mark "\\", name, repeated subspace]
  else if ← seesSecond (Token.isMark "\\") then
    node .qualifiedName [name, repeated subspace]
  else name

/-- The words of a namespace, with backslashes between them. -/
def namespaceName : Parse Fragment := node .namespaceName [name, repeated subspace]

/-- `$x`. -/
def plainVariable : Parse Fragment := node .variableName [mark "$", name]

/-- At most `n` marks `$` before a variable or an expression between braces. -/
def variableWithin (r : Rules) : Nat → Parse Fragment
  | 0 => failure
  | n + 1 => do
    if ← seesSecond fun t => t.sort = some .word then plainVariable
    else if ← seesSecond (Token.isMark "\x7b") then
      node .dynamicVariableName [mark "$", mark "\x7b", r.expression 0, mark "\x7d"]
    else node .dynamicVariableName [mark "$", variableWithin r n]

/-- `$x`, `$$x` or an expression between braces after `$`. -/
def variable_ (r : Rules) : Parse Fragment := do variableWithin r (← ahead).length

/-! ## Types -/

/-- The types that are no classes. They are written in small letters. -/
def primitiveTypes : List String :=
  ["array", "callable", "iterable", "bool", "float", "int", "string", "void", "mixed", "false",
   "null", "true"]

/-- A type that is one name. -/
def typeAtom : Parse Fragment := do
  match (← ahead).head? with
  | some t =>
    if ← seesSecond (Token.isMark "\\") then node .namedType [qualified]
    else if primitiveTypes.contains t.text || t.folded = "callable" then
      leafIf .primitiveType fun _ => true
    else if t.text = "never" then leafIf .bottomType fun _ => true
    else node .namedType [qualified]
  | none => failure

/-- The `&` between two types, as opposed to the one before a parameter passed by reference. -/
def ampersand : Parse Fragment := do
  if ← seesSecond fun t => t.sort = some .word || t.isMark "\\" || t.isMark "(" then mark "&"
  else failure

/-- A part of a union: one name, or several with `&` between them in parentheses. -/
def typeUnit : Parse Fragment := do
  if ← seesMark "(" then
    node .intersectionType [mark "(", typeAtom, repeated (row [ampersand, typeAtom]), mark ")"]
  else typeAtom

/-- A type. -/
def type : Parse Fragment := do
  if ← seesMark "?" then node .optionalType [mark "?", typeAtom]
  else
    let first ← typeUnit
    let rest ← repeated (row [mark "|" <|> ampersand, typeUnit])
    if rest.isEmpty then return first
    else
      let parts := first ++ rest
      let has (p : Node → Bool) : Bool := parts.any fun q => p q.node
      let k : Kind :=
        if has fun n => n.kind = .intersectionType then .disjunctiveType
        else if has fun n => n.text = "|" then .unionType
        else .intersectionType
      return parts.close k

/-- The type after the colon of a routine. -/
def returnType : Parse Fragment := ifMark ":" (row [mark ":", role .returnType type])

end PhpCalls.Syntax.Grammar

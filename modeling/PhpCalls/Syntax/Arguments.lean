import PhpCalls.Syntax.Names

set_option autoImplicit false

/-!
# Grammar: arguments, arrays and texts with variables

The rows of expressions between brackets or quotes.

## Main definitions

* `Grammar.arguments`: the arguments of a call.
* `Grammar.attributes`: attributes before a declaration.
* `Grammar.elements`: the elements of an array.
* `Grammar.template`: a text with variables in it.
-/

namespace PhpCalls.Syntax.Grammar

open Parse

/-- `...` before an expression. -/
def unpacking (r : Rules) : Parse Fragment := node .variadicUnpacking [mark "...", r.expression 0]

/-- One argument of a call. -/
def argument (r : Rules) : Parse Fragment := do
  if (← seesMark "...") && (← seesSecond (Token.isMark ")")) then markAs .variadicPlaceholder "..."
  else
    let named := (← sees fun t => t.sort = some .word) && (← seesSecond (Token.isMark ":"))
    node .argument
      [if named then row [role .name name, mark ":"] else nothing,
       ifMark "&" (markAs .referenceModifier "&"),
       do if ← seesMark "..." then unpacking r else r.expression 0]

/-- The arguments of a call. -/
def arguments (r : Rules) : Parse Fragment :=
  node .arguments [mark "(", separated ")" (argument r), mark ")"]

/-! ## Attributes -/

/-- One attribute. -/
def attribute_ (r : Rules) : Parse Fragment :=
  node .attributeItem [qualified, ifMark "(" (role .parameters (arguments r))]

/-- The attributes before a declaration. -/
def attributes (r : Rules) : Parse Fragment := do
  if ← seesMark "#[" then
    node .attributeList
      [repeated (node .attributeGroup [mark "#[", separated "]" (attribute_ r), mark "]"])]
  else nothing

/-! ## Arrays -/

/-- A value in an array, with or without `&`. -/
def elementValue (r : Rules) : Parse Fragment := do
  if ← seesMark "&" then node .byRef [mark "&", r.expression 0] else r.expression 0

/-- One element of an array; nothing between two commas. -/
def element (r : Rules) : Parse Fragment := do
  if ← seesMark "," then nothing
  else if ← seesMark "..." then node .arrayElement [unpacking r]
  else node .arrayElement [elementValue r, ifMark "=>" (row [mark "=>", elementValue r])]

/-- The elements of an array up to the mark `closer`. -/
def elements (r : Rules) (closer : String) : Parse Fragment := separated closer (element r)

/-! ## Texts with variables -/

/-- The index between the brackets of a variable in a text. -/
def simpleIndex : Parse Fragment := do
  if ← seesMark "$" then plainVariable
  else if ← seesMark "-" then node .unary [mark "-", ofSort .integer .integer]
  else name <|> ofSort .integer .integer

/-- A variable in a text, with at most one subscript or property. -/
def simpleVariable : Parse Fragment := do
  let base ← plainVariable
  if ← seesMark "[" then node .subscript [pure base, mark "[", simpleIndex, mark "]"]
  else if ← seesMark "->" then
    node .memberAccess [role .object (pure base), mark "->", role .name name]
  else if ← seesMark "?->" then
    node .nullsafeMemberAccess [role .object (pure base), mark "?->", role .name name]
  else return base

/-- A piece of a text with variables. -/
def templatePart (r : Rules) : Parse Fragment := do
  if ← seesMark "\x7b" then row [mark "\x7b", r.expression 0, mark "\x7d"]
  else if ← seesMark "$" then
    if ← seesSecond (Token.isMark "\x7b") then
      node .dynamicVariableName [mark "$", mark "\x7b", r.expression 0, mark "\x7d"]
    else simpleVariable
  else ofSort .stringContent .textContent

/-- The kind of a text with variables, by the way it begins. -/
def templateKind (opening : String) : Kind :=
  match opening.toList with
  | '<' :: _ => .heredoc
  | '`' :: _ => .shellCommand
  | _ => .encapsedString

/-- A text with variables in it. -/
def template (r : Rules) : Parse Fragment := do
  match (← ahead).head? with
  | some t =>
    node (templateKind t.text)
      [ofSort .token .textOpen,
       until_ (fun t => t.sort = some .textClose) (templatePart r),
       ofSort .token .textClose]
  | none => failure

end PhpCalls.Syntax.Grammar

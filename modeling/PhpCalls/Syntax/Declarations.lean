import PhpCalls.Syntax.Arguments

set_option autoImplicit false

/-!
# Grammar: routines and classes

Parameters, functions with and without a name, and the bodies of classes, interfaces, traits and
enumerations.

## Main definitions

* `Grammar.parameters`, `Grammar.block`: the parameters and the body of a routine.
* `Grammar.functionDefinition`, `Grammar.closure`, `Grammar.arrowFunction`: the routines outside
  classes.
* `Grammar.member`: what stands in the body of a class.
* `Grammar.classLike`, `Grammar.anonymousClass`: classes, interfaces, traits and enumerations.
-/

namespace PhpCalls.Syntax.Grammar

open Parse

/-- Statements between braces. -/
def block (r : Rules) : Parse Fragment :=
  node .block [mark "\x7b", until_ (Token.isMark "\x7d") r.statement, mark "\x7d"]

/-! ## Modifiers -/

/-- The kind of a modifier, by its word. -/
def modifierKind? (w : String) : Option Kind :=
  match w with
  | "public" | "protected" | "private" => some .visibilityModifier
  | "static" => some .staticModifier
  | "abstract" => some .abstractModifier
  | "final" => some .finalModifier
  | "readonly" => some .readonlyModifier
  | "var" => some .varModifier
  | _ => none

/-- One modifier. The visibility of writing, such as `private(set)`, is one modifier. -/
def modifier : Parse Fragment := do
  match ← ahead with
  | t :: ts =>
    match if t.sort = some .word then modifierKind? t.folded else none with
    | some .visibilityModifier =>
      let forWriting := ts.head?.any (Token.isMark "(") && ts[1]?.any (Token.isWord "set")
      node .visibilityModifier
        [anyToken, if forWriting then row [mark "(", word "set", mark ")"] else nothing]
    | some k => leafIf k fun _ => true
    | none => failure
  | [] => failure

/-- The modifiers before a declaration. -/
def modifiers : Parse Fragment := repeated modifier

/-! ## Routines -/

/-- A parameter of a hook. -/
def hookParameter (r : Rules) : Parse Fragment :=
  node .simpleParameter
    [attributes r, do if ← seesMark "$" then nothing else role .type type,
     role .name plainVariable]

/-- A hook of a property. -/
def propertyHook (r : Rules) : Parse Fragment :=
  node .propertyHook
    [attributes r, modifiers, ifMark "&" (markAs .referenceModifier "&"), name,
     ifMark "(" (role .parameters (node .parameters
       [mark "(", separated ")" (hookParameter r), mark ")"])),
     do
      if ← seesMark "\x7b" then role .body (block r)
      else row [ifMark "=>" (row [mark "=>", role .body (r.expression 0)]), mark ";"]]

/-- The hooks of a property. -/
def propertyHooks (r : Rules) : Parse Fragment :=
  node .propertyHooks [mark "\x7b", until_ (Token.isMark "\x7d") (propertyHook r), mark "\x7d"]

/-- A default value after `=`. -/
def defaultValue (r : Rules) : Parse Fragment :=
  ifMark "=" (row [mark "=", role .defaultValue (r.expression 0)])

/-- One parameter of a routine. Modifiers make a property of it. -/
def parameter (r : Rules) : Parse Fragment := do
  let attrs ← attributes r
  let mods ← modifiers
  let declared ← do
    if ← seesMarkOf ["$", "&", "..."] then nothing else role .type type
  let lead := attrs ++ mods ++ declared
  if !mods.isEmpty then
    node .promotedParameter
      [pure lead,
       role .name (do
        if ← seesMark "&" then node .byRef [mark "&", plainVariable] else plainVariable),
       defaultValue r, ifMark "\x7b" (propertyHooks r)]
  else
    let reference ← ifMark "&" (markAs .referenceModifier "&")
    if ← seesMark "..." then
      node .variadicParameter [pure (lead ++ reference), mark "...", role .name plainVariable]
    else
      node .simpleParameter [pure (lead ++ reference), role .name plainVariable, defaultValue r]

/-- The parameters of a routine. -/
def parameters (r : Rules) : Parse Fragment :=
  node .parameters [mark "(", separated ")" (parameter r), mark ")"]

/-- `&` before the name of a routine that returns a reference. -/
def returnsReference : Parse Fragment := ifMark "&" (markAs .referenceModifier "&")

/-- The parameters, the type and the end of a declared routine: a body, or a semicolon. -/
def signature (r : Rules) : Parse Fragment :=
  row [role .parameters (parameters r), returnType,
    do if ← seesMark "\x7b" then role .body (block r) else semicolon]

/-- A function with a name. -/
def functionDefinition (r : Rules) : Parse Fragment :=
  node .functionDefinition
    [attributes r, word "function", returnsReference, role .name name, signature r]

/-- The variables that a function without a name takes with it. -/
def closureUses : Parse Fragment :=
  node .closureUses
    [word "use", mark "(",
     separated ")" (do
      if ← seesMark "&" then node .byRef [mark "&", plainVariable] else plainVariable),
     mark ")"]

/-- A function without a name. -/
def closure (r : Rules) : Parse Fragment :=
  node .anonymousFunction
    [attributes r, ifWord "static" (wordAs .staticModifier "static"), word "function",
     returnsReference, role .parameters (parameters r), ifWord "use" closureUses, returnType,
     role .body (block r)]

/-- A function that is one expression. -/
def arrowFunction (r : Rules) : Parse Fragment :=
  node .arrowFunction
    [attributes r, ifWord "static" (wordAs .staticModifier "static"), word "fn", returnsReference,
     role .parameters (parameters r), returnType, mark "=>", role .body (r.expression 0)]

/-! ## Members of classes -/

/-- A constant and its value. -/
def constElement (r : Rules) : Parse Fragment :=
  node .constElement [name, mark "=", r.expression 0]

/-- The type of a constant; a word before `=` is the constant itself. -/
def constType : Parse Fragment := do
  if (← sees fun t => t.sort = some .word) && (← seesSecond (Token.isMark "=")) then nothing
  else role .type type

/-- Constants after `const`. -/
def constants (r : Rules) : Parse Fragment :=
  row [word "const", constType, commaList (constElement r), semicolon]

/-- The members that a class takes from traits. -/
def traitUse : Parse Fragment :=
  node .traitUse
    [word "use", commaList qualified,
     do
      if ← seesMark "\x7b" then
        node .traitUseRules [mark "\x7b", until_ (Token.isMark "\x7d") anyToken, mark "\x7d"]
      else semicolon]

/-- A case of an enumeration. -/
def enumCase (r : Rules) : Parse Fragment :=
  row [word "case", role .name name, ifMark "=" (row [mark "=", role .value (r.expression 0)]),
    semicolon]

/-- A property and its default value. -/
def propertyElement (r : Rules) : Parse Fragment :=
  node .propertyElement [role .name plainVariable, defaultValue r]

/-- Properties after their modifiers. -/
def properties (r : Rules) : Parse Fragment :=
  row
    [do if ← seesMark "$" then nothing else role .type type,
     commaList (propertyElement r),
     do if ← seesMark "\x7b" then propertyHooks r else semicolon]

/-- What stands in the body of a class. -/
def member (r : Rules) : Parse Fragment := do
  let lead := row [attributes r, modifiers]
  if ← seesWord "use" then traitUse
  else
    let before ← lead
    if ← seesWord "function" then
      node .methodDeclaration
        [pure before, word "function", returnsReference, role .name name, signature r]
    else if ← seesWord "const" then node .constDeclaration [pure before, constants r]
    else if ← seesWord "case" then node .enumCase [pure before, enumCase r]
    else node .propertyDeclaration [pure before, properties r]

/-- The body of a class. -/
def declarationList (r : Rules) : Parse Fragment :=
  node .declarationList [mark "\x7b", until_ (Token.isMark "\x7d") (member r), mark "\x7d"]

/-! ## Classes -/

/-- What a class extends. -/
def baseClause : Parse Fragment :=
  ifWord "extends" (node .baseClause [word "extends", commaList qualified])

/-- What a class implements. -/
def interfaceClause : Parse Fragment :=
  ifWord "implements" (node .interfaceClause [word "implements", commaList qualified])

/-- The kind of a declaration, by the keyword before its name. -/
def classKind? (w : String) : Option Kind :=
  match w with
  | "class" => some .classDeclaration
  | "interface" => some .interfaceDeclaration
  | "trait" => some .traitDeclaration
  | "enum" => some .enumDeclaration
  | _ => none

/-- The type of the values of an enumeration. -/
def enumType : Parse Fragment := ifMark ":" (row [mark ":", type])

/-- A class, an interface, a trait or an enumeration. -/
def classLike (r : Rules) : Parse Fragment := do
  let before ← row [attributes r, modifiers]
  match (← ahead).head?.bind fun t => if t.sort = some .word then classKind? t.folded else none with
  | some k =>
    node k
      [pure before, anyToken, role .name name, enumType, baseClause, interfaceClause,
       role .body (declarationList r)]
  | none => failure

/-- A class without a name, after `new`. -/
def anonymousClass (r : Rules) : Parse Fragment :=
  node .anonymousClass
    [attributes r, modifiers, word "class", ifMark "(" (arguments r), baseClause, interfaceClause,
     declarationList r]

end PhpCalls.Syntax.Grammar

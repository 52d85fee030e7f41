import PhpCalls.Syntax.Declarations

set_option autoImplicit false

/-!
# Grammar: expressions

An expression is a row of operands with binary operators between them, which bind by their levels.
An operand is a primary expression with what follows it, a prefix operator before another operand,
or an assignment: wherever a variable stands before `=`, the assignment is taken, whatever operator
stands before the variable.

## Main definitions

* `Grammar.operand`: an operand.
* `Grammar.expression`: an expression whose operators bind at least as tightly as a level.
-/

namespace PhpCalls.Syntax.Grammar

open Parse

/-! ## Levels -/

/-- The levels at which binary operators bind, the loosest first. -/
def operatorLevel? (t : Token) : Option Nat :=
  match t.sort with
  | some .word =>
    match t.folded with
    | "or" => some 1
    | "xor" => some 2
    | "and" => some 3
    | "instanceof" => some 20
    | _ => none
  | some .mark =>
    match t.text with
    | "?" => some 5
    | "??" => some 6
    | "||" => some 7
    | "&&" => some 8
    | "|" => some 9
    | "^" => some 10
    | "&" => some 11
    | "==" | "!=" | "<>" | "===" | "!==" => some 12
    | "<" | ">" | "<=" | ">=" | "<=>" => some 13
    | "." => some 14
    | "<<" | ">>" => some 15
    | "+" | "-" => some 16
    | "*" | "/" | "%" => some 17
    | "**" => some 18
    | _ => none
  | _ => none

/-- The level of assignments: looser than all operators but `and`, `xor` and `or`. -/
def assignmentLevel : Nat := 4

/-- Binds tighter than every binary operator. -/
def operandLevel : Nat := 100

/-- The operators of assignments that compute. -/
def computingAssignments : List String :=
  ["+=", "-=", "*=", "/=", "%=", "**=", ".=", "??=", "&=", "|=", "^=", "<<=", ">>="]

/-! ## After an operand -/

/-- The member after an arrow: a name, a variable, or an expression between braces. -/
def memberName (r : Rules) : Parse Fragment := do
  if ← seesMark "\x7b" then row [mark "\x7b", role .name (r.expression 0), mark "\x7d"]
  else if ← seesMark "$" then role .name (variable_ r)
  else role .name name

/-- A property or a method of the object `base`. -/
def memberOf (r : Rules) (base : Fragment) : Parse Fragment := do
  let nullsafe ← seesMark "?->"
  let access ← row [role .object (pure base), anyToken, memberName r]
  if (← seesMark "(") && (← sameStatement) then
    node (if nullsafe then .nullsafeMemberCall else .memberCall)
      [pure access, role .arguments (arguments r)]
  else return access.close (if nullsafe then .nullsafeMemberAccess else .memberAccess)

/-- A class before `::`. The words `self`, `static` and `parent` name classes by where they
stand. -/
def scopeOf (base : Fragment) : Fragment :=
  let isRelative (n : Node) : Bool :=
    n.kind = .name
      && ["self", "static", "parent"].contains (String.ofList (n.text.toList.map Char.toLower))
  Fragment.inRole .scope <| base.map fun p =>
    if isRelative p.node then
      ⟨p.gap, .mk none .relativeScope p.node.text p.node.startLine p.node.endLine [p.node]⟩
    else p

/-- A constant, a property or a method of the class `base`. -/
def scopedOf (r : Rules) (base : Fragment) : Parse Fragment := do
  let isProperty ← seesSecond (Token.isMark "$")
  let access ← row [pure (scopeOf base), mark "::", memberName r]
  if (← seesMark "(") && (← sameStatement) then
    node .scopedCall [pure access, role .arguments (arguments r)]
  else return access.close (if isProperty then .scopedPropertyAccess else .classConstantAccess)

/-- An element of the array `base`. -/
def elementOf (r : Rules) (base : Fragment) : Parse Fragment :=
  node .subscript
    [pure base, mark "[", do if ← seesMark "]" then nothing else r.expression 0, mark "]"]

/-- An element of the array `base`, with braces. -/
def bracedElementOf (r : Rules) (base : Fragment) : Parse Fragment :=
  node .subscript [pure base, mark "\x7b", r.expression 0, mark "\x7d"]

/-- A call of `base`. -/
def callOf (r : Rules) (base : Fragment) : Parse Fragment :=
  node .functionCall [role .function (pure base), role .arguments (arguments r)]

/-- What may stand before `=`. -/
def isAssignable (k : Option Kind) : Bool :=
  match k with
  | some k =>
    [Kind.variableName, .dynamicVariableName, .subscript, .memberAccess, .nullsafeMemberAccess,
     .scopedPropertyAccess, .listLiteral, .arrayLiteral, .functionCall, .memberCall, .scopedCall,
     .nullsafeMemberCall].contains k
  | none => false

/-- Arrays before `=` are patterns. -/
def asPattern (base : Fragment) : Fragment :=
  base.map fun p =>
    match p.node with
    | .mk role .arrayLiteral t s e cs => ⟨p.gap, .mk role .listLiteral t s e cs⟩
    | _ => p

/-- An assignment to `base`, if one follows. -/
def assignmentTo (r : Rules) (base : Fragment) : Parse Fragment := do
  if !(← sameStatement) || !isAssignable (Fragment.kind? base) then return base
  else if ← seesMark "=" then
    let target := role .left (pure (asPattern base))
    if ← seesSecond (Token.isMark "&") then
      node .referenceAssignment
        [target, mark "=", mark "&", role .right (r.expression assignmentLevel)]
    else node .assignment [target, mark "=", role .right (r.expression assignmentLevel)]
  else if ← seesMarkOf computingAssignments then
    node .augmentedAssignment
      [role .left (pure base), anyToken, role .right (r.expression assignmentLevel)]
  else return base

/-- Variables take a subscript between braces. -/
def takesBraces (k : Option Kind) : Bool :=
  k = some .variableName || k = some .subscript || k = some .memberAccess

/-- What follows an operand, at most `n` parts of it. -/
def postfixesWithin (r : Rules) : Nat → Fragment → Parse Fragment
  | 0, base => return base
  | n + 1, base => do
    if !(← sameStatement) then return base
    else if ← seesMark "[" then postfixesWithin r n (← elementOf r base)
    else if ← seesMark "(" then postfixesWithin r n (← callOf r base)
    else if ← seesMarkOf ["->", "?->"] then postfixesWithin r n (← memberOf r base)
    else if ← seesMark "::" then postfixesWithin r n (← scopedOf r base)
    else if (← seesMark "\x7b") && takesBraces (Fragment.kind? base) then
      postfixesWithin r n (← bracedElementOf r base)
    else if ← seesMarkOf ["++", "--"] then node .update [pure base, anyToken]
    else assignmentTo r base

/-- An operand with what follows it. -/
def withPostfixes (r : Rules) (p : Parse Fragment) : Parse Fragment := do
  let base ← p
  postfixesWithin r ((← ahead).length + 1) base

/-! ## Operands that begin with a word -/

/-- What follows the class or variable after `new` or `instanceof`: all but calls. -/
def designatorTail (r : Rules) : Nat → Fragment → Parse Fragment
  | 0, base => return base
  | n + 1, base => do
    if !(← sameStatement) then return base
    else if ← seesMark "[" then designatorTail r n (← elementOf r base)
    else if ← seesMarkOf ["->", "?->"] then
      let nullsafe ← seesMark "?->"
      let access ← row [role .object (pure base), anyToken, memberName r]
      designatorTail r n
        (access.close (if nullsafe then .nullsafeMemberAccess else .memberAccess))
    else if (← seesMark "::") && (← seesSecond (Token.isMark "$")) then
      let access ← row [pure (scopeOf base), mark "::", role .name (variable_ r)]
      designatorTail r n (access.close .scopedPropertyAccess)
    else return base

/-- The class after `new` or `instanceof`. -/
def designator (r : Rules) : Parse Fragment := do
  if ← seesMark "(" then node .parenthesized [mark "(", r.expression 0, mark ")"]
  else
    let base ← do if ← seesMark "$" then variable_ r else qualified
    if Fragment.kind? base = some .name || Fragment.kind? base = some .qualifiedName then
      if ← seesMark "::" then designatorTail r ((← ahead).length + 1) base else return base
    else designatorTail r ((← ahead).length + 1) base

/-- A class without a name follows `new`. -/
def seesAnonymousClass : Parse Bool := do
  let isModifier (t : Token) : Bool :=
    t.isWord "readonly" || t.isWord "final" || t.isWord "abstract"
  match (← ahead).drop 1 with
  | t :: ts =>
    return t.isMark "#[" || t.isWord "class" ||
      (isModifier t && ts.head?.any (Token.isWord "class"))
  | [] => return false

/-- The creation of an object. With arguments it may be gone on with. -/
def creation (r : Rules) : Parse Fragment := do
  if ← seesAnonymousClass then
    withPostfixes r (node .objectCreation [word "new", anonymousClass r])
  else
    let begun ← row [word "new", designator r]
    if (← seesMark "(") && (← sameStatement) then
      withPostfixes r (node .objectCreation [pure begun, arguments r])
    else return begun.close .objectCreation

/-- One way of a `match`: conditions or `default`, and a value. -/
def matchArm (r : Rules) : Parse Fragment := do
  if (← seesWord "default") && (← seesSecond fun t => t.isMark "=>" || t.isMark ",") then
    node .matchDefault
      [word "default", ifMark "," (mark ","), mark "=>", role .value (r.expression 0)]
  else
    node .matchArm
      [node .matchConditions [separated "=>" (r.expression 0)], mark "=>",
       role .value (r.expression 0)]

/-- A `match`. -/
def matchExpression (r : Rules) : Parse Fragment :=
  node .matchExpression
    [word "match", node .parenthesized [mark "(", r.expression 0, mark ")"],
     node .matchBlock [mark "\x7b", separated "\x7d" (matchArm r), mark "\x7d"]]

/-- Nothing follows `yield`. -/
def endsYield (t : Token) : Bool :=
  t.isEnd || t.afterClosingTag
    || (t.sort = some .mark && [";", ")", ",", "]", "\x7d", ":"].contains t.text)

/-- A `yield`. -/
def yieldExpression (r : Rules) : Parse Fragment :=
  node .yield
    [word "yield",
     do
      if ← seesWord "from" then row [word "from", r.expression 0]
      else if ← sees endsYield then nothing
      else row [r.expression 0, ifMark "=>" (row [mark "=>", r.expression 0])]]

/-- The kinds of the operators that include a file. -/
def includeKind? (w : String) : Option Kind :=
  match w with
  | "include" => some .include_
  | "include_once" => some .includeOnce
  | "require" => some .require
  | "require_once" => some .requireOnce
  | _ => none

/-- A word before an expression that takes in everything after it. -/
def swallowing (r : Rules) (k : Kind) : Parse Fragment := node k [anyToken, r.expression 0]

/-- A name, a call of a function, or a constant. -/
def nameOperand (r : Rules) : Parse Fragment := withPostfixes r qualified

/-- A word that is a name unless the grammar has another use for it. -/
def plainWordOperand (r : Rules) (t : Token) : Parse Fragment := do
  let called ← seesSecond (Token.isMark "(")
  match t.folded with
  | "true" | "false" => leafIf .boolean fun _ => true
  | "null" => leafIf .null fun _ => true
  | "static" =>
    if ← seesSecond (Token.isWord "function") then closure r
    else if ← seesSecond (Token.isWord "fn") then arrowFunction r
    else nameOperand r
  | "match" => matchExpression r <|> nameOperand r
  | "array" =>
    if called then
      withPostfixes r (node .arrayLiteral [anyToken, mark "(", elements r ")", mark ")"])
    else nameOperand r
  | "list" =>
    if called then
      withPostfixes r (node .listLiteral [anyToken, mark "(", elements r ")", mark ")"])
    else nameOperand r
  | _ => nameOperand r

/-- An operand that begins with a word. -/
def wordOperand (r : Rules) (t : Token) : Parse Fragment := do
  match includeKind? t.folded with
  | some k => swallowing r k
  | none =>
    match t.folded with
    | "new" => creation r
    | "clone" => node .clone [anyToken, r.expression operandLevel]
    | "print" => swallowing r .print
    | "throw" => swallowing r .throw
    | "yield" => yieldExpression r
    | "function" => closure r
    | "fn" => arrowFunction r
    | _ =>
      if ← seesSecond fun u => u.isMark "\\" || u.isMark "::" then nameOperand r
      else plainWordOperand r t

/-! ## Operands that begin with a mark -/

/-- The words that may stand in a cast. -/
def castTypes : List String :=
  ["array", "binary", "bool", "boolean", "double", "int", "integer", "float", "object", "real",
   "string", "unset"]

/-- A parenthesis opens a cast. -/
def seesCast : Parse Bool := do
  match (← ahead).drop 1 with
  | t :: u :: _ => return t.sort = some .word && castTypes.contains t.folded && u.isMark ")"
  | _ => return false

/-- An operand that begins with a mark. -/
def markOperand (r : Rules) (t : Token) : Parse Fragment := do
  match t.text with
  | "$" => withPostfixes r (variable_ r)
  | "\\" => nameOperand r
  | "[" => withPostfixes r (node .arrayLiteral [mark "[", elements r "]", mark "]"])
  | "(" =>
    if ← seesCast then
      node .cast
        [mark "(", role .type (leafIf .castType fun _ => true), mark ")",
         role .value (r.expression operandLevel)]
    else withPostfixes r (node .parenthesized [mark "(", r.expression 0, mark ")"])
  | "!" | "+" | "-" | "~" => node .unary [anyToken, r.expression 20]
  | "@" => node .errorSuppression [anyToken, r.expression 21]
  | "++" | "--" => node .update [anyToken, r.expression operandLevel]
  | "&" => node .byRef [anyToken, r.expression operandLevel]
  | "#[" => closure r <|> arrowFunction r
  | _ => failure

/-- An operand. -/
def operand (r : Rules) : Parse Fragment := do
  match (← ahead).head? with
  | none => failure
  | some t =>
    match t.sort with
    | some .word => wordOperand r t
    | some .mark => markOperand r t
    | some .integer => ofSort .integer .integer
    | some .float => ofSort .float .float
    | some .string => withPostfixes r (ofSort .string .string)
    | some .nowdoc => withPostfixes r (ofSort .nowdoc .nowdoc)
    | some .textOpen => withPostfixes r (template r)
    | _ => failure

/-! ## Binary operators -/

/-- The operator at level `l` and the operand after `left`. -/
def operationOn (r : Rules) (left : Fragment) (l : Nat) (t : Token) : Parse Fragment := do
  match t.folded with
  | "?" =>
    node .conditional
      [pure left, mark "?", do if ← seesMark ":" then nothing else r.expression 0, mark ":",
       r.expression 6]
  | "instanceof" => node .binary [role .left (pure left), anyToken, role .right (designator r)]
  | "??" => node .binary [role .left (pure left), anyToken, role .right (r.expression 6)]
  | "**" => node .binary [role .left (pure left), anyToken, role .right (r.expression 18)]
  | _ => node .binary [role .left (pure left), anyToken, role .right (r.expression (l + 1))]

/-- What follows the operand `left`, at most `n` operators of level `least` or tighter. -/
def operationsWithin (r : Rules) (least : Nat) : Nat → Fragment → Parse Fragment
  | 0, left => return left
  | n + 1, left => do
    if !(← sameStatement) then return left
    else
      match (← ahead).head?.bind fun t => (operatorLevel? t).map fun l => (t, l) with
      | some (t, l) =>
        if least ≤ l then operationsWithin r least n (← operationOn r left l t) else return left
      | none => return left

/-- An expression whose operators bind at least as tightly as the level `least`. -/
def expression (r : Rules) (least : Nat) : Parse Fragment := do
  let first ← operand r
  operationsWithin r least ((← ahead).length + 1) first

end PhpCalls.Syntax.Grammar

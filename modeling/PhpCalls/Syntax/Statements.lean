import PhpCalls.Syntax.Expressions

set_option autoImplicit false

/-!
# Grammar: statements

## Main definitions

* `Grammar.statement`: a statement, which its first words tell apart.
-/

namespace PhpCalls.Syntax.Grammar

open Parse

/-- An expression in parentheses. -/
def condition (r : Rules) : Parse Fragment :=
  node .parenthesized [mark "(", r.expression 0, mark ")"]

/-- The next token is one of the words `ws`. -/
def isWordOf (ws : List String) (t : Token) : Bool := t.sort = some .word && ws.contains t.folded

/-- Statements after a colon, up to one of the words `ws`. -/
def colonBlock (r : Rules) (ws : List String) : Parse Fragment :=
  node .colonBlock [mark ":", until_ (isWordOf ws) r.statement]

/-- One statement, or statements between a colon and the word `closer`. -/
def bodyOrColon (r : Rules) (closer : String) : Parse Fragment := do
  if ← seesMark ":" then row [role .body (colonBlock r [closer]), word closer, semicolon]
  else role .body r.statement

/-! ## Branches and loops -/

/-- The words that end a branch of an `if` with colons. -/
def branchEnds : List String := ["elseif", "else", "endif"]

/-- An `if`. -/
def ifStatement (r : Rules) : Parse Fragment := do
  let begun ← row [word "if", condition r]
  if ← seesMark ":" then
    node .ifStatement
      [pure begun, role .body (colonBlock r branchEnds),
       repeated (node .elseIfClause [word "elseif", condition r, colonBlock r branchEnds]),
       ifWord "else" (node .elseClause [word "else", colonBlock r branchEnds]),
       word "endif", semicolon]
  else
    node .ifStatement
      [pure begun, role .body r.statement,
       repeated (node .elseIfClause [word "elseif", condition r, r.statement]),
       ifWord "else" (node .elseClause [word "else", r.statement])]

/-- A case of a `switch`. -/
def switchCase (r : Rules) : Parse Fragment := do
  let colon := mark ":" <|> mark ";"
  let stop (t : Token) : Bool := t.isMark "\x7d" || isWordOf ["case", "default", "endswitch"] t
  if ← seesWord "default" then node .defaultClause [word "default", colon, until_ stop r.statement]
  else node .caseClause [word "case", r.expression 0, colon, until_ stop r.statement]

/-- A `switch`. -/
def switchStatement (r : Rules) : Parse Fragment :=
  node .switchStatement
    [word "switch", condition r,
     do
      if ← seesMark ":" then
        row [node .switchBlock [mark ":", until_ (Token.isWord "endswitch") (switchCase r)],
          word "endswitch", semicolon]
      else
        node .switchBlock
          [mark "\x7b", ifMark ";" (mark ";"), until_ (Token.isMark "\x7d") (switchCase r),
            mark "\x7d"]]

/-- A `while`. -/
def whileStatement (r : Rules) : Parse Fragment :=
  node .whileStatement [word "while", condition r, bodyOrColon r "endwhile"]

/-- A `do`. -/
def doStatement (r : Rules) : Parse Fragment :=
  node .doStatement [word "do", role .body r.statement, word "while", condition r, semicolon]

/-- Expressions with commas between them, or none before the mark `closer`. -/
def expressionsBefore (r : Rules) (closer : String) : Parse Fragment := do
  if ← seesMark closer then nothing else commaList (r.expression 0)

/-- A `for`. -/
def forStatement (r : Rules) : Parse Fragment :=
  node .forStatement
    [word "for", mark "(", expressionsBefore r ";", mark ";", expressionsBefore r ";", mark ";",
     expressionsBefore r ")", mark ")", bodyOrColon r "endfor"]

/-- What a `foreach` binds, with or without `&`. -/
def foreachTarget (r : Rules) : Parse Fragment := do
  if ← seesMark "&" then node .byRef [mark "&", r.expression 0] else r.expression 0

/-- A `foreach`. -/
def foreachStatement (r : Rules) : Parse Fragment :=
  node .foreachStatement
    [word "foreach", mark "(", r.expression 0, word "as",
     do
      let first ← foreachTarget r
      if ← seesMark "=>" then node .foreachPair [pure first, mark "=>", foreachTarget r]
      else return first,
     mark ")", bodyOrColon r "endforeach"]

/-! ## Jumps -/

/-- A word with or without an expression after it. -/
def jump (r : Rules) (k : Kind) : Parse Fragment :=
  node k
    [anyToken,
     do
      if ← sees fun t => t.isMark ";" || t.isEnd || t.afterClosingTag then nothing
      else r.expression 0,
     semicolon]

/-- The end of the program. -/
def exitStatement (r : Rules) : Parse Fragment :=
  node .exitStatement
    [word "exit", ifMark "(" (row [mark "(", expressionsBefore r ")", mark ")"]), semicolon]

/-- A `try`. -/
def tryStatement (r : Rules) : Parse Fragment :=
  node .tryStatement
    [word "try", role .body (block r),
     repeated (node .catchClause
       [word "catch", mark "(",
        role .type (node .typeList [joined "|" (node .namedType [qualified])]),
        ifMark "$" (role .name plainVariable), mark ")", role .body (block r)]),
     ifWord "finally" (node .finallyClause [word "finally", role .body (block r)])]

/-! ## Declarations among statements -/

/-- A `declare`. -/
def declareStatement (r : Rules) : Parse Fragment :=
  node .declareStatement
    [word "declare", mark "(",
     separated ")" (node .declareDirective [anyToken, mark "=", r.expression 0]), mark ")",
     do if ← seesMark ";" then mark ";" else semicolon <|> bodyOrColon r "enddeclare"]

/-- A namespace, up to the next one or between braces. -/
def namespaceDefinition (r : Rules) : Parse Fragment :=
  node .namespaceDefinition
    [word "namespace",
      do if ← seesMark "\x7b" then nothing else optional (role .name namespaceName),
     do if ← seesMark "\x7b" then role .body (block r) else semicolon]

/-- The words `function` and `const` before an imported name. -/
def importSort : Parse Fragment := do
  if ← sees (isWordOf ["function", "const"]) then
    if ← seesSecond fun t => t.sort = some .word || t.isMark "\\" then anyToken else nothing
  else nothing

/-- An imported name and its other name here. -/
def importClause : Parse Fragment :=
  node .useClause
    [importSort, qualified, ifWord "as" (row [word "as", role .aliasName name])]

/-- Names imported from one namespace. -/
def importGroup : Parse Fragment :=
  row
    [importSort, ifMark "\\" (mark "\\"), namespaceName, mark "\\",
     node .useGroup [mark "\x7b", separated "\x7d" importClause, mark "\x7d"]]

/-- Imports. -/
def useDeclaration : Parse Fragment :=
  node .useDeclaration [word "use", importGroup <|> commaList importClause, semicolon]

/-- Variables of the page used in a function. -/
def globalDeclaration (r : Rules) : Parse Fragment :=
  node .globalDeclaration [word "global", commaList (variable_ r), semicolon]

/-- Variables that keep their values between calls. -/
def staticDeclaration (r : Rules) : Parse Fragment :=
  node .staticDeclaration
    [word "static",
     commaList (node .staticVariable
       [role .name plainVariable, ifMark "=" (row [mark "=", role .value (r.expression 0)])]),
     semicolon]

/-- An expression that stands as a statement. -/
def expressionStatement (r : Rules) : Parse Fragment :=
  node .expressionStatement [commaList (r.expression 0), semicolon]

/-! ## Statements -/

/-- A class, an interface, a trait or an enumeration begins here. -/
def beginsClass (ts : List Token) : Bool :=
  match ts.dropWhile (isWordOf ["abstract", "final", "readonly"]) with
  | t :: u :: _ =>
    isWordOf ["class", "interface", "trait", "enum"] t && u.sort = some .word
      && !(t.isWord "enum" && isWordOf ["extends", "implements"] u)
  | _ => false

/-- A function with a name begins here. -/
def beginsFunction (ts : List Token) : Bool :=
  match ts with
  | t :: u :: v :: _ =>
    t.isWord "function" && (u.sort = some .word || (u.isMark "&" && v.sort = some .word))
  | _ => false

/-- A statement that begins with a word. -/
def wordStatement (r : Rules) (t : Token) (second : Option Token) : Parse Fragment :=
  match t.folded with
  | "if" => ifStatement r
  | "switch" => switchStatement r
  | "while" => whileStatement r
  | "do" => doStatement r
  | "for" => forStatement r
  | "foreach" => foreachStatement r
  | "return" => jump r .returnStatement
  | "break" => jump r .breakStatement
  | "continue" => jump r .continueStatement
  | "goto" => node .gotoStatement [word "goto", name, semicolon]
  | "try" => tryStatement r
  | "echo" => node .echoStatement [word "echo", commaList (r.expression 0), semicolon]
  | "exit" => exitStatement r <|> expressionStatement r
  | "unset" =>
    node .unsetStatement [word "unset", mark "(", separated ")" (r.expression 0), mark ")",
      semicolon]
  | "declare" => declareStatement r
  | "namespace" =>
    if second.any (Token.isMark "\\") then expressionStatement r else namespaceDefinition r
  | "use" => useDeclaration
  | "const" => node .constDeclaration [constants r]
  | "global" => globalDeclaration r
  | "static" => if second.any (Token.isMark "$") then staticDeclaration r else expressionStatement r
  | _ => expressionStatement r

/-- A statement. -/
def statement (r : Rules) : Parse Fragment := do
  let ts ← ahead
  match ts with
  | [] => failure
  | t :: rest =>
    match t.sort with
    | some .word =>
      if beginsClass ts then classLike r
      else if beginsFunction ts then functionDefinition r
      else if rest.head?.any (Token.isMark ":") then
        node .labelStatement [name, mark ":"]
      else wordStatement r t rest.head?
    | some .mark =>
      if t.isMark "\x7b" then block r
      else if t.isMark ";" then node .emptyStatement [mark ";"]
      else if t.isMark "#[" then
        functionDefinition r <|> classLike r
          <|> node .constDeclaration [attributes r, constants r] <|> expressionStatement r
      else expressionStatement r
    | some .html => ofSort .html .html
    | some .openTag => ofSort .phpTag .openTag
    | _ => expressionStatement r

end PhpCalls.Syntax.Grammar

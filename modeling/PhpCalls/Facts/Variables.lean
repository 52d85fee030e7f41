import PhpCalls.Facts.Scope

set_option autoImplicit false

/-!
# The variables and constants of a file

## Main definitions

* `Variable.ofPlace`: the records that a place gives rise to.
* `Variable.ofTree`: the variables of a file, in the order of the text.
-/

namespace PhpCalls

open Syntax

namespace Variable

/-- The arrays that are there in every scope. -/
def superGlobals : List String :=
  ["$GLOBALS", "$_SERVER", "$_GET", "$_POST", "$_FILES", "$_COOKIE", "$_SESSION", "$_REQUEST",
   "$_ENV"]

/-- A record with the lines of a place and the name of the function or method around it. -/
def record? (kind : VariableKind) (p : Place) (name : String) (value : Option String) :
    Option Variable := do
  let scope ←
    match p.enclosing? Kind.isRoutine with
    | some d => d.node.childText? .name
    | none => some fileLevelName
  return { kind, name, value, startLine := p.startLine, endLine := p.endLine, scope := some scope }

/-- An element of an array that is there in every scope, at the array. -/
def ofSuperGlobal? (p : Place) : Option Variable := do
  guard (p.kind = .variableName && superGlobals.contains p.text)
  let subscript ← p.ancestors.head?
  guard (subscript.kind = .subscript)
  let index := subscript.namedChildren.getLast?.filter fun c => !c.same p
  record? .superGlobal subscript p.text (index.map Place.text)

/-- The variables named by `global`. -/
def ofGlobal (p : Place) : List Variable :=
  (p.children.filter fun c => c.kind = .variableName).filterMap fun c =>
    record? .global c c.text none

/-- The variables named by `static`. -/
def ofStatic (p : Place) : List Variable :=
  (p.children.filter fun c => c.kind = .staticVariable).filterMap fun c => do
    let name ← c.node.part? .name .variableName
    record? .static c name.text (c.node.childText? .value)

/-- The constants of a declaration outside classes. -/
def ofConst (p : Place) : List Variable :=
  if p.isInside Kind.isClassLike then []
  else
    (p.children.filter fun c => c.kind = .constElement).filterMap fun c => do
      let name ← c.node.childOfKind? .name
      let value := c.node.namedChildren.getLast?.filter fun n => n.kind ≠ .name
      record? .constant c name.text (value.map Node.text)

/-- The constant that a call of `define` makes, at the arguments of the call. -/
def ofDefine? (p : Place) : Option Variable := do
  let call ← p.above.head?
  guard (p.kind = .arguments && p.node.role = some .arguments && call.kind = .functionCall)
  let function ← call.child? .function
  guard (function.kind = .name && Text.sameFold function.text "define")
  let values := (p.node.childrenOfKind .argument).filterMap fun a =>
    a.namedChildren.getLast?.map Node.text
  let name ← values.head?
  record? .constant p (Text.trimBoth (fun c => c = '\'' || c = '"') name) values[1]?

/-- An assignment to a variable, at the value. -/
def ofAssignment? (p : Place) : Option Variable := do
  let assignment ← p.ancestors.head?
  guard (p.node.role = some .right && assignment.kind = .assignment)
  let target ← assignment.child? .left
  guard (target.kind = .variableName)
  let kind : VariableKind := if target.isInside Kind.isFunctionScope then .inRoutine else .inProgram
  record? kind target target.text (some p.text)

/-- The records that a place gives rise to. Declarations give theirs at their beginning; the others
at the part that completes them: the array of a subscript, the arguments of a call, the value of an
assignment. -/
def ofPlace (p : Place) : List Variable :=
  match p.kind with
  | .globalDeclaration => ofGlobal p
  | .staticDeclaration => ofStatic p
  | .constDeclaration => ofConst p
  | _ => (ofSuperGlobal? p).toList ++ (ofDefine? p).toList ++ (ofAssignment? p).toList

/-- The variables of a file. -/
def ofTree (root : Node) : List Variable := (Place.root root).places.flatMap ofPlace

end Variable

end PhpCalls

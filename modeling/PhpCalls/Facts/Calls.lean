import PhpCalls.Facts.Scope

set_option autoImplicit false

/-!
# The calls of a file

Every call belongs to the nearest function or method around it, or else to the file level, if it is
in no class either. Within one owner, of the calls of one name on one line the first is kept.

## Main definitions

* `ClassContext`: the class in whose body a call stands.
* `Call.ofPlace?`: the call at a place.
* `Call.ofOwner`, `Call.ofFileLevel`: the calls of a declaration, and those outside declarations.
-/

namespace PhpCalls

open Syntax

/-- The class in whose body a call stands. -/
structure ClassContext where
  /-- The name of the class. -/
  name : String
  /-- The name of the class that it extends. -/
  parent : Option String

namespace Param

/-- The expression of an argument. -/
def expressionOf (argument : Node) : Node :=
  if argument.kind = .argument then argument.namedChildren.getLast?.getD argument else argument

/-- The expression whose value is passed: an assignment passes the value it assigns. -/
def passedBy (expression : Node) : Node :=
  if expression.kind = .assignment then (expression.child? .right).getD expression else expression

/-- An argument of a call as a record. Arguments without a name are numbered. -/
def ofArgument (index : Nat) (argument : Node) : Param :=
  let expression := expressionOf argument
  let passed := passedBy expression
  { index
    name := some ((argument.childText? .name).getD ("$arg" ++ toString index))
    type := literalShape passed
    value := some passed.text
    variadic := expression.kind = .variadicUnpacking }

/-- The arguments of a call. -/
def ofArguments (arguments : Node) : List Param :=
  (arguments.namedChildren.filter fun a => a.kind ≠ .comment).zipIdx.map fun (a, i) =>
    ofArgument i a

end Param

namespace Call

/-- A call of a function. What is called by an expression is not known by name. -/
def ofFunctionCall? (s : Scope) (p : Place) : Option Call := do
  let function ← p.node.child? .function
  let blank : Call :=
    { name := function.text, fullname := function.text, startLine := 0, endLine := 0,
      kind := .dynamic }
  if function.kind.isClassName then
    let fullname := Text.trimStart (· = '\\') function.text
    let name := lastSegment fullname
    let isNative := s.declaresFunction name
    return { blank with name, fullname, isNative, kind := .guess name isNative false }
  else return blank

/-- A class and whether the file declares it. -/
def withOrigin (s : Scope) (className : Option String) : Option String × Bool :=
  (className, className.any s.declaresClass)

/-- The class around a call, which counts as declared. -/
def ownClass (c : Option ClassContext) : Option String × Bool :=
  (c.map ClassContext.name, c.isSome)

/-- A call of a method on an object. -/
def ofMemberCall? (s : Scope) (c : Option ClassContext) (p : Place) : Option Call := do
  let object ← p.node.childText? .object
  let name ← p.node.childText? .name
  let (className, isNative) :=
    if object = "$this" then ownClass c else withOrigin s (s.boundClass? object p)
  return {
    name, fullname := object ++ "->" ++ name, startLine := 0, endLine := 0,
    object := some object, className, isNative, kind := .guess name isNative true }

/-- A call of a method on a class. -/
def ofScopedCall? (s : Scope) (c : Option ClassContext) (p : Place) : Option Call := do
  let scope ← p.node.childText? .scope
  let name ← p.node.childText? .name
  let (className, isNative) :=
    match Text.foldCase scope with
    | "self" | "static" => ownClass c
    | "parent" => withOrigin s (c.bind ClassContext.parent)
    | _ =>
      if scope.toList.head? = some '$' then withOrigin s (s.boundClass? scope p)
      else withOrigin s (some (lastSegment scope))
  return {
    name, fullname := className.getD scope ++ "::" ++ name, startLine := 0, endLine := 0,
    object := some scope, className, modifiers := [.static], isNative,
    kind := .guess name isNative true }

/-- The class that is named after `new`. -/
def createdClass? (c : Option ClassContext) (written : String) : Option String :=
  match Text.foldCase written with
  | "self" | "static" => c.map ClassContext.name
  | "parent" => c.bind ClassContext.parent
  | _ => some (lastSegment written)

/-- The creation of an object is a call of the constructor. -/
def ofCreation? (s : Scope) (c : Option ClassContext) (p : Place) : Option Call := do
  let designator ← constructedType? p.node
  let text := designator.text
  if designator.kind.isClassName then
    let className ← createdClass? c text
    let isNative := s.declaresClass className
    return {
      name := Builtin.constructor, fullname := className ++ "::" ++ Builtin.constructor,
      startLine := 0, endLine := 0, object := some text, className := some className, isNative,
      kind := .guess Builtin.constructor isNative true }
  else
    return {
      name := text, fullname := text ++ "::" ++ Builtin.constructor, startLine := 0, endLine := 0,
      object := some text, kind := .dynamic }

/-- The call at a place. -/
def ofPlace? (s : Scope) (c : Option ClassContext) (p : Place) : Option Call := do
  let call ←
    match p.kind with
    | .functionCall => ofFunctionCall? s p
    | .memberCall | .nullsafeMemberCall => ofMemberCall? s c p
    | .scopedCall => ofScopedCall? s c p
    | .objectCreation => ofCreation? s c p
    | _ => none
  let arguments := p.node.part? .arguments .arguments
  return { call with
    startLine := p.startLine
    endLine := p.endLine
    arguments := (arguments.map Param.ofArguments).getD [] }

/-- Two calls have one name and begin on one line. -/
def coincides (a b : Call) : Bool := a.name = b.name && a.startLine = b.startLine

/-- The calls at places, the first of each name and line. -/
def ofPlaces (s : Scope) (c : Option ClassContext) (ps : List Place) : List Call :=
  (ps.filterMap (ofPlace? s c)).eraseDupsBy coincides

/-- The declaration `owner` is the nearest one around the place. -/
def ownedBy (owner p : Place) : Bool := (p.enclosing? Kind.isRoutine).any fun d => d.same owner

/-- The place is in no declaration. -/
def atFileLevel (p : Place) : Bool := !p.isInside Kind.isRoutine && !p.isInside Kind.isClassLike

/-- The calls in the body of a declaration. -/
def ofOwner (s : Scope) (c : Option ClassContext) (owner body : Place) : List Call :=
  ofPlaces s c (body.places.filter fun p => p.kind.isCall && ownedBy owner p)

/-- The calls outside declarations. -/
def ofFileLevel (s : Scope) (root : Node) : List Call :=
  ofPlaces s none ((Place.root root).places.filter fun p => p.kind.isCall && atFileLevel p)

end Call

end PhpCalls

import PhpCalls.Facts.Calls

set_option autoImplicit false

/-!
# The functions and classes of a file

## Main definitions

* `Routine.ofPlace?`: the record of a function or method.
* `Routine.ofFileLevel?`: the record of the code outside functions and classes, if it calls
  anything.
* `Property.ofDeclaration`, `Property.ofConstants`, `Property.ofPromotions`: the properties and
  constants of a class.
* `ClassDecl.ofPlace?`: the record of a class.
-/

namespace PhpCalls

open Syntax

/-! ## Modifiers -/

/-- The children that may be a modifier: the modifiers themselves and keywords. -/
def isModifierNode (n : Node) : Bool :=
  match n.kind with
  | .visibilityModifier | .staticModifier | .abstractModifier | .finalModifier
  | .readonlyModifier => true
  | k => !k.isNamed

/-- The visibility and the modifiers of a declaration. The last visibility counts; a modifier counts
once. -/
def modifiersOf (declaration : Node) : Visibility × List Modifier :=
  (declaration.children.filter isModifierNode).foldl
    (fun (v, ms) n =>
      match Visibility.ofKeyword? n.text, Modifier.ofKeyword? n.text with
      | some w, _ => (w, ms)
      | none, some m => (v, if ms.contains m then ms else ms ++ [m])
      | none, none => (v, ms))
    (.everyone, [])

/-! ## Functions and methods -/

namespace Param

/-- The kinds of parameters. -/
def isParameter (k : Kind) : Bool :=
  k = .simpleParameter || k = .promotedParameter || k = .variadicParameter

/-- The parameters of a declaration. -/
def ofParameters (list : Node) : List Param :=
  (list.children.filter fun c => isParameter c.kind).zipIdx.map fun (c, index) =>
    { index
      name := c.childText? .name
      type := c.childText? .type
      default := c.childText? .defaultValue
      variadic := c.kind = .variadicParameter }

end Param

namespace Routine

/-- The text of the return type of a declaration. -/
def returnTypeOf (declaration : Node) : Option String :=
  ((declaration.childText? .returnType).map fun t => Text.trim (Text.trimStart (· = ':') t)).filter
    fun t => t ≠ ""

/-- The texts of what a declaration returns, functions without a name inside it left out. -/
def returnValuesOf (declaration body : Place) : List String :=
  let own (p : Place) : Bool :=
    p.kind = .returnStatement
      && (p.enclosing? Kind.isFunctionScope).any fun f => f.same declaration
  (body.places.filter own).filterMap fun p => p.node.namedChildren.head?.map Node.text

/-- The record of a function or method. -/
def ofPlace? (s : Scope) (c : Option ClassContext) (p : Place) : Option Routine := do
  let name ← p.node.childText? .name
  let (visibility, modifiers) := modifiersOf p.node
  let body := p.part? .body .block
  return {
    name
    fullname :=
      match c with
      | some c => methodFullname c.name name (modifiers.contains .static)
      | none => name
    className := c.map ClassContext.name
    inNamespace := s.namespaceAt? p.startLine
    startLine := p.startLine
    endLine := p.endLine
    visibility
    modifiers
    parameters := ((p.node.part? .parameters .parameters).map Param.ofParameters).getD []
    returnType := returnTypeOf p.node
    returnValues := (body.map (returnValuesOf p)).getD []
    kind := if c.isSome then .ofMethod name else .general
    calls := (body.map (Call.ofOwner s c p)).getD [] }

/-- The record of the code outside functions and classes, if it calls anything. -/
def ofFileLevel? (s : Scope) (root : Node) : Option Routine :=
  let calls := Call.ofFileLevel s root
  if calls.isEmpty then none
  else some
    { name := fileLevelName, fullname := fileLevelName, startLine := 1, endLine := s.fileEnd,
      kind := .general, calls }

/-- The functions of a file, and then its file level. -/
def ofTree (s : Scope) (root : Node) : List Routine :=
  ((Place.root root).places.filter fun p => p.kind = .functionDefinition).filterMap
    (ofPlace? s none)
    ++ (ofFileLevel? s root).toList

end Routine

/-! ## Properties -/

namespace Property

/-- The types that a declaration may show without a role. -/
def isDeclaredType (k : Kind) : Bool :=
  k = .primitiveType || k = .namedType || k = .optionalType || k = .unionType

/-- The properties of one declaration. A default is the child in its role, or the last one if that
is not the name; there is no node around it that could be looked up by its kind. -/
def ofDeclaration (declaration : Node) : List Property :=
  let (visibility, modifiers) := modifiersOf declaration
  let declared :=
    declaration.childText? .type
      <|> (declaration.children.find? fun c => isDeclaredType c.kind).map Node.text
  (declaration.childrenOfKind .propertyElement).filterMap fun e => do
    let name ← e.childOfKind? .variableName
    let value :=
      e.child? .defaultValue <|> e.namedChildren.getLast?.filter fun n => n.kind ≠ .variableName
    return {
      name := name.text
      default := value.map Node.text
      type := declared <|> value.bind literalShape
      startLine := e.startLine
      endLine := e.endLine
      visibility
      modifiers }

/-- The constants of one declaration. -/
def ofConstants (declaration : Node) : List Property :=
  let (visibility, found) := modifiersOf declaration
  let modifiers := if found.contains .const then found else found ++ [.const]
  (declaration.childrenOfKind .constElement).filterMap fun e => do
    let name ← e.childOfKind? .name
    let value := e.namedChildren.getLast?.filter fun n => n.kind ≠ .name
    return {
      name := name.text
      default := value.map Node.text
      type := value.bind literalShape
      startLine := e.startLine
      endLine := e.endLine
      visibility
      modifiers }

/-- The properties that the parameters of a constructor declare. Of several visibilities the first
counts. -/
def ofPromotions (method : Node) : List Property :=
  match method.child? .parameters with
  | none => []
  | some list =>
    (list.childrenOfKind .promotedParameter).filterMap fun p => do
      let (visibility, modifiers) := modifiersOf p
      let first := (p.childOfKind? .visibilityModifier).bind fun v => Visibility.ofKeyword? v.text
      let name ← p.childText? .name
      return {
        name
        default := p.childText? .defaultValue
        type := p.childText? .type
        startLine := p.startLine
        endLine := p.endLine
        visibility := first.getD visibility
        modifiers }

end Property

/-! ## Classes -/

namespace ClassDecl

/-- The sort of a class, by the kind of its declaration. -/
def kindOf (k : Kind) : ClassKind :=
  match k with
  | .interfaceDeclaration => .interface
  | .traitDeclaration => .trait
  | .enumDeclaration => .enum
  | _ => .plain

/-- The names of classes in a clause, without their namespaces. -/
def namesIn (clause : Node) : List String :=
  (clause.children.filter fun c => c.kind.isClassName).map fun c => lastSegment c.text

/-- The class with one more member of its body. -/
def withMember (s : Scope) (context : ClassContext) (c : ClassDecl) (member : Place) : ClassDecl :=
  match member.kind with
  | .methodDeclaration =>
    match Routine.ofPlace? s (some context) member with
    | some method =>
      { c with
        properties :=
          if Builtin.isConstructor method.name then
            c.properties ++ Property.ofPromotions member.node
          else c.properties
        methods := c.methods ++ [method] }
    | none => c
  | .propertyDeclaration =>
    { c with properties := c.properties ++ Property.ofDeclaration member.node }
  | .constDeclaration => { c with properties := c.properties ++ Property.ofConstants member.node }
  | .traitUse => { c with uses := c.uses ++ namesIn member.node }
  | _ => c

/-- The record of a class. -/
def ofPlace? (s : Scope) (p : Place) : Option ClassDecl := do
  let name ← p.node.childText? .name
  let (visibility, modifiers) := modifiersOf p.node
  let clause (k : Kind) : List String := ((p.node.childOfKind? k).map namesIn).getD []
  let kind := kindOf p.kind
  let extends_ := clause .baseClause
  let head : ClassDecl :=
    { name
      kind
      inNamespace := s.namespaceAt? p.startLine
      startLine := p.startLine
      endLine := p.endLine
      visibility
      modifiers
      extends_
      implements := clause .interfaceClause
      isInterface := kind = .interface }
  let members := ((p.part? .body .declarationList).map Place.namedChildren).getD []
  return members.foldl (withMember s ⟨name, extends_.head?⟩) head

/-- The classes of a file. -/
def ofTree (s : Scope) (root : Node) : List ClassDecl :=
  ((Place.root root).places.filter fun p => p.kind.isClassLike).filterMap (ofPlace? s)

end ClassDecl

end PhpCalls

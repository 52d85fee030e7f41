import PhpCalls.Facts.Naming

set_option autoImplicit false

/-!
# What a file declares and binds

The facts that are known before any call is looked at: the namespaces and their lines, the names of
the functions and classes that the file declares, and the variables that hold objects of known
classes.

## Main definitions

* `NamespaceExtent.ofTree`: the namespaces of a file.
* `constructedType?`: the class after `new`.
* `Binding.ofTree`: the variables that hold objects of known classes.
* `Scope`: all of this together, with `Scope.binding?` for the binding of a variable at a place.
-/

namespace PhpCalls

open Syntax

/-! ## Namespaces -/

namespace NamespaceExtent

/-- The name in a namespace definition; the global namespace has the empty name. -/
def nameOf (definition : Node) : String :=
  Text.trimStart (· = '\\') (((definition.part? .name .namespaceName).map Node.text).getD "")

/-- A namespace definition has braces. -/
def isBraced (definition : Node) : Bool := (definition.part? .body .block).isSome

/-- The namespaces of definitions in the order of the file. A definition with braces governs its own
lines; one without governs the lines up to the next definition, or up to the end of the file. -/
def ofDefinitions (fileEnd : Nat) : List Node → List NamespaceExtent
  | [] => []
  | d :: ds =>
    let last :=
      if isBraced d then d.endLine
      else
        match ds with
        | next :: _ => max (next.startLine - 1) d.startLine
        | [] => max fileEnd d.startLine
    ⟨nameOf d, d.startLine, last⟩ :: ofDefinitions fileEnd ds

/-- The namespaces of a file. -/
def ofTree (root : Node) : List NamespaceExtent :=
  ofDefinitions root.endLine (root.childrenOfKind .namespaceDefinition)

end NamespaceExtent

/-! ## Objects of known classes -/

/-- The class, variable or expression after `new`; none for a class without a name, or for a part of
one. -/
def constructedType? (creation : Node) : Option Node :=
  let passedOver (k : Kind) : Bool := k = .arguments || k = .attributeList || k = .comment
  let unnamed (k : Kind) : Bool :=
    k = .anonymousClass || k = .declarationList || k = .baseClause || k = .interfaceClause
  (creation.namedChildren.find? fun c => !passedOver c.kind).filter fun c => !unnamed c.kind

/-- The class that a written name means for a binding at a place. -/
def Binding.classAt? (p : Place) (written : String) : Option String :=
  match Text.foldCase written with
  | "self" | "static" =>
    (p.enclosing? Kind.isClassLike).bind fun c => c.node.childText? .name
  | "parent" => none
  | _ => some (lastSegment written)

namespace Binding

/-- The binding that an object created at a place makes: `$x = new C` binds `$x` up to the end of
the function around it. -/
def ofCreation? (fileEnd : Nat) (p : Place) : Option Binding := do
  let parent ← p.above.head?
  guard (p.kind = .objectCreation && p.node.role = some .right && parent.kind = .assignment)
  let target ← parent.child? .left
  guard (target.kind = .variableName)
  let designator ← constructedType? p.node
  guard designator.kind.isClassName
  let className ← classAt? p designator.text
  return {
    object := target.text
    className
    startLine := p.startLine
    endLine := ((p.enclosing? Kind.isFunctionScope).map Place.endLine).getD fileEnd }

/-- The binding that a parameter with the type of a class makes, over the lines of its function. -/
def ofParameter? (p : Place) : Option Binding := do
  let parent ← p.above.head?
  guard (p.kind = .variableName && p.node.role = some .name && parent.kind = .simpleParameter)
  let type ← parent.child? .type
  guard (type.kind = .namedType)
  let scope ← p.enclosing? Kind.isFunctionScope
  let className ← classAt? p type.text
  return { object := p.text, className, startLine := scope.startLine, endLine := scope.endLine }

/-- The binding that is made at a place. -/
def ofPlace? (fileEnd : Nat) (p : Place) : Option Binding :=
  ofCreation? fileEnd p <|> ofParameter? p

/-- The bindings of a file. -/
def ofTree (root : Node) : List Binding :=
  (Place.root root).places.filterMap (ofPlace? root.endLine)

end Binding

/-! ## Together -/

/-- What is known of a file before its calls are looked at. -/
structure Scope where
  /-- The namespaces of the file. -/
  namespaces : List NamespaceExtent
  /-- The names of the functions that the file declares. -/
  functionNames : List String
  /-- The names of the classes that the file declares. -/
  classNames : List String
  /-- The variables that hold objects of known classes. -/
  bindings : List Binding
  /-- The last line of the file. -/
  fileEnd : Nat

namespace Scope

/-- The names of the declarations of a family, in the order of the file. -/
def declaredNames (family : Kind → Bool) (root : Node) : List String :=
  ((Place.root root).places.filter fun p => family p.kind).filterMap fun p =>
    p.node.childText? .name

/-- What is known of a file before its calls are looked at. -/
def ofTree (root : Node) : Scope where
  namespaces := NamespaceExtent.ofTree root
  functionNames := declaredNames (· = .functionDefinition) root
  classNames := declaredNames Kind.isClassLike root
  bindings := Binding.ofTree root
  fileEnd := root.endLine

/-- The name of the namespace around a line. -/
def namespaceAt? (s : Scope) (line : Nat) : Option String :=
  (namespaceAt s.namespaces line).map NamespaceExtent.name

/-- The file declares a class of this name. -/
def declaresClass (s : Scope) (name : String) : Bool := s.classNames.contains name

/-- The file declares a function of this name. -/
def declaresFunction (s : Scope) (name : String) : Bool := s.functionNames.contains name

/-- The binding of a variable at a place: of the bindings around its line that do not begin before
the declaration around the place, the one that begins last; of several, the last in the file. -/
def binding? (s : Scope) (object : String) (p : Place) : Option Binding :=
  let first := ((p.enclosing? Kind.isRoutine).map Place.startLine).getD 0
  let line := p.startLine
  let near := s.bindings.filter fun b =>
    b.object = object && b.startLine ≤ line && line ≤ b.endLine && first ≤ b.startLine
  near.foldl
    (fun best b =>
      match best with
      | some (c : Binding) => if c.startLine ≤ b.startLine then some b else some c
      | none => some b)
    none

/-- The class of a variable at a place. -/
def boundClass? (s : Scope) (object : String) (p : Place) : Option String :=
  (s.binding? object p).map Binding.className

end Scope

end PhpCalls

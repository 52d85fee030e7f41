import PhpCalls.Builtin.Basic
import PhpCalls.Record.Basic
import PhpCalls.Syntax.Tree

set_option autoImplicit false

/-!
# Names of classes, methods and calls

How written names are reduced to the names that records hold, and how the sort of a call follows
from its name.

## Main definitions

* `lastSegment`: a name without its namespaces.
* `methodFullname`: a method together with its class.
* `CallKind.guess`, `CallKind.ofMethod`: the sort of a call, and of a declared method.
* `literalShape`: the type that a literal shows.
-/

namespace PhpCalls

open Syntax

/-- What follows the last backslash of a name. -/
def lastSegment (name : String) : String :=
  ((Text.splitAt '\\' (Text.trimStart (· = '\\') name)).getLast?).getD ""

/-- The full name of a method: `::` joins constructors and static methods to their class, `->` joins
the others. A constructor has one spelling. -/
def methodFullname (className name : String) (isStatic : Bool) : String :=
  if Builtin.isConstructor name then className ++ "::" ++ Builtin.constructor
  else if isStatic then className ++ "::" ++ name
  else className ++ "->" ++ name

namespace CallKind

/-- The sort of a call, from the callee's name, from whether the caller's file declares the callee,
and from whether the callee is a method. -/
def guess (name : String) (isNative isMethod : Bool) : CallKind :=
  if name.toList.head? = some '$' then .dynamic
  else if isMethod then
    if Builtin.isConstructor name then .construct
    else if Builtin.isMagic name then (if isNative then .magic else .builtin)
    else .classMethod
  else if !isNative && Builtin.isFunction name then .builtin
  else .general

/-- The sort of a declared method. -/
def ofMethod (name : String) : CallKind :=
  if Builtin.isConstructor name then .construct
  else if Builtin.isMagic name then .magic
  else .classMethod

end CallKind

/-- The type that a literal shows. -/
def literalShape (n : Node) : Option String :=
  match n.kind with
  | .string | .encapsedString | .heredoc | .nowdoc => some "string"
  | .integer => some "int"
  | .float => some "float"
  | .boolean => some "bool"
  | .null => some "null"
  | .arrayLiteral => some "array"
  | _ => none

end PhpCalls

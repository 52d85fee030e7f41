import PhpCalls.Dict
import PhpCalls.Text.Basic

set_option autoImplicit false

/-!
# What is known about a source file

The records that reading a source file yields and that resolution completes. They are plain data:
a record points to another only by name or by identifier.

## Main definitions

* `CallKind`, `Visibility`, `Modifier`, `ClassKind`, `ImportKind`, `VariableKind`: the closed sorts,
  each with its written spelling.
* `Param`, `Call`, `Routine`: parameters and arguments, calls, and functions or methods.
* `Property`, `ClassDecl`: classes and what is in them.
* `Import`, `NamespaceExtent`, `Binding`, `Variable`: the smaller facts of a file.
* `FileFacts`: everything that is known about one file.
* `Tally`, `ReadFailure`, `CacheStamp`: what an analysis reports and keeps beside the facts.
-/

namespace PhpCalls

/-! ## Closed sorts -/

/-- The sort of a declaration or of a call. -/
inductive CallKind where
  /-- A free function. -/
  | general
  /-- A function that PHP provides; never looked up. -/
  | builtin
  /-- A callee that the text does not name; never looked up. -/
  | dynamic
  /-- A constructor. -/
  | construct
  /-- A hook that the project declares. -/
  | magic
  /-- Any other method. -/
  | classMethod
deriving DecidableEq, Repr

namespace CallKind

/-- All sorts. -/
def all : List CallKind := [general, builtin, dynamic, construct, magic, classMethod]

/-- The written form. -/
def spelling : CallKind → String
  | general => "GENERAL"
  | builtin => "BUILTIN"
  | dynamic => "DYNAMIC"
  | construct => "CONSTRUCT"
  | magic => "MAGIC"
  | classMethod => "CLASS_METHOD"

/-- Whether calls of this sort are looked up at all. -/
def isResolvable : CallKind → Bool
  | builtin | dynamic => false
  | general | construct | magic | classMethod => true

/-- Whether calls of this sort are looked up among classes. -/
def isClassBound : CallKind → Bool
  | construct | magic | classMethod => true
  | general | builtin | dynamic => false

end CallKind

/-- Who may use a member. -/
inductive Visibility where
  /-- Written `public`. -/
  | everyone
  /-- Written `protected`. -/
  | heirs
  /-- Written `private`. -/
  | owner
deriving DecidableEq, Repr

namespace Visibility

instance : Inhabited Visibility := ⟨.everyone⟩

/-- All visibilities. -/
def all : List Visibility := [everyone, heirs, owner]

/-- The written form, which is also the keyword. -/
def spelling : Visibility → String
  | everyone => "public"
  | heirs => "protected"
  | owner => "private"

/-- The visibility of a keyword in any letter case. -/
def ofKeyword? (keyword : String) : Option Visibility :=
  all.find? fun v => v.spelling = Text.foldCase keyword

end Visibility

/-- A modifier of a declaration. -/
inductive Modifier where
  | static | abstract | final | readonly | const
deriving DecidableEq, Repr

namespace Modifier

/-- All modifiers. -/
def all : List Modifier := [static, abstract, final, readonly, const]

/-- The written form, which is also the keyword. -/
def spelling : Modifier → String
  | static => "static"
  | abstract => "abstract"
  | final => "final"
  | readonly => "readonly"
  | const => "const"

/-- The modifier of a keyword in any letter case. -/
def ofKeyword? (keyword : String) : Option Modifier :=
  all.find? fun m => m.spelling = Text.foldCase keyword

end Modifier

/-- The sort of a class-like declaration. -/
inductive ClassKind where
  | plain | interface | trait | enum
deriving DecidableEq, Repr

namespace ClassKind

/-- All sorts. -/
def all : List ClassKind := [plain, interface, trait, enum]

/-- The written form. -/
def spelling : ClassKind → String
  | plain => "class"
  | interface => "interface"
  | trait => "trait"
  | enum => "enum"

end ClassKind

/-- How a file brings in names or other files. -/
inductive ImportKind where
  | useClass | useFunction | useConst | included | includedOnce | required | requiredOnce
deriving DecidableEq, Repr

namespace ImportKind

/-- All sorts. -/
def all : List ImportKind :=
  [useClass, useFunction, useConst, included, includedOnce, required, requiredOnce]

/-- The written form. -/
def spelling : ImportKind → String
  | useClass => "use_class"
  | useFunction => "use_function"
  | useConst => "use_const"
  | included => "include"
  | includedOnce => "include_once"
  | required => "require"
  | requiredOnce => "require_once"

/-- Whether it brings in a file. -/
def isFileImport : ImportKind → Bool
  | included | includedOnce | required | requiredOnce => true
  | useClass | useFunction | useConst => false

end ImportKind

/-- The sort of a variable or constant. -/
inductive VariableKind where
  /-- An element of a superglobal array. -/
  | superGlobal
  /-- Named in a `global` statement. -/
  | global
  /-- Named in a `static` statement. -/
  | static
  /-- A constant outside classes. -/
  | constant
  /-- Assigned inside a function or method. -/
  | inRoutine
  /-- Assigned outside functions. -/
  | inProgram
deriving DecidableEq, Repr

namespace VariableKind

/-- All sorts. -/
def all : List VariableKind := [superGlobal, global, static, constant, inRoutine, inProgram]

/-- The written form. -/
def spelling : VariableKind → String
  | superGlobal => "super_global"
  | global => "global"
  | static => "static"
  | constant => "constant"
  | inRoutine => "local"
  | inProgram => "program"

end VariableKind

/-! ## Functions, methods and calls -/

/-- A declared parameter (name, type, default) or an argument of a call (value, and the type of a
literal). -/
structure Param where
  index : Nat
  name : Option String := none
  type : Option String := none
  default : Option String := none
  value : Option String := none
  variadic : Bool := false
deriving DecidableEq

/-- A place that calls a function, a method or a constructor. -/
structure Call where
  /-- The name as written; `__construct` for a `new` expression. -/
  name : String
  fullname : String
  startLine : Nat
  endLine : Nat
  /-- The object or class expression of a method call. -/
  object : Option String := none
  /-- The class of the callee, when it could be told. -/
  className : Option String := none
  visibility : Visibility := .everyone
  modifiers : List Modifier := []
  kind : CallKind
  arguments : List Param := []
  /-- Whether the callee's name is declared in the caller's own file. -/
  isNative : Bool := false
  file : Option String := none
  inNamespace : Option String := none
  /-- The files that are included before the call. -/
  mayFiles : List String := []
  /-- The namespaces in scope at the call. -/
  mayNamespaces : List String := []
  /-- From identifier to file, the declarations that the call may mean. Absent if none was found;
  empty if there were too many. -/
  mayBeSource : Option (Dict String) := none
deriving DecidableEq

namespace Call

/-- Whether anything is known about what the file of the call brings in. -/
def hasImportHints (c : Call) : Bool := !c.mayFiles.isEmpty || !c.mayNamespaces.isEmpty

end Call

/-- The name under which the calls outside functions and classes are kept. -/
def fileLevelName : String := "NOT_IN_METHOD"

/-- A function, a method, or the code of a file outside functions and classes. -/
structure Routine where
  /-- Empty until it is stamped. -/
  id : String := ""
  name : String
  /-- `Class::name` for static methods and constructors, `Class->name` for other methods, the name
  alone for functions. -/
  fullname : String
  className : Option String := none
  file : String := ""
  inNamespace : Option String := none
  startLine : Nat
  endLine : Nat
  visibility : Visibility := .everyone
  modifiers : List Modifier := []
  parameters : List Param := []
  returnType : Option String := none
  /-- The text of every returned expression. -/
  returnValues : List String := []
  kind : CallKind
  calls : List Call := []
  /-- The identifiers of the routines that may call this one. -/
  calledBy : List String := []
deriving DecidableEq

namespace Routine

/-- Whether it is a static method. -/
def isStatic (r : Routine) : Bool := r.modifiers.contains .static

/-- The routine without its calls and callers. -/
def summary (r : Routine) : Routine := { r with calls := [], calledBy := [] }

end Routine

/-! ## Classes -/

/-- A property or a class constant. -/
structure Property where
  /-- With its `$` for a property, without for a constant. -/
  name : String
  default : Option String := none
  /-- The declared type, or else the type of a literal default. -/
  type : Option String := none
  startLine : Nat
  endLine : Nat
  visibility : Visibility := .everyone
  modifiers : List Modifier := []
deriving DecidableEq

/-- A class, interface, trait or enum. -/
structure ClassDecl where
  /-- Empty until it is stamped. -/
  id : String := ""
  name : String
  kind : ClassKind := .plain
  inNamespace : Option String := none
  file : String := ""
  startLine : Nat
  endLine : Nat
  visibility : Visibility := .everyone
  modifiers : List Modifier := []
  /-- The names of the base classes. -/
  extends_ : List String := []
  implements : List String := []
  /-- The names of the traits used in the body. -/
  uses : List String := []
  properties : List Property := []
  methods : List Routine := []
  isInterface : Bool := false
deriving DecidableEq

namespace ClassDecl

/-- The class with its methods reduced to their summaries. -/
def summary (c : ClassDecl) : ClassDecl := { c with methods := c.methods.map Routine.summary }

/-- The name of the first base class. -/
def parentName (c : ClassDecl) : Option String := c.extends_.head?

end ClassDecl

/-! ## The facts of a file -/

/-- A `use` clause, or an expression that includes a file. -/
structure Import where
  kind : ImportKind
  startLine : Nat
  endLine : Nat
  /-- The namespace part of a used name. -/
  fromNamespace : Option String := none
  /-- The text of the path of an included file. -/
  path : Option String := none
  /-- The full used name. -/
  useFrom : Option String := none
  aliasName : Option String := none
  /-- The text of the whole statement or expression. -/
  text : String
deriving DecidableEq

/-- A namespace and the lines that it governs. -/
structure NamespaceExtent where
  name : String
  startLine : Nat
  endLine : Nat
deriving DecidableEq

/-- A variable known to hold an object of a class, between two lines. -/
structure Binding where
  object : String
  className : String
  startLine : Nat
  endLine : Nat
deriving DecidableEq

/-- A variable or a constant, with the text of its value. -/
structure Variable where
  kind : VariableKind
  name : String
  value : Option String := none
  startLine : Nat
  endLine : Nat
  /-- The function or method around it, or the name of the file level. -/
  scope : Option String := none
deriving DecidableEq

/-- Everything that is known about one source file. -/
structure FileFacts where
  /-- The free functions, and the file level if it has calls. -/
  methods : List Routine := []
  classes : List ClassDecl := []
  imports : List Import := []
  namespaces : List NamespaceExtent := []
  objects : List Binding := []
  vars : List Variable := []
deriving DecidableEq

instance : Inhabited FileFacts := ⟨{}⟩

/-- Of the namespaces around a line, the one that starts last; of several, the last in the list. -/
def namespaceAt (namespaces : List NamespaceExtent) (line : Nat) : Option NamespaceExtent :=
  (namespaces.filter fun n => n.startLine ≤ line && line ≤ n.endLine).foldl
    (fun best n =>
      match best with
      | some b => if b.startLine ≤ n.startLine then some n else some b
      | none => some n)
    none

namespace FileFacts

/-- The functions of a file followed by the methods of its classes. -/
def routines (f : FileFacts) : List Routine :=
  f.methods ++ f.classes.flatMap ClassDecl.methods

/-- Replaces every routine of a file. -/
def mapRoutines (f : FileFacts) (g : Routine → Routine) : FileFacts :=
  { f with
    methods := f.methods.map g
    classes := f.classes.map fun c => { c with methods := c.methods.map g } }

end FileFacts

/-! ## Beside the facts -/

/-- A file that could not be read. -/
structure ReadFailure where
  path : String
  error : String
deriving DecidableEq

/-- What a cache was made from. -/
structure CacheStamp where
  version : String
  /-- From path to checksum. -/
  checksums : Dict String
  failures : List ReadFailure := []
deriving DecidableEq

/-- How many calls had each outcome. -/
structure Tally where
  resolved : Nat := 0
  unresolved : Nat := 0
  ambiguous : Nat := 0
  builtin : Nat := 0
  dynamic : Nat := 0
deriving DecidableEq

/-- The number of all calls. -/
def Tally.total (t : Tally) : Nat :=
  t.resolved + t.unresolved + t.ambiguous + t.builtin + t.dynamic

/-- The facts of all files, by path. -/
abbrev ProjectFacts := Dict FileFacts

end PhpCalls

import PhpCalls.Builtin.Basic
import PhpCalls.Record.Basic

set_option autoImplicit false

/-!
# The index of a project

From identifiers to declarations, and from names to identifiers. Lists of identifiers hold each one
once, in the order of first occurrence; of two declarations with one identifier the later is kept.

## Main definitions

* `Index`: the maps.
* `Index.ofFiles`, `Index.ofProject`: the index of stamped files.
* `Index.functionsNamed`, `Index.classesNamed`, `Index.classesWithFullname`,
  `Index.classesWithMethod`: look-ups by name.
-/

namespace PhpCalls

/-- From a name to identifiers. -/
abbrev Registry := Dict (List String)

namespace Registry

/-- The identifiers under a name. -/
def ids (r : Registry) (name : String) : List String := (r.get? name).getD []

/-- Puts an identifier under a name, unless it is there. -/
def register (r : Registry) (name id : String) : Registry :=
  let known := r.ids name
  if known.contains id then r else r.insert name (known ++ [id])

end Registry

/-- What is looked up during resolution. -/
structure Index where
  /-- Functions by identifier. -/
  functions : Dict Routine := .empty
  /-- Identifiers of functions by name. -/
  functionNames : Registry := .empty
  /-- Classes by identifier. -/
  classes : Dict ClassDecl := .empty
  /-- Identifiers of classes by name. -/
  classNames : Registry := .empty
  /-- Identifiers of classes by the full names of their methods. -/
  fullnames : Registry := .empty
  /-- Identifiers of classes by the names of their methods, hooks left out. -/
  methodNames : Registry := .empty

namespace Index

/-- The index with one more function. The file level is no function. -/
def addFunction (i : Index) (f : Routine) : Index :=
  if f.name = fileLevelName then i
  else
    { i with
      functionNames := i.functionNames.register f.name f.id
      functions := i.functions.insert f.id f.summary }

/-- The index with one more method of a class. -/
def addMethod (classId : String) (i : Index) (m : Routine) : Index :=
  { i with
    fullnames := i.fullnames.register m.fullname classId
    methodNames :=
      if Builtin.isMagic m.name then i.methodNames else i.methodNames.register m.name classId }

/-- The index with one more class. -/
def addClass (i : Index) (c : ClassDecl) : Index :=
  let named := { i with classNames := i.classNames.register c.name c.id }
  let i := c.methods.foldl (addMethod c.id) named
  { i with classes := i.classes.insert c.id c.summary }

/-- The index with one more file. -/
def addFile (i : Index) (f : FileFacts) : Index :=
  f.classes.foldl addClass (f.methods.foldl addFunction i)

/-- The index of files in the order in which they are given. -/
def ofFiles (files : List FileFacts) : Index := files.foldl addFile {}

/-- The index of stamped files. -/
def ofProject (files : ProjectFacts) : Index := ofFiles files.values

/-- The function with an identifier. -/
def function? (i : Index) (id : String) : Option Routine := i.functions.get? id

/-- The class with an identifier. -/
def class? (i : Index) (id : String) : Option ClassDecl := i.classes.get? id

/-- The identifiers of the functions of a name. -/
def functionsNamed (i : Index) (name : String) : List String := i.functionNames.ids name

/-- The identifiers of the classes of a name. -/
def classesNamed (i : Index) (name : String) : List String := i.classNames.ids name

/-- The identifiers of the classes with a method of this full name. -/
def classesWithFullname (i : Index) (fullname : String) : List String := i.fullnames.ids fullname

/-- The identifiers of the classes with a method of this name that is no hook. -/
def classesWithMethod (i : Index) (name : String) : List String := i.methodNames.ids name

/-- The number of functions. -/
def functionCount (i : Index) : Nat := i.functions.size

/-- The number of classes. -/
def classCount (i : Index) : Nat := i.classes.size

end Index

end PhpCalls

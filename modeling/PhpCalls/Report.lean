import PhpCalls.Analysis

set_option autoImplicit false

/-!
# Results of an analysis

The records of a project are written as JSON: all in one document, or in one document for each
category, which maps every file with records of that category to them.

## Main definitions

* `Category`: what a document holds.
* `Category.document`: the document of a category.
* `ReportOptions`, `Analysis.documents`: the documents with their paths.
* `Analysis.report`: the documents, written.
-/

namespace PhpCalls

/-- What a document holds. -/
inductive Category where
  | method
  | class_
  | import_
  | namespace_
  | variable_
  | called
deriving DecidableEq, Repr

namespace Category

/-- All categories, in the order in which they are written. -/
def all : List Category := [method, class_, import_, namespace_, variable_, called]

/-- The word in the name of the document. -/
def spelling : Category → String
  | method => "method"
  | class_ => "class"
  | import_ => "import"
  | namespace_ => "namespace"
  | variable_ => "variable"
  | called => "called"

end Category

/-- A routine without its calls. -/
def Routine.withoutCalls (r : Routine) : Routine := { r with calls := [] }

/-- The calls of a routine, with its identifier and its full name. -/
def Routine.calledJson (r : Routine) : Json :=
  .obj [("id", .str r.id), ("fullname", .str r.fullname), ("calls", .list Call.toJson r.calls)]

namespace Category

/-- The records of a file that belong to a category. -/
def records (f : FileFacts) : Category → List Json
  | method => f.routines.map fun r => r.withoutCalls.toJson
  | class_ =>
    f.classes.map fun c =>
      { c with methods := c.methods.map Routine.withoutCalls : ClassDecl }.toJson
  | import_ => f.imports.map Import.toJson
  | namespace_ => f.namespaces.map NamespaceExtent.toJson
  | variable_ => f.vars.map Variable.toJson
  | called => (f.routines.filter fun r => !r.calls.isEmpty).map Routine.calledJson

/-- The document of a category. Files without records of the category are left out. -/
def document (files : ProjectFacts) (c : Category) : Json :=
  .obj ((files.entries.map fun (path, f) => (path, c.records f)).filterMap fun (path, rs) =>
    if rs.isEmpty then none else some (path, .arr rs))

end Category

/-- How results are written. -/
structure ReportOptions where
  /-- One document for each category. -/
  split : Bool := true
  /-- In lines. -/
  pretty : Bool := true
deriving DecidableEq

/-- How the names of the results of a project begin by default. -/
def defaultStem (projectName : String) : String := projectName ++ ".parsed"

namespace Analysis

/-- The documents of an analysis with their paths. -/
def documents (a : Analysis) (stem : String) (split : Bool) : List (String × Json) :=
  if split then
    Category.all.map fun c => (stem ++ "." ++ c.spelling ++ ".json", c.document a.files)
  else [(stem ++ ".json", a.files.toJson)]

/-- Writes a document. The directory for it is made. -/
def writeDocument (pretty : Bool) (path : String) (document : Json) : Job Unit := do
  match (Path.parent? path).filter fun p => p ≠ "" with
  | some parent => Job.change (.create parent) fun d => d.makeDirs parent
  | none => pure ()
  Job.writeText path (document.write pretty)

/-- Writes the results; their paths in the order of writing. -/
def report (a : Analysis) (stem : String) (o : ReportOptions) : Job (List String) :=
  (a.documents stem o.split).mapM fun (path, document) => do
    writeDocument o.pretty path document
    return path

end Analysis

end PhpCalls

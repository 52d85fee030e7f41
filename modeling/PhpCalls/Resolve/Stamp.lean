import PhpCalls.Ident
import PhpCalls.Record.Basic

set_option autoImplicit false

/-!
# Identifiers and hints

Reading a file knows nothing of where the file lies in the project. Stamping gives every declaration
its file and its identifier, and every call the hints that the imports and namespaces before it
give.

## Main definitions

* `Call.stamp`: a call with its hints.
* `ProjectFacts.stamp`: all files of a project, stamped.
-/

namespace PhpCalls

/-- The only element of a list. -/
def only? {α : Type} : List α → Option α
  | [a] => some a
  | _ => none

/-- A call with the hints of its file. For a callee of the same file these are the file and the
named namespaces that begin before it; for another one, the files included and the namespaces used
before it. A single hint is taken for the answer. -/
def Call.stamp (path : String) (facts : FileFacts) (c : Call) : Call :=
  let before (n : Nat) : Bool := n ≤ c.startLine
  if c.isNative then
    let mayNamespaces :=
      (facts.namespaces.filter fun n => before n.startLine && n.name ≠ "").map NamespaceExtent.name
    { c with
      file := some path
      mayNamespaces
      inNamespace := only? mayNamespaces <|> c.inNamespace }
  else
    let imports := facts.imports.filter fun i => before i.endLine
    let mayFiles := (imports.filter fun i => i.kind.isFileImport).filterMap Import.path
    let mayNamespaces :=
      (imports.filter fun i => !i.kind.isFileImport).filterMap Import.fromNamespace
    { c with
      file := only? mayFiles <|> c.file
      mayFiles
      mayNamespaces
      inNamespace := only? mayNamespaces <|> c.inNamespace }

/-- A routine with its file, its identifier and the hints of its calls. -/
def Routine.stamp (path : String) (facts : FileFacts) (r : Routine) : Routine :=
  { r with
    file := path
    id := Ident.routine path r.className r.name r.startLine r.endLine
    calls := r.calls.map (Call.stamp path facts) }

/-- A class with its file and its identifier, its methods likewise. -/
def ClassDecl.stamp (path : String) (facts : FileFacts) (c : ClassDecl) : ClassDecl :=
  { c with
    file := path
    id := Ident.classDecl path c.inNamespace c.name c.startLine c.endLine
    methods := c.methods.map (Routine.stamp path facts) }

/-- The facts of a file that lies at a path, whose backslashes count as slashes. -/
def FileFacts.stamp (path : String) (facts : FileFacts) : FileFacts :=
  let path := Text.slashed path
  { facts with
    methods := facts.methods.map (Routine.stamp path facts)
    classes := facts.classes.map (ClassDecl.stamp path facts) }

/-- All files of a project, stamped. -/
def ProjectFacts.stamp (files : ProjectFacts) : ProjectFacts := files.map FileFacts.stamp

end PhpCalls

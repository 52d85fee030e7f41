import PhpCalls.Facts.Declarations
import PhpCalls.Facts.Imports
import PhpCalls.Facts.Variables
import PhpCalls.Syntax.Parser

set_option autoImplicit false

/-!
# The facts of a file

## Main definitions

* `FileFacts.ofTree`: the facts that a syntax tree shows.
* `FileFacts.ofSource`: the facts of a page.
-/

namespace PhpCalls.FileFacts

open Syntax

/-- The facts that a syntax tree shows. -/
def ofTree (root : Node) : FileFacts :=
  let s := Scope.ofTree root
  { methods := Routine.ofTree s root
    classes := ClassDecl.ofTree s root
    imports := Import.ofTree root
    namespaces := s.namespaces
    objects := s.bindings
    vars := Variable.ofTree root }

/-- The facts of a page. -/
def ofSource (source : String) : FileFacts := ofTree (Node.ofSource source)

end PhpCalls.FileFacts

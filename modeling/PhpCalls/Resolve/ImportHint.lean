import PhpCalls.Text.Basic

set_option autoImplicit false

/-!
# Included paths as hints

The expression after `include` is reduced to the part of a path that can be compared with the paths
of a project.

## Main definitions

* `importHint?`: the part of a path that an expression shows.
-/

namespace PhpCalls

/-- The words and marks that say nothing about the path, in the order in which they are taken
out. -/
def pathMarkers : List String := ["dirname", "__FILE__", "(", ")", "ROOT_PATH"]

/-- What follows the last `__`, if their number is even and not zero. -/
def afterConstants (s : String) : String :=
  let n := Text.count s "__"
  if 0 < n && n % 2 = 0 then
    match Text.afterLast ['_', '_'] s.toList with
    | some tail => String.ofList tail
    | none => s
  else s

/-- What follows the first dot, if there are two or more. -/
def afterFirstDot (s : String) : String :=
  if 2 ≤ s.toList.count '.' then String.ofList ((s.toList.dropWhile (· ≠ '.')).drop 1) else s

/-- Blanks, slashes, dots and quotes, which are no part of a path at its ends. -/
def isPathEdge (c : Char) : Bool :=
  Text.isBlank c || c = '\\' || c = '/' || c = '.' || c = '"' || c = '\''

/-- The part of a path that an expression shows: nothing if no more than the extension is left. -/
def importHint? (expression : String) : Option String :=
  let bare := pathMarkers.foldl (fun s m => Text.replace s m "") expression
  let path := Text.slashed (Text.trimBoth isPathEdge (afterFirstDot (afterConstants bare)))
  if path = "" || (Text.contains path ".php" && path.utf8ByteSize ≤ 4) then none else some path

end PhpCalls

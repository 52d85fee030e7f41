import PhpCalls.Text.Basic

set_option autoImplicit false

/-!
# Paths as texts

A path is a text whose parts are divided by slashes. Empty parts and the part `.` say nothing,
except for a `.` at the very beginning of a relative path; `..` is a part like any other.

## Main definitions

* `Path.parts`: the parts of a path that say something.
* `Path.join`, `Path.parent?`, `Path.extension?`: a path below another, the path above, the
  extension.
* `Path.below?`, `Path.relative`: the rest of a path after another one.
-/

namespace PhpCalls.Path

/-- The part of a path says nothing. -/
def isSilent (part : String) : Bool := part = "" || part = "."

/-- The path begins at the root. -/
def isAbsolute (path : String) : Bool := path.toList.head? = some '/'

/-- A path cut into what stands before its body, and the parts of its body. Before the body stands
the root of an absolute path, or a `.` that a relative path begins with. -/
def split (path : String) : List String × List String :=
  match Text.splitAt '/' path with
  | "" :: body => if isAbsolute path then (["/"], body) else ([], [""])
  | "." :: body => (["."], body)
  | body => ([], body)

/-- A path put together again. -/
def unsplit (head body : List String) : String :=
  match head with
  | ["/"] => "/" ++ Text.joinWith "/" body
  | _ => Text.joinWith "/" (head ++ body)

/-- The parts of a path that say something. -/
def parts (path : String) : List String :=
  let (head, body) := split path
  head ++ body.filter fun p => !isSilent p

/-- Drops the parts at the end that say nothing. -/
def trimEnd (body : List String) : List String := (body.reverse.dropWhile isSilent).reverse

/-- The path `rest` seen from the directory `base`. -/
def join (base rest : String) : String :=
  if isAbsolute rest || base = "" then rest
  else if base.toList.getLast? = some '/' then base ++ rest
  else base ++ "/" ++ rest

/-- The path above: the last part that says something is taken off. The path above a single part is
empty; the root and the empty path have none above them. -/
def parent? (path : String) : Option String :=
  let (head, body) := split path
  match trimEnd body with
  | [] =>
    match head with
    | ["."] => some ""
    | _ => none
  | body => some (unsplit head (trimEnd body.dropLast))

/-- The last part of a path. -/
def name? (path : String) : Option String :=
  (trimEnd (split path).2).getLast?.filter fun p => p ≠ ".."

/-- What follows the last dot in the last part of a path; nothing if the dot is its first character
or missing. -/
def extension? (path : String) : Option String := do
  let name ← name? path
  match Text.splitAt '.' name with
  | [] | [_] | ["", _] => none
  | pieces => pieces.getLast?

/-- Drops the first `n` parts that say something. -/
def dropParts : Nat → List String → List String
  | 0, body => body.dropWhile isSilent
  | _ + 1, [] => []
  | n + 1, p :: body => if isSilent p then dropParts (n + 1) body else dropParts n body

/-- The rest of a path after the parts of `base`, or nothing if it does not begin with them. The
inside of the rest stays as it is written. -/
def below? (base path : String) : Option String :=
  let first := parts base
  if first.isPrefixOf (parts path) then
    let (head, body) := split path
    if first.isEmpty then some (unsplit head (trimEnd body))
    else some (Text.joinWith "/" (trimEnd (dropParts (first.length - head.length) body)))
  else none

/-- A path seen from a directory, with slashes only. A path that is not below the directory stays as
it is. -/
def relative (base path : String) : String := Text.slashed ((below? base path).getD path)

/-- Rows of parts are ordered by their first difference, and a row before every longer one that
begins with it. -/
def partsLe : List String → List String → Bool
  | [], _ => true
  | _ :: _, [] => false
  | a :: as, b :: bs => a < b || (a = b && partsLe as bs)

/-- Paths are ordered part by part. -/
def le (a b : String) : Bool := partsLe (parts a) (parts b)

/-- Paths in their order. -/
def sort (paths : List String) : List String := paths.mergeSort le

end PhpCalls.Path

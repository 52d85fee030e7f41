import PhpCalls.Ignore.Glob
import PhpCalls.Text.Basic

set_option autoImplicit false

/-!
# Ignore rules

A line of an ignore file is a pattern for paths below the directory of the file. A leading `!` turns
it round; a slash at its end limits it to directories; a slash elsewhere ties it to the directory of
the file, and without one it fits at any depth. The last line that fits a path decides.

## Main definitions

* `IgnoreRule`: a line.
* `IgnoreRule.ofLine`: the rule that a line gives.
* `Verdict`, `IgnoreRule.verdict`: what rules say about a path.
-/

namespace PhpCalls

/-- What rules say about a path. -/
inductive Verdict where
  | nothing
  | ignored
  | kept
deriving DecidableEq, Repr

namespace Verdict

/-- The first of two verdicts that says something. -/
def orElse (a b : Verdict) : Verdict := if a = .nothing then b else a

/-- The opposite verdict. -/
def invert : Verdict → Verdict
  | nothing => nothing
  | ignored => kept
  | kept => ignored

end Verdict

/-- A line of an ignore file. -/
structure IgnoreRule where
  /-- The pattern for paths. -/
  glob : List Glob.Token
  /-- The line keeps what it fits. -/
  keeps : Bool
  /-- The line fits directories only. -/
  onlyDirs : Bool

namespace IgnoreRule

/-- The text without blanks at its end, unless the last of them is taken as it is. -/
def trimLine (line : String) : String :=
  let cs := line.toList
  if ['\\', ' '].isSuffixOf cs then line else String.ofList (Text.dropEndWhile Text.isBlank cs)

/-- The parts of a line: whether it keeps, whether it is tied to its directory, and the pattern. -/
def lineParts (cs : List Char) : Bool × Bool × List Char :=
  match cs with
  | '\\' :: '!' :: rest => (false, false, '!' :: rest)
  | '\\' :: '#' :: rest => (false, false, '#' :: rest)
  | _ =>
    let (keeps, cs) :=
      match cs with
      | '!' :: rest => (true, rest)
      | _ => (false, cs)
    match cs with
    | '/' :: rest => (keeps, true, rest)
    | _ => (keeps, false, cs)

/-- Without a slash at the end, which limits a pattern to directories; a backslash before it goes
too. -/
def dirParts (cs : List Char) : Bool × List Char :=
  if cs.getLast? = some '/' then
    let body := cs.dropLast
    (true, if body.getLast? = some '\\' then body.dropLast else body)
  else (false, cs)

/-- The pattern for whole paths: one without a slash fits at any depth, and one that ends in two
stars fits what is inside a directory, but not the directory. -/
def wholePattern (anchored : Bool) (cs : List Char) : String :=
  let pattern := String.ofList cs
  let free : Bool := !anchored && !cs.contains '/' && pattern ≠ "**"
  let deep := if free then "**/" ++ pattern else pattern
  if "/**".toList.isSuffixOf deep.toList then deep ++ "/*" else deep

/-- The rule that a line gives: none for a blank line and for a comment; an error if the pattern
cannot be read. -/
def ofLine (lenient : Bool) (line : String) : Except Unit (Option IgnoreRule) :=
  if line.toList.head? = some '#' then .ok none
  else
    let line := trimLine line
    if line = "" then .ok none
    else
      let (keeps, anchored, body) := lineParts line.toList
      let (onlyDirs, body) := dirParts body
      match Glob.parse? lenient (wholePattern anchored body) with
      | some glob => .ok (some { glob, keeps, onlyDirs })
      | none => .error ()

/-- A line without a carriage return at its end. -/
def withoutReturn (line : String) : String :=
  if line.toList.getLast? = some '\r' then String.ofList line.toList.dropLast else line

/-- The lines of a file up to the first that is no text. -/
def linesOf (content : ByteArray) : List String :=
  let lines := content.toList.splitOnP (· == 10)
  let whole := if lines.getLast? = some [] then lines.dropLast else lines
  let texts := whole.map fun l => Text.ofBytes? ⟨l.toArray⟩
  ((texts.takeWhile Option.isSome).filterMap id).map withoutReturn

/-- The mark that may stand at the beginning of a text. -/
def byteOrderMark : Char := Char.ofNat 0xFEFF

/-- The rules of an ignore file. Lines that cannot be read are left out. -/
def ofContent (content : ByteArray) : List IgnoreRule :=
  let lines :=
    match linesOf content with
    | first :: rest => Text.trimStart (· = byteOrderMark) first :: rest
    | [] => []
  lines.filterMap fun line =>
    match ofLine true line with
    | .ok rule => rule
    | .error _ => none

/-- A rule fits a path. -/
def fits (path : String) (isDir : Bool) (r : IgnoreRule) : Bool :=
  (!r.onlyDirs || isDir) && Glob.accepts r.glob path

/-- What rules say about a path: the last that fits decides. -/
def verdict (rules : List IgnoreRule) (path : String) (isDir : Bool) : Verdict :=
  match rules.reverse.find? (fits path isDir) with
  | some r => if r.keeps then .kept else .ignored
  | none => .nothing

end IgnoreRule

end PhpCalls

import PhpCalls.Facts.Scope
import PhpCalls.Text.Slice

set_option autoImplicit false

/-!
# The imports of a file

`use` declarations, a record for each imported name, and then the expressions that include other
files.

## Main definitions

* `stripParens?`: an expression without the parentheses around it.
* `Import.ofUse`, `Import.ofInclude?`: the records of a `use` and of an inclusion.
-/

namespace PhpCalls

open Syntax

/-! ## Parentheses around an expression -/

/-- The byte offset of the parenthesis that closes the first one of a text. The characters are those
from `offset` on, and `depth` parentheses are open there. -/
def closingOffset? (depth offset : Nat) : List Char → Option Nat
  | [] => none
  | c :: cs =>
    let next := offset + c.utf8Size
    if c = '(' then closingOffset? (depth + 1) next cs
    else if c = ')' then
      match depth with
      | 0 => none
      | 1 => some offset
      | depth + 2 => closingOffset? (depth + 1) next cs
    else closingOffset? depth next cs

/-- What is cut out behind the start of a text and trimmed is shorter. -/
theorem length_trim_of_slice? {s t : String} {start stop : Nat} (hstart : 0 < start)
    (h : Text.slice? s start stop = some t) : (Text.trim t).toList.length < s.toList.length := by
  obtain ⟨before, behind, rfl, rfl, -⟩ := Text.slice?_eq_some_iff.1 h
  have hbefore : before.toList ≠ [] := by
    intro hnil
    rw [String.toList_eq_nil_iff.1 hnil] at hstart
    exact absurd hstart (Nat.lt_irrefl 0)
  have hpos : 0 < before.toList.length := List.length_pos_iff.2 hbefore
  have hshorter (l : List Char) : (l.dropWhile Text.isBlank).length ≤ l.length :=
    (List.dropWhile_suffix _).length_le
  have htrim : (Text.trim t).toList.length ≤ t.toList.length := by
    rw [Text.trim, String.toList_ofList, Text.dropAround, Text.dropEndWhile, List.length_reverse]
    refine Nat.le_trans (hshorter _) ?_
    rw [List.length_reverse]
    exact hshorter _
  simp only [String.toList_append, List.length_append]
  omega

/-- A text without blanks around it from which every pair of parentheses around it is taken off: as
long as the first character is a parenthesis that the last byte closes, what is between the two.
There is no result if an offset is below zero or nothing can be cut there. -/
def peel? (s : String) : Option String :=
  if s.front? = some '(' then
    match s.utf8ByteSize with
    | 0 => none
    | last + 1 =>
      if closingOffset? 0 0 s.toList = some last then
        match _h : Text.slice? s 1 last with
        | some inner => peel? (Text.trim inner)
        | none => none
      else some s
  else some s
termination_by s.toList.length
decreasing_by
  exact length_trim_of_slice? Nat.one_pos _h

/-- An expression without the blanks and the parentheses around it. -/
def stripParens? (expression : String) : Option String := peel? (Text.trim expression)

/-! ## Records -/

namespace Import

/-- What the words directly below a node say is imported. -/
def useKind? (n : Node) : Option ImportKind :=
  n.children.findSome? fun c =>
    if c.isNamed then none
    else
      match Text.foldCase c.text with
      | "function" => some .useFunction
      | "const" => some .useConst
      | _ => none

/-- The clauses of a `use` declaration, also those between braces. -/
def clausesOf (declaration : Node) : List Node :=
  declaration.children.flatMap fun c =>
    match c.kind with
    | .useClause => [c]
    | .useGroup => c.childrenOfKind .useClause
    | _ => []

/-- The part of a name before its last backslash. -/
def namespacePart? (name : String) : Option String :=
  match Text.splitAt '\\' name with
  | [] | [_] => none
  | parts => some (Text.joinWith "\\" parts.dropLast)

/-- The records of a `use` declaration. Names between braces follow the namespace before them. That
namespace is in no role, and an alias is always in one, so each is looked up in one way only. -/
def ofUse (declaration : Node) : List Import :=
  let stem :=
    ((declaration.childOfKind? .namespaceName).map fun n => Text.trimBoth (· = '\\') n.text).getD ""
  let common := useKind? declaration
  (clausesOf declaration).filterMap fun clause => do
    let written ← clause.children.find? fun c => c.kind.isClassName || c.kind = .namespaceName
    let path := Text.trimStart (· = '\\') written.text
    let useFrom := if stem = "" then path else stem ++ "\\" ++ path
    return {
      kind := (useKind? clause <|> common).getD .useClass
      startLine := declaration.startLine
      endLine := declaration.endLine
      fromNamespace := namespacePart? useFrom
      useFrom := some useFrom
      aliasName := clause.childText? .aliasName
      text := declaration.text }

/-- How an expression includes a file. -/
def includeKind? (k : Kind) : Option ImportKind :=
  match k with
  | .include_ => some .included
  | .includeOnce => some .includedOnce
  | .require => some .required
  | .requireOnce => some .requiredOnce
  | _ => none

/-- The record of an expression that includes a file. -/
def ofInclude? (n : Node) : Option Import := do
  let kind ← includeKind? n.kind
  let operand ← n.namedChildren.getLast?
  let path ← stripParens? operand.text
  return {
    kind
    startLine := n.startLine
    endLine := n.endLine
    path := some path
    text := n.text }

/-- The imports of a file: names first, then files. -/
def ofTree (root : Node) : List Import :=
  let nodes := (Place.root root).places.map Place.node
  (nodes.filter fun n => n.kind = .useDeclaration).flatMap ofUse ++ nodes.filterMap ofInclude?

end Import

end PhpCalls

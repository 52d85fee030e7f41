import PhpCalls.Toml.Scalar

set_option autoImplicit false

/-!
# Reading TOML

A document is a row of lines. A line that is not blank names a table, begins a new table of a list
of tables, or gives a key a value. A table is named once, a key has one value, and what was written
between braces or brackets is not added to.

## Main definitions

* `Toml.value`: a value.
* `Toml.Section`: a table that is being read.
* `Toml.parse`: the table of a document.
-/

namespace PhpCalls.Toml

/-! ## Keys -/

/-- Characters of keys without quotes. -/
def isBareChar (c : Char) : Bool := c.isAlphanum || c = '_' || c = '-'

/-- A key without dots. -/
def simpleKey (cs : List Char) : Option (String × List Char) :=
  match cs with
  | '"' :: _ => (lineText cs).map fun r => (String.ofList r.1, r.2)
  | '\'' :: _ => (lineText cs).map fun r => (String.ofList r.1, r.2)
  | _ =>
    let name := cs.takeWhile isBareChar
    if name.isEmpty then none else some (String.ofList name, cs.drop name.length)

/-- A key with dots between its parts, at most `fuel` of them. -/
def key : Nat → Reads (List String)
  | 0, _ => none
  | fuel + 1, cs => do
    let (k, rest) ← simpleKey (skipSpace cs)
    match skipSpace rest with
    | '.' :: more =>
      let (ks, left) ← key fuel more
      return (k :: ks, left)
    | left => return ([k], left)

/-! ## Tables that are being read -/

/-- A table that is being read, or what stands at a key of one. -/
inductive Section where
  /-- A value, which is not added to. -/
  | value (v : Toml)
  /-- A table. It is implicit if it was only named on the way to another one, and dotted if the dots
  of a key made it. -/
  | table (implicit dotted : Bool) (entries : List (String × Section))
  /-- A list of tables, the last of which is being read. -/
  | tables (done : List Section) (last : Section)

namespace Section

/-- A table without entries. -/
def blank (implicit dotted : Bool) : Section := .table implicit dotted []

/-- The entries with the one at a key replaced, or put last. -/
def replace (k : String) (s : Section) : List (String × Section) → List (String × Section)
  | [] => [(k, s)]
  | e :: es => if e.1 = k then (k, s) :: es else e :: replace k s es

/-- Changes the table at the end of a path by `f`. The way through a list of tables leads into the
last of them. Tables on the way are made where nothing is; the dots of a key go only through tables
that are implicit. -/
def alter (dotted : Bool) (f : Section → Option Section) : List String → Section → Option Section
  | [], s => f s
  | k :: ks, s =>
    match s with
    | .table implicit isDotted entries => do
      let next ←
        match entries.lookup k with
        | none => alter dotted f ks (blank true dotted)
        | some (.value _) => none
        | some (.tables done last) => (alter dotted f ks last).map fun l => .tables done l
        | some (.table i d es) => if dotted && !i then none else alter dotted f ks (.table i d es)
      return .table implicit isDotted (replace k next entries)
    | _ => none

/-- A new key with a value in a table. A key with dots goes into a table that dots made. -/
def insert (byDots : Bool) (k : String) (v : Toml) : Section → Option Section
  | .table implicit dotted entries =>
    if dotted ≠ byDots || (entries.lookup k).isSome then none
    else some (.table implicit dotted (entries ++ [(k, .value v)]))
  | _ => none

/-- A key with dots and its value in a table. -/
def insertPath (path : List String) (v : Toml) (s : Section) : Option Section :=
  match path.getLast? with
  | some k => alter true (insert (1 < path.length) k v) path.dropLast s
  | none => none

/-- A table is named in its parent. -/
def nameTable (k : String) : Section → Option Section
  | .table implicit dotted entries =>
    match entries.lookup k with
    | none => some (.table implicit dotted (entries ++ [(k, blank false false)]))
    | some (.table true false es) =>
      some (.table implicit dotted (replace k (.table false false es) entries))
    | _ => none
  | _ => none

/-- A list of tables gets one more in its parent. -/
def nameElement (k : String) : Section → Option Section
  | .table implicit dotted entries =>
    match entries.lookup k with
    | none => some (.table implicit dotted (entries ++ [(k, .tables [] (blank false false))]))
    | some (.tables done last) =>
      some (.table implicit dotted
        (replace k (.tables (done ++ [last]) (blank false false)) entries))
    | _ => none
  | _ => none

/-- The table at a path, whose last part is given to `f` in its parent. -/
def name (f : String → Section → Option Section) (path : List String) (s : Section) :
    Option Section :=
  match path.getLast? with
  | some k => alter false (f k) path.dropLast s
  | none => none

/-- A key and its value in the table that was named last. -/
def assign (current path : List String) (v : Toml) (s : Section) : Option Section :=
  alter false (insertPath path v) current s

mutual

/-- The value of what was read. -/
def toToml : Section → Toml
  | .value v => v
  | .table _ _ entries => .table (entriesToToml entries)
  | .tables done last => .arr (allToToml done ++ [toToml last])

/-- The values of several tables. -/
def allToToml : List Section → List Toml
  | [] => []
  | s :: ss => toToml s :: allToToml ss

/-- The values of the entries of a table. -/
def entriesToToml : List (String × Section) → List (String × Toml)
  | [] => []
  | e :: es => entryToToml e :: entriesToToml es

/-- The value of an entry of a table. -/
def entryToToml : String × Section → String × Toml
  | (k, s) => (k, toToml s)

end

end Section

/-! ## Values -/

/-- The rest of a comment. -/
def skipComment (cs : List Char) : List Char := cs.dropWhile isPrintable

/-- Passes over blanks, line ends and comments. -/
def skipAll : Nat → List Char → List Char
  | 0, cs => cs
  | fuel + 1, cs =>
    match newline? cs with
    | some rest => skipAll fuel rest
    | none =>
      match cs with
      | '#' :: rest => skipAll fuel (skipComment rest)
      | c :: rest => if isSpace c then skipAll fuel rest else c :: rest
      | [] => []

/-- A key and its value. -/
def pairWith (value : Reads Toml) : Reads (List String × Toml) := fun cs => do
  let (path, rest) ← key (cs.length + 1) cs
  let (v, left) ← value (skipSpace (← char '=' (skipSpace rest)))
  return ((path, v), left)

/-- The rest of a table between braces, after at least one key. -/
def inlineEntries (value : Reads Toml) : Nat → Section → Reads Section
  | 0, _, _ => none
  | fuel + 1, s, cs => do
    let ((path, v), rest) ← pairWith value cs
    let s ← s.insertPath path v
    match skipSpace rest with
    | '}' :: left => return (s, left)
    | ',' :: more => inlineEntries value fuel s more
    | _ => none

/-- The rest of an array, before an element or its end. -/
def arrayElements (value : Reads Toml) : Nat → Reads (List Toml)
  | 0, _ => none
  | fuel + 1, cs =>
    match skipAll cs.length cs with
    | ']' :: left => some ([], left)
    | cs => do
      let (v, rest) ← value cs
      match skipAll rest.length rest with
      | ']' :: left => return ([v], left)
      | ',' :: more =>
        let (vs, left) ← arrayElements value fuel more
        return (v :: vs, left)
      | _ => none

/-- A value whose parts are nested at most `fuel` deep. -/
def value : Nat → Reads Toml
  | 0, _ => none
  | fuel + 1, cs =>
    match cs with
    | '"' :: _ => (quotedText cs).map fun r => (.str (String.ofList r.1), r.2)
    | '\'' :: _ => (quotedText cs).map fun r => (.str (String.ofList r.1), r.2)
    | '[' :: rest =>
      (arrayElements (value fuel) (rest.length + 1) rest).map fun r => (.arr r.1, r.2)
    | '{' :: rest =>
      match skipSpace rest with
      | '}' :: left => some (.table [], left)
      | body =>
        (inlineEntries (value fuel) (body.length + 1) (.blank false false) body).map fun r =>
          (r.1.toToml, r.2)
    | _ => word cs

/-- How deep values may be nested. -/
def nestingLimit : Nat := 80

/-! ## Documents -/

/-- The end of a line: blanks, maybe a comment, and a line end or the end of the document. -/
def lineEnd (cs : List Char) : Option (List Char) :=
  let rest :=
    match skipSpace cs with
    | '#' :: c => skipComment c
    | c => c
  match rest with
  | [] => some []
  | _ => newline? rest

/-- A line that names a table or an element of a list of tables. -/
def header (cs : List Char) : Option ((Bool × List String) × List Char) :=
  match cs with
  | '[' :: '[' :: rest => do
    let (path, rest) ← key (rest.length + 1) rest
    let left ← char ']' (← char ']' rest)
    return ((true, path), left)
  | '[' :: rest => do
    let (path, rest) ← key (rest.length + 1) rest
    return ((false, path), ← char ']' rest)
  | _ => none

/-- The rest of a document, of at most `fuel` lines. -/
def lines : Nat → List String → Section → List Char → Option Section
  | _, _, s, [] => some s
  | 0, _, _, _ => none
  | fuel + 1, current, s, cs =>
    match skipSpace cs with
    | [] => some s
    | '[' :: rest => do
      let ((isElement, path), left) ← header ('[' :: rest)
      let s ← s.name (if isElement then Section.nameElement else Section.nameTable) path
      lines fuel path s (← lineEnd left)
    | body =>
      match lineEnd body with
      | some left => lines fuel current s left
      | none => do
        let ((path, v), left) ← pairWith (value nestingLimit) body
        let s ← s.assign current path v
        lines fuel current s (← lineEnd left)

/-- The table of a document; nothing if the text is no document. -/
def parse (text : String) : Option Toml := do
  let cs := text.toList
  let body := if cs.head? = some (Char.ofNat 0xFEFF) then cs.drop 1 else cs
  let s ← lines (body.length + 1) [] (.blank false false) body
  return s.toToml

end PhpCalls.Toml

import PhpCalls.Text.Utf8

set_option autoImplicit false

/-!
# Globs

Patterns for paths, matched byte by byte. `?` is one byte and `*` any number of bytes, no slash
among them; `**` between slashes or at an end spans directories; `[a-z]` is a class of bytes; a list
between braces offers alternatives; a backslash takes the next character as it is.

## Main definitions

* `Glob.Token`: a part of a pattern.
* `Glob.parse?`: the parts of a pattern.
* `Glob.accepts`: a path fits a pattern.
-/

namespace PhpCalls.Glob

/-- A part of a pattern. -/
inductive Token where
  /-- A byte that stands for itself. -/
  | literal (b : UInt8)
  /-- `?` -/
  | one
  /-- `*` -/
  | many
  /-- `**` with a slash after it, at the beginning. -/
  | anyDirs
  /-- `**` after a slash, at the end. -/
  | allBelow
  /-- `**` between two slashes. -/
  | between
  /-- A class of bytes. -/
  | ofClass (negated : Bool) (ranges : List (UInt8 × UInt8))
  /-- A list between braces. -/
  | alternatives (branches : List (List Token))

/-- The bytes of a character. -/
def bytesOf (c : Char) : List UInt8 := (Text.toBytes (String.singleton c)).toList

/-- The byte of a slash. -/
def slash : UInt8 := 47

/-! ## Reading a pattern -/

/-- What has been read of a pattern. Lists of parts are kept with the last part first. -/
structure Reading where
  /-- The lists of parts that are being read, the innermost first. -/
  branches : List (List Token) := [[]]
  /-- For every open brace, the number of lists that were there before it. -/
  opened : List Nat := []
  /-- The character before. -/
  previous : Option Char := none
  /-- A bracket that nothing closes has been seen; brackets stand for themselves from there. -/
  plainBrackets : Bool := false

namespace Reading

/-- One more part in the innermost list. -/
def push (r : Reading) (t : Token) : Reading :=
  match r.branches with
  | b :: bs => { r with branches := (t :: b) :: bs }
  | [] => { r with branches := [[t]] }

/-- A character that stands for itself. -/
def pushChar (r : Reading) (c : Char) : Reading :=
  (bytesOf c).foldl (fun r b => r.push (.literal b)) r

/-- Without the last part of the innermost list. -/
def pop (r : Reading) : Option Token × Reading :=
  match r.branches with
  | (t :: b) :: bs => (some t, { r with branches := b :: bs })
  | _ => (none, r)

/-- The innermost list has no part yet. -/
def isFresh (r : Reading) : Bool := (r.branches.head?.map List.isEmpty).getD true

/-- Some brace is open. -/
def isInBraces (r : Reading) : Bool := !r.opened.isEmpty

/-- The reading after a character. -/
def after (r : Reading) (c : Char) : Reading := { r with previous := some c }

/-- A brace is opened. -/
def openBrace (r : Reading) : Reading :=
  { r with opened := r.branches.length :: r.opened, branches := [] :: r.branches }

/-- The innermost brace is closed; nothing if none is open. -/
def closeBrace? (r : Reading) : Option Reading :=
  match r.opened with
  | [] => none
  | n :: opened =>
    let inner := r.branches.take (r.branches.length - n)
    let outer := { r with opened, branches := r.branches.drop (r.branches.length - n) }
    some (outer.push (.alternatives (inner.reverse.map List.reverse)))

end Reading

/-- The bytes of a range of characters. -/
def rangeBytes (a b : Char) : List (UInt8 × UInt8) :=
  if a = b then (bytesOf a).map fun x => (x, x)
  else
    let low := bytesOf a
    let high := bytesOf b
    low.dropLast.map (fun x => (x, x)) ++ [(low.getLastD 0, high.headD 0)]
      ++ high.tail.map fun x => (x, x)

/-- What a class that never ends, or whose bounds are out of order, is. -/
inductive ClassFault where
  | unclosed
  | disordered

/-- The ranges of a class up to the bracket that closes it, the last range first. `pending` says
that the last character was a hyphen that begins a range, `first` that nothing was read. -/
def classRanges (ranges : List (Char × Char)) (first pending : Bool) :
    List Char → Except ClassFault (List (Char × Char) × List Char)
  | [] => .error .unclosed
  | c :: cs =>
    if c = ']' && !first then .ok (if pending then ('-', '-') :: ranges else ranges, cs)
    else if c = '-' && !first && !pending then classRanges ranges false true cs
    else if pending then
      match ranges with
      | (a, _) :: rest =>
        if c < a then .error .disordered else classRanges ((a, c) :: rest) false false cs
      | [] => classRanges [(c, c)] false false cs
    else classRanges ((c, c) :: ranges) false false cs

/-- A class after its opening bracket. -/
def readClass (cs : List Char) : Except ClassFault (Token × List Char) := do
  let (negated, body) :=
    match cs with
    | '!' :: rest => (true, rest)
    | '^' :: rest => (true, rest)
    | rest => (false, rest)
  let (ranges, rest) ← classRanges [] true false body
  return (.ofClass negated (ranges.reverse.flatMap fun r => rangeBytes r.1 r.2), rest)

/-- Two stars, with what was read before the first of them and the characters after the second.
Where they span no directories they count as two single stars. -/
def readStars (r : Reading) (before : Option Char) (cs : List Char) : Reading × List Char :=
  let single := ((r.push .many).push .many, cs)
  let atEnd : Bool := cs.isEmpty || (r.isInBraces && (cs.head? = some ',' || cs.head? = some '}'))
  if r.isFresh then
    match cs with
    | [] => (r.push .anyDirs, [])
    | '/' :: rest => ((r.push .anyDirs).after '/', rest)
    | _ => single
  else
    let opens : Bool :=
      before = some '/' || (r.isInBraces && (before = some ',' || before = some '{'))
    if !opens then single
    else if atEnd || cs.head? = some '/' then
      let rest := if atEnd then cs else cs.drop 1
      let (last, shorter) := r.pop
      let joined :=
        match last with
        | some .anyDirs => r
        | some .allBelow => r
        | _ => shorter.push (if atEnd then .allBelow else .between)
      (if atEnd then joined else joined.after '/', rest)
    else single

/-- Reads the rest of a pattern in at most `fuel` steps. Nothing comes of a brace or bracket that is
not closed, or not opened, and of a backslash at the end; if `lenient`, a bracket that is not closed
stands for itself. -/
def readFrom (lenient : Bool) : Nat → Reading → List Char → Option Reading
  | _, r, [] => some r
  | 0, _, _ => none
  | fuel + 1, r, c :: cs =>
    match c with
    | '?' => readFrom lenient fuel ((r.push .one).after c) cs
    | '*' =>
      match cs with
      | '*' :: rest =>
        let (r', left) := readStars (r.after '*') r.previous rest
        readFrom lenient fuel r' left
      | _ => readFrom lenient fuel ((r.push .many).after c) cs
    | '[' =>
      if r.plainBrackets then readFrom lenient fuel ((r.pushChar c).after c) cs
      else
        match readClass cs with
        | .ok (t, rest) => readFrom lenient fuel ((r.push t).after ']') rest
        | .error .disordered => none
        | .error .unclosed =>
          if lenient then
            readFrom lenient fuel ({ r.pushChar c with plainBrackets := true }.after c) cs
          else none
    | '{' => readFrom lenient fuel (r.openBrace.after c) cs
    | '}' =>
      match r.closeBrace? with
      | some r' => readFrom lenient fuel (r'.after c) cs
      | none => none
    | ',' =>
      if r.isInBraces then
        readFrom lenient fuel ({ r with branches := [] :: r.branches }.after c) cs
      else readFrom lenient fuel ((r.pushChar c).after c) cs
    | '\\' =>
      match cs with
      | d :: rest => readFrom lenient fuel ((r.pushChar d).after d) rest
      | [] => none
    | _ => readFrom lenient fuel ((r.pushChar c).after c) cs

/-- The parts of a pattern. -/
def parse? (lenient : Bool) (pattern : String) : Option (List Token) := do
  let r ← readFrom lenient (pattern.length + 1) {} pattern.toList
  match r.opened, r.branches with
  | [], [tokens] => some tokens.reverse
  | _, _ => none

/-! ## Alternatives -/

mutual

/-- The patterns without alternatives that parts stand for. -/
def expandAll : List Token → List (List Token)
  | [] => [[]]
  | t :: ts => (expandOne t).flatMap fun a => (expandAll ts).map fun b => a ++ b

/-- The patterns without alternatives that one part stands for. -/
def expandOne : Token → List (List Token)
  | .alternatives branches =>
    match expandBranches branches with
    | [] => [[]]
    | ps => ps
  | t => [[t]]

/-- The patterns without alternatives that branches stand for. An empty branch is no alternative. -/
def expandBranches : List (List Token) → List (List Token)
  | [] => []
  | b :: bs =>
    match expandAll b with
    | [[]] => expandBranches bs
    | ps => ps ++ expandBranches bs

end

/-! ## Matching -/

/-- All ends of a list, the list itself first. -/
def ends : List UInt8 → List (List UInt8)
  | [] => [[]]
  | b :: bs => (b :: bs) :: ends bs

/-- The ends that are left when some bytes other than slashes are passed over. -/
def endsWithin : List UInt8 → List (List UInt8)
  | [] => [[]]
  | b :: bs => (b :: bs) :: (if b = slash then [] else endsWithin bs)

/-- The ends that follow a slash. -/
def endsAfterSlash : List UInt8 → List (List UInt8)
  | [] => []
  | b :: bs => if b = slash then bs :: endsAfterSlash bs else endsAfterSlash bs

/-- What may be left of a path after one part. -/
def remainders (t : Token) (bs : List UInt8) : List (List UInt8) :=
  match t, bs with
  | .literal b, c :: cs => if b = c then [cs] else []
  | .one, c :: cs => if c = slash then [] else [cs]
  | .ofClass negated ranges, c :: cs =>
    if (ranges.any fun r => r.1 ≤ c && c ≤ r.2) = negated then [] else [cs]
  | .many, bs => endsWithin bs
  | .anyDirs, bs => bs :: endsAfterSlash bs
  | .allBelow, c :: cs => if c = slash then ends cs else []
  | .between, c :: cs => if c = slash then cs :: endsAfterSlash cs else []
  | _, _ => []

/-- A path fits parts without alternatives. -/
def fits : List Token → List UInt8 → Bool
  | [], bs => bs.isEmpty
  | t :: ts, bs => (remainders t bs).any fun rest => fits ts rest

/-- A path fits a pattern. Every path fits two stars that stand alone. -/
def accepts (tokens : List Token) (path : String) : Bool :=
  match tokens with
  | [.anyDirs] => true
  | _ =>
    let bytes := (Text.toBytes path).toList
    (expandAll tokens).any fun ts => fits ts bytes

end PhpCalls.Glob

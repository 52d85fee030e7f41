import PhpCalls.Text.Basic
import PhpCalls.Toml.Value

set_option autoImplicit false

/-!
# TOML texts, numbers and dates

Readers for the values of TOML that hold no other value. A reader takes characters from the front of
a list, or fails.

## Main definitions

* `Toml.quotedText`: a text between quotes of one of the four sorts.
* `Toml.word`: a truth value, a number, a date or a time.
-/

namespace PhpCalls.Toml

/-- Takes characters from the front of a list, or fails. -/
abbrev Reads (α : Type) := List Char → Option (α × List Char)

/-- Blanks within a line. -/
def isSpace (c : Char) : Bool := c = ' ' || c = '\t'

/-- Passes over blanks within a line. -/
def skipSpace (cs : List Char) : List Char := cs.dropWhile isSpace

/-- Characters that may stand in texts and comments: no control characters but the tab. -/
def isPrintable (c : Char) : Bool := c = '\t' || (0x20 ≤ c.toNat && c.toNat ≠ 0x7F)

/-- The end of a line. -/
def newline? : List Char → Option (List Char)
  | '\n' :: cs => some cs
  | '\r' :: '\n' :: cs => some cs
  | _ => none

/-! ## Texts -/

/-- The value of a hexadecimal digit. -/
def hexDigit? (c : Char) : Option Nat :=
  if c.isDigit then some (c.toNat - 48)
  else if 'a' ≤ c && c ≤ 'f' then some (c.toNat - 87)
  else if 'A' ≤ c && c ≤ 'F' then some (c.toNat - 55)
  else none

/-- The character of `n` hexadecimal digits. -/
def hexChar (n : Nat) : Reads Char := fun cs => do
  let ds := cs.take n
  guard (ds.length = n)
  let code ← ds.foldlM (fun v d => (hexDigit? d).map fun h => v * 16 + h) 0
  guard (code.isValidChar)
  return (Char.ofNat code, cs.drop n)

/-- What follows a backslash. -/
def escaped : Reads Char
  | 'b' :: cs => some ('\x08', cs)
  | 't' :: cs => some ('\t', cs)
  | 'n' :: cs => some ('\n', cs)
  | 'f' :: cs => some ('\x0c', cs)
  | 'r' :: cs => some ('\r', cs)
  | '"' :: cs => some ('"', cs)
  | '\\' :: cs => some ('\\', cs)
  | 'u' :: cs => hexChar 4 cs
  | 'U' :: cs => hexChar 8 cs
  | _ => none

/-- The rest of a text between quotation marks on one line. -/
def basicText : Nat → Reads (List Char)
  | 0, _ => none
  | _, [] => none
  | _ + 1, '"' :: cs => some ([], cs)
  | fuel + 1, '\\' :: cs => do
    let (c, rest) ← escaped cs
    let (text, left) ← basicText fuel rest
    return (c :: text, left)
  | fuel + 1, c :: cs => do
    guard (isPrintable c)
    let (text, left) ← basicText fuel cs
    return (c :: text, left)

/-- The rest of a text between apostrophes on one line. -/
def literalText : Reads (List Char)
  | [] => none
  | '\'' :: cs => some ([], cs)
  | c :: cs => do
    guard (isPrintable c)
    let (text, left) ← literalText cs
    return (c :: text, left)

/-- Three quotes close a text over several lines; up to two more before them belong to it. -/
def closing (q : Char) (cs : List Char) : Option (List Char × List Char) :=
  let quotes := cs.takeWhile (· = q)
  if 3 ≤ quotes.length && quotes.length ≤ 5 then
    some (quotes.drop 3, cs.drop quotes.length)
  else none

/-- After a backslash at the end of a line, the blanks and line ends up to the next character. -/
def lineContinuation? (cs : List Char) : Option (List Char) := do
  let rest ← newline? (skipSpace cs)
  return rest.dropWhile fun c => isSpace c || c = '\n' || c = '\r'

/-- The rest of a text over several lines, between quotes `q`. Only quotation marks give a backslash
a meaning. -/
def multilineText (q : Char) : Nat → Reads (List Char)
  | 0, _ => none
  | fuel + 1, cs =>
    match closing q cs, newline? cs, cs with
    | some r, _, _ => some r
    | none, some rest, _ => do
      let (text, left) ← multilineText q fuel rest
      return ('\n' :: text, left)
    | none, none, c :: cs =>
      if c = '\\' && q = '"' then
        match lineContinuation? cs with
        | some rest => multilineText q fuel rest
        | none => do
          let (c, rest) ← escaped cs
          let (text, left) ← multilineText q fuel rest
          return (c :: text, left)
      else do
        guard (isPrintable c && (c ≠ q || (cs.takeWhile (· = q)).length < 2))
        let (text, left) ← multilineText q fuel cs
        return (c :: text, left)
    | none, none, [] => none

/-- A text on one line. -/
def lineText : Reads (List Char)
  | '"' :: cs => basicText (cs.length + 1) cs
  | '\'' :: cs => literalText cs
  | _ => none

/-- A text between quotes of one of the four sorts. -/
def quotedText (cs : List Char) : Option (List Char × List Char) :=
  let multiline (q : Char) (cs : List Char) : Option (List Char × List Char) :=
    multilineText q (cs.length + 1) ((newline? cs).getD cs)
  match cs with
  | '"' :: '"' :: '"' :: rest => multiline '"' rest
  | '\'' :: '\'' :: '\'' :: rest => multiline '\'' rest
  | _ => lineText cs

/-! ## Numbers -/

/-- Digits that satisfy `p`, with single underscores between them. -/
def digitsWith (p : Char → Bool) (cs : List Char) : Option (List Char) :=
  let groups := cs.splitOnP (· == '_')
  if groups.all fun g => !g.isEmpty && g.all p then some groups.flatten else none

/-- The value of digits. -/
def valueIn (base : Nat) (ds : List Char) : Nat :=
  ds.foldl (fun n d => n * base + ((hexDigit? d).getD 0)) 0

/-- A decimal numeral without a sign and without a needless zero. -/
def decimal? (cs : List Char) : Option Nat := do
  let ds ← digitsWith Char.isDigit cs
  guard (ds.length = 1 || ds.head? ≠ some '0')
  return valueIn 10 ds

/-- A sign, and the rest. -/
def signOf : List Char → Int × List Char
  | '+' :: cs => (1, cs)
  | '-' :: cs => (-1, cs)
  | cs => (1, cs)

/-- The bounds of integers. -/
def inRange (n : Int) : Bool := -0x8000000000000000 ≤ n && n < 0x8000000000000000

/-- An integer. -/
def integer? (cs : List Char) : Option Int := do
  let n : Int ←
    match cs with
    | '0' :: 'x' :: ds =>
      (digitsWith (fun c => (hexDigit? c).isSome) ds).map fun ds => (valueIn 16 ds : Int)
    | '0' :: 'o' :: ds =>
      (digitsWith (fun c => '0' ≤ c && c ≤ '7') ds).map fun ds => (valueIn 8 ds : Int)
    | '0' :: 'b' :: ds =>
      (digitsWith (fun c => c = '0' || c = '1') ds).map fun ds => (valueIn 2 ds : Int)
    | _ =>
      let (sign, ds) := signOf cs
      (decimal? ds).map fun n => sign * (n : Int)
  guard (inRange n)
  return n

/-- The exponent of a float. -/
def isExponent (cs : List Char) : Bool := (digitsWith Char.isDigit (signOf cs).2).isSome

/-- A float. -/
def isFloat (cs : List Char) : Bool :=
  let body := (signOf cs).2
  if body = "inf".toList || body = "nan".toList then true
  else
    let mantissa := body.takeWhile fun c => c ≠ 'e' && c ≠ 'E'
    let tail := body.drop mantissa.length
    let exponent : Bool := tail.isEmpty || isExponent (tail.drop 1)
    let whole := mantissa.takeWhile (· ≠ '.')
    let point := mantissa.drop whole.length
    let fraction : Bool := point.isEmpty || (digitsWith Char.isDigit (point.drop 1)).isSome
    (decimal? whole).isSome && fraction && exponent && !(point.isEmpty && tail.isEmpty)

/-! ## Dates and times -/

/-- Exactly `n` digits, as a number. -/
def exactly (n : Nat) : Reads Nat := fun cs => do
  let ds := cs.take n
  guard (ds.length = n && ds.all Char.isDigit)
  return (valueIn 10 ds, cs.drop n)

/-- The character `c`. -/
def char (c : Char) (cs : List Char) : Option (List Char) :=
  if cs.head? = some c then some (cs.drop 1) else none

/-- The number of days of a month. -/
def daysIn (year month : Nat) : Nat :=
  if month = 2 then (if (year % 4 = 0 && year % 100 ≠ 0) || year % 400 = 0 then 29 else 28)
  else if month = 4 || month = 6 || month = 9 || month = 11 then 30
  else 31

/-- A date. -/
def date (cs : List Char) : Option (List Char) := do
  let (year, cs) ← exactly 4 cs
  let (month, cs) ← exactly 2 (← char '-' cs)
  let (day, cs) ← exactly 2 (← char '-' cs)
  guard (1 ≤ month && month ≤ 12 && 1 ≤ day && day ≤ daysIn year month)
  return cs

/-- A time of day. -/
def time (cs : List Char) : Option (List Char) := do
  let (hour, cs) ← exactly 2 cs
  let (minute, cs) ← exactly 2 (← char ':' cs)
  let (second, cs) ← exactly 2 (← char ':' cs)
  guard (hour ≤ 23 && minute ≤ 59 && second ≤ 60)
  match cs with
  | '.' :: rest =>
    guard ((rest.takeWhile Char.isDigit).length ≠ 0)
    return rest.dropWhile Char.isDigit
  | _ => return cs

/-- The distance of a time from universal time. -/
def offset (cs : List Char) : Option (List Char) :=
  match cs with
  | [] => some []
  | ['Z'] => some []
  | ['z'] => some []
  | s :: rest => do
    guard (s = '+' || s = '-')
    let (hour, cs) ← exactly 2 rest
    let (minute, cs) ← exactly 2 (← char ':' cs)
    guard (hour ≤ 23 && minute ≤ 59)
    return cs

/-- A date, a time, or both. -/
def isMoment (cs : List Char) : Bool :=
  let done (r : Option (List Char)) : Bool := r = some []
  let both : Option (List Char) := do
    match ← date cs with
    | [] => some []
    | c :: rest =>
      guard (c = 'T' || c = 't' || c = ' ')
      offset (← time rest)
  done both || done (time cs)

/-! ## Words -/

/-- The characters of numbers, dates, times and truth values. -/
def isWordChar (c : Char) : Bool :=
  c.isAlphanum || c = '_' || c = '+' || c = '-' || c = '.' || c = ':'

/-- A date may be followed by a blank and a time. -/
def wordLength (cs : List Char) : Nat :=
  let first := cs.takeWhile isWordChar
  match cs.drop first.length with
  | ' ' :: rest =>
    let second := rest.takeWhile isWordChar
    if date first = some [] && second.head?.any Char.isDigit then first.length + 1 + second.length
    else first.length
  | _ => first.length

/-- A truth value, a number, a date or a time. -/
def word (cs : List Char) : Option (Toml × List Char) := do
  let w := cs.take (wordLength cs)
  let rest := cs.drop w.length
  if w = "true".toList then some (.bool true, rest)
  else if w = "false".toList then some (.bool false, rest)
  else
    match integer? w with
    | some n => some (.int n, rest)
    | none => if isFloat w || isMoment w then some (.other, rest) else none

end PhpCalls.Toml

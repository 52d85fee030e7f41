import PhpCalls.Json.Basic

set_option autoImplicit false

/-!
# Reading JSON

A reader of one JSON value that is followed by nothing but blanks. Blanks are space, tab, line feed
and carriage return. A text may not hold a control character; a numeral has no leading zero.

## Main definitions

* `Json.parse`: the value of a text.

The reader takes a bound on its depth, which `parse` chooses from the length of the text.
-/

namespace PhpCalls.Json

/-- The blanks of JSON. -/
def isSpace (c : Char) : Bool := c = ' ' || c = '\t' || c = '\n' || c = '\r'

/-- Passes over blanks. -/
def skip (cs : List Char) : List Char := cs.dropWhile isSpace

/-- Passes over the characters of `word`. -/
def literal (word : String) (cs : List Char) : Option (List Char) :=
  if word.toList.isPrefixOf cs then some (cs.drop word.length) else none

/-! ## Numerals -/

/-- At least one digit. -/
def someDigits (cs : List Char) : Option (List Char × List Char) :=
  match cs.takeWhile Char.isDigit with
  | [] => none
  | ds => some (ds, cs.dropWhile Char.isDigit)

/-- The digits before a point: a lone zero, or digits that do not begin with zero. -/
def wholePart (cs : List Char) : Option (List Char × List Char) :=
  match someDigits cs with
  | some ('0' :: _ :: _, _) => none
  | r => r

/-- Passes over a point and digits, if there is a point. -/
def fraction (cs : List Char) : Option (Bool × List Char) :=
  match cs with
  | '.' :: rest => (someDigits rest).map fun r => (true, r.2)
  | _ => some (false, cs)

/-- Passes over a mark, a sign and digits, if there is a mark. -/
def exponent (cs : List Char) : Option (Bool × List Char) :=
  let afterMark (rest : List Char) : Option (Bool × List Char) :=
    match rest with
    | '+' :: ds => (someDigits ds).map fun r => (true, r.2)
    | '-' :: ds => (someDigits ds).map fun r => (true, r.2)
    | ds => (someDigits ds).map fun r => (true, r.2)
  match cs with
  | 'e' :: rest => afterMark rest
  | 'E' :: rest => afterMark rest
  | _ => some (false, cs)

/-- The value of decimal digits. -/
def natOf (ds : List Char) : Nat := ds.foldl (fun n d => n * 10 + (d.toNat - 48)) 0

/-- A number: a natural, or another one. -/
def number (cs : List Char) : Option (Json × List Char) :=
  let unsigned (negative : Bool) (cs : List Char) : Option (Json × List Char) := do
    let (ds, rest) ← wholePart cs
    let (pointed, rest) ← fraction rest
    let (marked, rest) ← exponent rest
    some (if negative || pointed || marked then .other else .nat (natOf ds), rest)
  match cs with
  | '-' :: rest => unsigned true rest
  | _ => unsigned false cs

/-! ## Texts -/

/-- The value of a hexadecimal digit. -/
def hexValue (c : Char) : Option Nat :=
  if c.isDigit then some (c.toNat - 48)
  else if 'a' ≤ c && c ≤ 'f' then some (c.toNat - 87)
  else if 'A' ≤ c && c ≤ 'F' then some (c.toNat - 55)
  else none

/-- Four hexadecimal digits. -/
def fourHex : List Char → Option (Nat × List Char)
  | a :: b :: c :: d :: rest => do
    let a ← hexValue a
    let b ← hexValue b
    let c ← hexValue c
    let d ← hexValue d
    some (((a * 16 + b) * 16 + c) * 16 + d, rest)
  | _ => none

/-- One written character: a character, half of a surrogate pair, or the closing quote. -/
inductive Piece where
  | char (c : Char)
  | half (unit : Nat)
  | close

/-- The piece that an escape stands for, after its backslash. -/
def escaped : List Char → Option (Piece × List Char)
  | '"' :: rest => some (.char '"', rest)
  | '\\' :: rest => some (.char '\\', rest)
  | '/' :: rest => some (.char '/', rest)
  | 'b' :: rest => some (.char '\x08', rest)
  | 'f' :: rest => some (.char '\x0c', rest)
  | 'n' :: rest => some (.char '\n', rest)
  | 'r' :: rest => some (.char '\r', rest)
  | 't' :: rest => some (.char '\t', rest)
  | 'u' :: rest => do
    let (n, rest) ← fourHex rest
    some (if 0xD800 ≤ n && n < 0xE000 then .half n else .char (Char.ofNat n), rest)
  | _ => none

/-- The next piece of a text. -/
def piece : List Char → Option (Piece × List Char)
  | [] => none
  | c :: rest =>
    if c = '"' then some (.close, rest)
    else if c = '\\' then escaped rest
    else if c.toNat < 0x20 then none
    else some (.char c, rest)

/-- The pieces up to the closing quote, at most as many as the bound. -/
def pieces : Nat → List Char → Option (List Piece × List Char)
  | 0, _ => none
  | n + 1, cs => do
    let (p, rest) ← piece cs
    match p with
    | .close => some ([], rest)
    | p =>
      let (ps, rest) ← pieces n rest
      some (p :: ps, rest)

/-- The characters of pieces; surrogate halves must come in pairs, high before low. -/
def assemble : List Piece → Option (List Char)
  | [] => some []
  | .char c :: ps => (assemble ps).map (c :: ·)
  | .half hi :: .half lo :: ps =>
    if hi < 0xDC00 && 0xDC00 ≤ lo then
      (assemble ps).map (Char.ofNat (0x10000 + (hi - 0xD800) * 1024 + (lo - 0xDC00)) :: ·)
    else none
  | _ => none

/-- A text after its opening quote; the text is absent if halves do not pair. -/
def text (cs : List Char) : Option (Option String × List Char) := do
  let (ps, rest) ← pieces (cs.length + 1) cs
  some ((assemble ps).map String.ofList, rest)

/-! ## Values -/

/-- The object of members, unless a key could not be read. -/
def objectOf (members : List (Option String × Json)) : Json :=
  match members.mapM fun m => m.1.map fun key => (key, m.2) with
  | some ms => .obj ms
  | none => .other

mutual

/-- A value. -/
def value : Nat → List Char → Option (Json × List Char)
  | 0, _ => none
  | n + 1, cs =>
    match skip cs with
    | [] => none
    | c :: rest =>
      if c = 'n' then (literal "ull" rest).map (.null, ·)
      else if c = 't' then (literal "rue" rest).map (.bool true, ·)
      else if c = 'f' then (literal "alse" rest).map (.bool false, ·)
      else if c = '"' then
        (text rest).map fun (s, rest) => ((s.map Json.str).getD .other, rest)
      else if c = '[' then
        match skip rest with
        | ']' :: rest => some (.arr [], rest)
        | rest => (elements n rest).map fun (es, rest) => (.arr es, rest)
      else if c = '{' then
        match skip rest with
        | '}' :: rest => some (.obj [], rest)
        | rest => (members n rest).map fun (ms, rest) => (objectOf ms, rest)
      else number (c :: rest)

/-- Elements up to the closing bracket; there is at least one. -/
def elements : Nat → List Char → Option (List Json × List Char)
  | 0, _ => none
  | n + 1, cs => do
    let (e, rest) ← value n cs
    match skip rest with
    | ',' :: rest =>
      let (es, rest) ← elements n rest
      some (e :: es, rest)
    | ']' :: rest => some ([e], rest)
    | _ => none

/-- Members up to the closing brace; there is at least one. -/
def members : Nat → List Char → Option (List (Option String × Json) × List Char)
  | 0, _ => none
  | n + 1, cs =>
    match skip cs with
    | '"' :: rest => do
      let (key, rest) ← text rest
      match skip rest with
      | ':' :: rest =>
        let (v, rest) ← value n rest
        match skip rest with
        | ',' :: rest =>
          let (ms, rest) ← members n rest
          some ((key, v) :: ms, rest)
        | '}' :: rest => some ([(key, v)], rest)
        | _ => none
      | _ => none
    | _ => none

end

/-- The value of a text, if the text is one JSON value. -/
def parse (s : String) : Option Json :=
  let cs := s.toList
  match value (2 * cs.length + 2) cs with
  | some (j, rest) => if (skip rest).isEmpty then some j else none
  | none => none

end PhpCalls.Json

import PhpCalls.Toml.Value

set_option autoImplicit false

/-!
# Writing TOML

## Main definitions

* `Toml.quote`: a text as a value. Quotation marks are used unless the text holds some or a
  backslash; then apostrophes, if the text holds none; then three of either.
* `Toml.array`: texts as a value; two or more stand on lines of their own.
* `Toml.tableText`: a table with its name.
-/

namespace PhpCalls.Toml

/-! ## Texts -/

/-- A character that has no other form than an escape. -/
def needsEscape (c : Char) : Bool :=
  c ≠ '\t' && c ≠ '\n' && (c.toNat ≤ 0x1F || c.toNat = 0x7F)

/-- The length of the longest run of a character, given the length of the run before. -/
def longestRun (q : Char) : Nat → List Char → Nat
  | n, [] => n
  | n, c :: cs => if c = q then max (n + 1) (longestRun q (n + 1) cs) else max n (longestRun q 0 cs)

/-- Four hexadecimal digits in capitals. -/
def hex4 (n : Nat) : List Char :=
  let digit (d : Nat) : Char := (Nat.digitChar (d % 16)).toUpper
  [digit (n / 4096), digit (n / 256), digit (n / 16), digit n]

/-- A text with escapes. At most `allowed` quotation marks in a row stand as they are, as does a
line feed if the text may have lines; `run` counts the quotation marks just before. -/
def escape (inLines : Bool) (allowed : Nat) : Nat → List Char → List Char
  | _, [] => []
  | run, c :: cs =>
    let next (written : List Char) : List Char := written ++ escape inLines allowed 0 cs
    match c with
    | '"' =>
      if run < allowed then '"' :: escape inLines allowed (run + 1) cs
      else '\\' :: '"' :: escape inLines allowed 0 cs
    | '\x08' => next ['\\', 'b']
    | '\t' => next ['\\', 't']
    | '\n' => next (if inLines then ['\n'] else ['\\', 'n'])
    | '\x0c' => next ['\\', 'f']
    | '\r' => next ['\\', 'r']
    | '\\' => next ['\\', '\\']
    | _ => next (if needsEscape c then '\\' :: 'u' :: hex4 c.toNat else [c])

/-- A text as a value. -/
def quote (s : String) : String :=
  let cs := s.toList
  let hasLines := cs.contains '\n'
  let hasControls := cs.any needsEscape
  let hasBackslash := cs.contains '\\'
  let marks := longestRun '"' 0 cs
  let apostrophes := longestRun '\'' 0 cs
  let lineStart := if hasLines then "\n" else ""
  let basic := "\"" ++ String.ofList (escape false 0 0 cs) ++ "\""
  let basicLines := "\"\"\"" ++ lineStart ++ String.ofList (escape true 2 0 cs) ++ "\"\"\""
  if !hasControls && !hasBackslash && marks = 0 && !hasLines then basic
  else if !hasControls && apostrophes = 0 && !hasLines then "'" ++ s ++ "'"
  else if !hasControls && !hasBackslash && marks ≤ 2 then basicLines
  else if !hasControls && apostrophes ≤ 2 then "'''" ++ lineStart ++ s ++ "'''"
  else if hasLines then basicLines
  else basic

/-! ## Tables -/

/-- Texts as a value. -/
def array (elements : List String) : String :=
  match elements with
  | [] => "[]"
  | [e] => "[" ++ quote e ++ "]"
  | es => "[\n" ++ String.join (es.map fun e => "    " ++ quote e ++ ",\n") ++ "]"

/-- A truth value. -/
def boolean (b : Bool) : String := if b then "true" else "false"

/-- A table with its name and its entries, whose values are written. -/
def tableText (name : String) (entries : List (String × String)) : String :=
  "[" ++ name ++ "]\n" ++ String.join (entries.map fun (k, v) => k ++ " = " ++ v ++ "\n")

end PhpCalls.Toml

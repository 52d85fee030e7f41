import PhpCalls.Json.Basic

set_option autoImplicit false

/-!
# Writing JSON

Two layouts. The compact one has no blanks. The pretty one puts every element and every member on
a line of its own, two spaces deeper than its container, and one space after a colon; an empty
container stays on one line. Characters outside ASCII are written as they are.

## Main definitions

* `Json.quote`: a text in quotes.
* `Json.compact`, `Json.pretty`: the two layouts.
-/

namespace PhpCalls.Json

/-- The two hexadecimal digits of a number below 256. -/
def hexPair (n : Nat) : List Char := [Nat.digitChar (n / 16), Nat.digitChar (n % 16)]

/-- How a character is written inside quotes: the quote, the backslash and the control characters
are escaped. -/
def escape (c : Char) : List Char :=
  if c = '"' then ['\\', '"']
  else if c = '\\' then ['\\', '\\']
  else if c = '\n' then ['\\', 'n']
  else if c = '\r' then ['\\', 'r']
  else if c = '\t' then ['\\', 't']
  else if c = '\x08' then ['\\', 'b']
  else if c = '\x0c' then ['\\', 'f']
  else if c.toNat < 0x20 then '\\' :: 'u' :: '0' :: '0' :: hexPair c.toNat
  else [c]

/-- A text in quotes. -/
def quote (s : String) : List Char := '"' :: (s.toList.flatMap escape ++ ['"'])

/-- A line break followed by the blanks of the given depth. -/
def newline (depth : Nat) : List Char := '\n' :: List.replicate (2 * depth) ' '

/-- The layout of containers: what stands after an opening bracket or a comma, what before a
closing one, and what after a colon. -/
structure Layout where
  inner : Nat → List Char
  outer : Nat → List Char
  colon : List Char

/-- No blanks. -/
def Layout.compact : Layout := ⟨fun _ => [], fun _ => [], [':']⟩

/-- A line for every element and member. -/
def Layout.pretty : Layout := ⟨fun d => newline (d + 1), newline, [':', ' ']⟩

mutual

/-- Writes a value that stands at the given depth. -/
def render (l : Layout) (depth : Nat) : Json → List Char
  | .null => ['n', 'u', 'l', 'l']
  | .bool true => ['t', 'r', 'u', 'e']
  | .bool false => ['f', 'a', 'l', 's', 'e']
  | .nat n => Nat.toDigits 10 n
  | .str s => quote s
  | .arr [] => ['[', ']']
  | .arr (e :: es) =>
    '[' :: (l.inner depth ++ render l (depth + 1) e ++ renderElements l depth es ++
      (l.outer depth ++ [']']))
  | .obj [] => ['{', '}']
  | .obj (m :: ms) =>
    '{' :: (l.inner depth ++ renderMember l depth m ++ renderMembers l depth ms ++
      (l.outer depth ++ ['}']))
  | .other => ['n', 'u', 'l', 'l']

/-- Writes the elements after the first of an array. -/
def renderElements (l : Layout) (depth : Nat) : List Json → List Char
  | [] => []
  | e :: es =>
    ',' :: (l.inner depth ++ render l (depth + 1) e ++ renderElements l depth es)

/-- Writes a member of an object. -/
def renderMember (l : Layout) (depth : Nat) : String × Json → List Char
  | (key, value) => quote key ++ l.colon ++ render l (depth + 1) value

/-- Writes the members after the first of an object. -/
def renderMembers (l : Layout) (depth : Nat) : List (String × Json) → List Char
  | [] => []
  | m :: ms => ',' :: (l.inner depth ++ renderMember l depth m ++ renderMembers l depth ms)

end

/-- The value without blanks. -/
def compact (j : Json) : String := String.ofList (render Layout.compact 0 j)

/-- The value with a line for every element and member. -/
def pretty (j : Json) : String := String.ofList (render Layout.pretty 0 j)

/-- The value in the layout that `pretty` chooses. -/
def write (inLines : Bool) (j : Json) : String := if inLines then pretty j else compact j

end PhpCalls.Json

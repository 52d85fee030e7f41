set_option autoImplicit false

/-!
# Texts: case, blanks, search and replacement

Small functions on texts that every other part of the library shares. They are written on
lists of characters, by recursion on the list, and lifted to `String` where callers want that.

## Main definitions

* `Text.foldCase`, `Text.sameFold`: ASCII letters compared without their case.
* `Text.isBlank`, `Text.trim`: the characters with the Unicode property `White_Space`, and
  removing them at both ends.
* `Text.contains`, `Text.replace`, `Text.count`, `Text.afterLast`: search for a pattern.
-/

namespace PhpCalls.Text

/-! ## Letter case -/

/-- The text with its ASCII capitals made small; every other character stays. -/
def foldCase (s : String) : String :=
  String.ofList (s.toList.map Char.toLower)

/-- Equality up to the case of ASCII letters. -/
def sameFold (s t : String) : Bool :=
  foldCase s == foldCase t

/-! ## Blanks -/

/-- The characters with the Unicode property `White_Space`. -/
def isBlank (c : Char) : Bool :=
  let n := c.toNat
  (9 ≤ n && n ≤ 13) || n == 0x20 || n == 0x85 || n == 0xA0 || n == 0x1680 ||
    (0x2000 ≤ n && n ≤ 0x200A) || n == 0x2028 || n == 0x2029 || n == 0x202F || n == 0x205F ||
    n == 0x3000

/-- Drops the characters that satisfy `p` at the end of a list. -/
def dropEndWhile (p : Char → Bool) (cs : List Char) : List Char :=
  (cs.reverse.dropWhile p).reverse

/-- Drops the characters that satisfy `p` at both ends of a list. -/
def dropAround (p : Char → Bool) (cs : List Char) : List Char :=
  dropEndWhile p (cs.dropWhile p)

/-- The text without blanks at its ends. -/
def trim (s : String) : String :=
  String.ofList (dropAround isBlank s.toList)

/-- The text without the characters of `p` at its start. -/
def trimStart (p : Char → Bool) (s : String) : String :=
  String.ofList (s.toList.dropWhile p)

/-- The text without the characters of `p` at its ends. -/
def trimBoth (p : Char → Bool) (s : String) : String :=
  String.ofList (dropAround p s.toList)

/-! ## Search

A pattern is a list of characters. Occurrences are found from left to right and do not overlap,
unless said otherwise; an empty pattern is never searched for. -/

/-- Whether `pattern` stands somewhere in the list. -/
def occurs (pattern : List Char) : List Char → Bool
  | [] => pattern.isEmpty
  | c :: cs => pattern.isPrefixOf (c :: cs) || occurs pattern cs

/-- Whether the text `part` stands somewhere in the text `s`. -/
def contains (s part : String) : Bool :=
  occurs part.toList s.toList

/-- Replaces the occurrences of `pattern`; the number counts characters of the last occurrence
still to be passed over. -/
def replaceFrom (pattern by_ : List Char) : Nat → List Char → List Char
  | _, [] => []
  | n + 1, _ :: cs => replaceFrom pattern by_ n cs
  | 0, c :: cs =>
    if pattern.isPrefixOf (c :: cs) then by_ ++ replaceFrom pattern by_ (pattern.length - 1) cs
    else c :: replaceFrom pattern by_ 0 cs

/-- The text with every occurrence of `pattern` replaced. -/
def replace (s pattern by_ : String) : String :=
  String.ofList (replaceFrom pattern.toList by_.toList 0 s.toList)

/-- Counts the occurrences of `pattern`; the number is as in `replaceFrom`. -/
def countFrom (pattern : List Char) : Nat → List Char → Nat
  | _, [] => 0
  | n + 1, _ :: cs => countFrom pattern n cs
  | 0, c :: cs =>
    if pattern.isPrefixOf (c :: cs) then countFrom pattern (pattern.length - 1) cs + 1
    else countFrom pattern 0 cs

/-- The number of occurrences of `pattern` in the text. -/
def count (s pattern : String) : Nat :=
  countFrom pattern.toList 0 s.toList

/-- What follows the rightmost occurrence of `pattern`. -/
def afterLast (pattern : List Char) : List Char → Option (List Char)
  | [] => none
  | c :: cs =>
    match afterLast pattern cs with
    | some tail => some tail
    | none =>
      if pattern.isPrefixOf (c :: cs) then some ((c :: cs).drop pattern.length) else none

/-- The text with every backslash made a slash. -/
def slashed (s : String) : String :=
  String.ofList (s.toList.map fun c => if c = '\\' then '/' else c)

/-- The pieces of the text between the characters `c`. -/
def splitAt (c : Char) (s : String) : List String :=
  (s.toList.splitOnP (· == c)).map String.ofList

/-- The texts joined, with `separator` between neighbours. -/
def joinWith (separator : String) (parts : List String) : String :=
  separator.intercalate parts

/-- A decimal numeral of ASCII digits, without a sign. -/
def digits? (cs : List Char) : Option Nat :=
  if cs.isEmpty then none
  else cs.foldlM (fun n c => if c.isDigit then some (n * 10 + (c.toNat - 48)) else none) 0

end PhpCalls.Text

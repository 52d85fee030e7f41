import PhpCalls.Syntax.Token

set_option autoImplicit false

/-!
# Parsing fragments

A parser takes tokens from the front of a list, or fails and takes none. Rules of the grammar are
written as rows of parts; a node is closed around the fragment that its parts give.

## Main definitions

* `Parse`: a parser.
* `Parse.row`, `Parse.node`, `Parse.role`: parts after one another, the parts of a node, a part in a
  role.
* `Parse.optional`, `Parse.repeated`, `Parse.until`, `Parse.separated`: parts that may be missing or
  come several times.
* `Rules`: the two rules of the grammar that everything else leads back to.
-/

namespace PhpCalls.Syntax

/-- A parser of tokens. -/
abbrev Parse := StateT (List Token) Option

namespace Parse

/-! ## Looking ahead -/

/-- The tokens to come. -/
def ahead : Parse (List Token) := get

/-- The next token satisfies `p`. -/
def sees (p : Token → Bool) : Parse Bool := do return (← ahead).head?.any p

/-- The next token is the mark `m`. -/
def seesMark (m : String) : Parse Bool := sees (Token.isMark m)

/-- The next token is one of the marks `ms`. -/
def seesMarkOf (ms : List String) : Parse Bool :=
  sees fun t => t.sort = some .mark && ms.contains t.text

/-- The next token is the word `w`. -/
def seesWord (w : String) : Parse Bool := sees (Token.isWord w)

/-- The token after the next one satisfies `p`. -/
def seesSecond (p : Token → Bool) : Parse Bool := do return (← ahead)[1]?.any p

/-- The next token goes on with the expression that is being read: no closing tag is between. -/
def sameStatement : Parse Bool := do return !((← ahead).head?.any Token.afterClosingTag)

/-! ## Taking tokens -/

/-- Takes the next token as a leaf of the kind `k` if it satisfies `p`. -/
def leafIf (k : Kind) (p : Token → Bool) : Parse Fragment := do
  match ← ahead with
  | t :: rest =>
    if p t && !t.isEnd then
      set rest
      return t.leaf k
    else failure
  | [] => failure

/-- Takes any token. -/
def anyToken : Parse Fragment := leafIf .token fun _ => true

/-- Takes the mark `m`. -/
def mark (m : String) : Parse Fragment := leafIf .token (Token.isMark m)

/-- Takes the mark `m` as a leaf of the kind `k`. -/
def markAs (k : Kind) (m : String) : Parse Fragment := leafIf k (Token.isMark m)

/-- Takes the keyword `w`. -/
def word (w : String) : Parse Fragment := leafIf .token (Token.isWord w)

/-- Takes the keyword `w` as a leaf of the kind `k`. -/
def wordAs (k : Kind) (w : String) : Parse Fragment := leafIf k (Token.isWord w)

/-- Takes a word as a name. -/
def name : Parse Fragment := leafIf .name fun t => t.sort = some .word

/-- Takes a token of one sort as a leaf of the kind `k`. -/
def ofSort (k : Kind) (s : LexemeSort) : Parse Fragment := leafIf k fun t => t.sort = some s

/-! ## Parts of a rule -/

/-- One part after the other. -/
def row : List (Parse Fragment) → Parse Fragment
  | [] => pure []
  | p :: ps => do
    let first ← p
    let rest ← row ps
    return first ++ rest

/-- A node with these parts. -/
def node (k : Kind) (parts : List (Parse Fragment)) : Parse Fragment := do
  return (← row parts).close k

/-- A part in a role. -/
def role (r : Role) (p : Parse Fragment) : Parse Fragment := do
  return (← p).inRole r

/-- Nothing. -/
def nothing : Parse Fragment := pure []

/-- A part that may be missing. -/
def optional (p : Parse Fragment) : Parse Fragment := p <|> nothing

/-- A part that is there exactly if the next token is the mark `m`. -/
def ifMark (m : String) (p : Parse Fragment) : Parse Fragment := do
  if ← seesMark m then p else nothing

/-- A part that is there exactly if the next token is the word `w`. -/
def ifWord (w : String) (p : Parse Fragment) : Parse Fragment := do
  if ← seesWord w then p else nothing

/-- At most `n` times the part, as long as it does not fail. -/
def upTo (p : Parse Fragment) : Nat → Parse Fragment
  | 0 => nothing
  | n + 1 => (do let first ← p; return first ++ (← upTo p n)) <|> nothing

/-- The part as often as it does not fail. -/
def repeated (p : Parse Fragment) : Parse Fragment := do upTo p (← ahead).length

/-- At most `n` times the part, up to a token that satisfies `stop`. A token with which the part
cannot begin stands alone. -/
def untilWithin (stop : Token → Bool) (p : Parse Fragment) : Nat → Parse Fragment
  | 0 => nothing
  | n + 1 => do
    if ← sees fun t => stop t || t.isEnd then nothing
    else
      let first ← p <|> anyToken
      return first ++ (← untilWithin stop p n)

/-- The part as often as it comes before a token that satisfies `stop`. -/
def until_ (stop : Token → Bool) (p : Parse Fragment) : Parse Fragment := do
  untilWithin stop p (← ahead).length

/-- At most `n` items with commas between them, up to the mark `closer`. -/
def separatedWithin (closer : String) (item : Parse Fragment) : Nat → Parse Fragment
  | 0 => nothing
  | n + 1 => do
    if ← seesMark closer then nothing
    else
      let first ← item
      if ← seesMark "," then
        let comma ← mark ","
        return first ++ comma ++ (← separatedWithin closer item n)
      else return first

/-- Items with commas between them, up to the mark `closer`; a comma may stand after the last. -/
def separated (closer : String) (item : Parse Fragment) : Parse Fragment := do
  separatedWithin closer item (← ahead).length

/-- One item, then others with the mark `m` before each. -/
def joined (m : String) (item : Parse Fragment) : Parse Fragment :=
  row [item, repeated (row [mark m, item])]

/-- One item or more, with commas between them. -/
def commaList (item : Parse Fragment) : Parse Fragment := joined "," item

/-- A semicolon, or nothing where the code ends anyway: before a closing tag and at the end of the
page. -/
def semicolon : Parse Fragment := do
  if ← seesMark ";" then mark ";"
  else if ← sees fun t => t.isEnd || t.afterClosingTag then nothing
  else failure

end Parse

/-- The rules that the grammar leads back to: expressions whose operators bind at least as tightly
as a given level, and statements. -/
structure Rules where
  /-- An expression whose operators bind at least as tightly as a level. -/
  expression : Nat → Parse Fragment
  /-- A statement. -/
  statement : Parse Fragment

end PhpCalls.Syntax

import PhpCalls.Syntax.Lexeme
import PhpCalls.Syntax.Tree

set_option autoImplicit false

/-!
# Tokens and fragments

The lexemes that carry syntax, with the lines they stand on and what stands before them, and the
pieces of syntax trees that are put together from them.

## Main definitions

* `Piece`: a node with the blanks before it; a `Fragment` is a row of pieces.
* `Token`: a lexeme that carries syntax, with the comments before it.
* `Token.ofSource`: the tokens of a page.
* `Fragment.close`: a row of pieces as the parts of one node.

Comments that stand before the first token of a construct, and those after its last token, belong to
what is around it.
-/

namespace PhpCalls.Syntax

/-- A node with the blanks before it. -/
structure Piece where
  gap : String
  node : Node
  deriving Repr

/-- Neighbouring pieces of a page. -/
abbrev Fragment := List Piece

/-- A lexeme that carries syntax. -/
structure Token where
  /-- What the lexeme is; nothing at the end of the page. -/
  sort : Option LexemeSort
  /-- The text of the lexeme. -/
  text : String
  /-- The text with small letters, by which keywords are known. -/
  folded : String
  /-- The line on which the lexeme begins. -/
  startLine : Nat
  /-- The line on which the lexeme ends. -/
  endLine : Nat
  /-- The blanks before the lexeme. -/
  gap : String
  /-- The comments and interludes before the lexeme. -/
  extras : Fragment
  deriving Repr

namespace Token

/-- The number of line feeds in a text. -/
def lineFeeds (cs : List Char) : Nat := cs.count '\n'

/-- The tokens of lexemes, given the line reached, the blanks and the extras since the last
token. -/
def locate (line : Nat) (gap : String) (extras : Fragment) : List Lexeme → List Token
  | [] => [⟨none, "", "", line, line, gap, extras.reverse⟩]
  | l :: ls =>
    let next := line + lineFeeds l.text
    let text := String.ofList l.text
    let extra (k : Kind) : List Token :=
      locate next "" (⟨gap, .mk none k text line next []⟩ :: extras) ls
    match l.sort with
    | .blank => locate next (gap ++ text) extras ls
    | .comment => extra .comment
    | .interlude => extra .interlude
    | sort =>
      ⟨some sort, text, String.ofList (l.text.map Char.toLower), line, next, gap, extras.reverse⟩
        :: locate next "" [] ls

/-- The tokens of a page. The last one marks the end. -/
def ofSource (source : String) : List Token := locate 1 "" [] (Lexeme.scan source)

/-- The token is the word `w`, in small or capital letters. -/
def isWord (w : String) (t : Token) : Bool := t.sort = some .word && t.folded = w

/-- The token is the mark `m`. -/
def isMark (m : String) (t : Token) : Bool := t.sort = some .mark && t.text = m

/-- The end of the page. -/
def isEnd (t : Token) : Bool := t.sort = none

/-- A closing tag stands before the token. -/
def afterClosingTag (t : Token) : Bool := t.extras.any fun p => p.node.kind = .interlude

/-- The token as a leaf, with the extras before it. -/
def leaf (k : Kind) (t : Token) : Fragment :=
  t.extras ++ [⟨t.gap, .mk none k t.text t.startLine t.endLine []⟩]

end Token

namespace Fragment

/-- The text of pieces, with the blanks between them. -/
def text : Fragment → String
  | [] => ""
  | p :: ps => ps.foldl (fun s q => s ++ q.gap ++ q.node.text) p.node.text

/-- The pieces as the parts of one node. Extras before the first part stay outside. -/
def close (k : Kind) (f : Fragment) : Fragment :=
  let lead := f.takeWhile fun p => p.node.kind.isExtra
  let parts := f.drop lead.length
  match parts with
  | [] => f
  | p :: ps =>
    let last := (ps.getLast?.getD p).node
    lead ++ [⟨p.gap, .mk none k (text parts) p.node.startLine last.endLine
      (parts.map Piece.node)⟩]

/-- The pieces, all but the extras in a role. -/
def inRole (r : Role) (f : Fragment) : Fragment :=
  f.map fun p => if p.node.kind.isExtra then p else ⟨p.gap, p.node.inRole r⟩

/-- The kind of the first piece that is not an extra. -/
def kind? (f : Fragment) : Option Kind :=
  (f.find? fun p => !p.node.kind.isExtra).map fun p => p.node.kind

end Fragment

end PhpCalls.Syntax

import PhpCalls.Syntax.Statements

set_option autoImplicit false

/-!
# Syntax trees of pages

## Main definitions

* `Rules.ofDepth`: the rules of the grammar, for constructs nested up to a depth.
* `Node.ofSource`: the syntax tree of a page.

Every construct inside another one begins at least one token later, so the number of tokens bounds
the depth.

The grammar is that of pages without errors. A page that breaks it is read as well, but no missing
mark is supplied: a token with which nothing can begin stands alone, and reading goes on behind it.
-/

namespace PhpCalls.Syntax

/-- The rules of the grammar, for constructs nested up to a depth. -/
def Rules.ofDepth : Nat → Rules
  | 0 => ⟨fun _ => failure, failure⟩
  | n + 1 =>
    let r := Rules.ofDepth n
    ⟨Grammar.expression r, Grammar.statement r⟩

/-- The statements of all tokens, and the extras before the end. -/
def Fragment.ofTokens (ts : List Token) : Fragment :=
  let r := Rules.ofDepth (ts.length + 1)
  match (Parse.until_ (fun _ => false) r.statement).run ts with
  | some (f, rest) => f ++ ((rest.head?.map Token.extras).getD [])
  | none => []

/-- The syntax tree of a page. Its root covers all lines of the page. -/
def Node.ofSource (source : String) : Node :=
  let f := Fragment.ofTokens (Token.ofSource source)
  .mk none .program source 1 (source.toList.count '\n' + 1) (f.map Piece.node)

end PhpCalls.Syntax

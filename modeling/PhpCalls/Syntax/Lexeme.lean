set_option autoImplicit false

/-!
# Lexemes of a PHP page

A page is cut into lexemes without losing a character: blanks, comments, words, marks, literals, and
the pieces of texts with variables in them. Outside code everything up to an opening tag is one
lexeme. Inside a text between double quotes, between backquotes or after `<<<`, the lexemes are
stretches of plain text and, after `$` or a brace, lexemes of code.

## Main definitions

* `Lexeme`: a piece of the page and its sort.
* `Lexeme.scan`: the lexemes of a page.

Scanning keeps a stack of what it is inside of, and takes at most as many steps as the page has
characters.
-/

namespace PhpCalls.Syntax

/-- What a lexeme is. -/
inductive LexemeSort where
  | blank
  | comment
  /-- From a closing tag up to and with the next opening tag. -/
  | interlude
  | html
  | openTag
  | word
  | mark
  | integer
  | float
  | string
  | nowdoc
  /-- The beginning of a text with variables in it. -/
  | textOpen
  | textContent
  | textClose
  deriving DecidableEq, Repr

/-- A piece of a page. -/
structure Lexeme where
  sort : LexemeSort
  text : List Char
  deriving DecidableEq, Repr

namespace Lexeme

/-! ## Classes of characters -/

/-- The blanks beyond ASCII: the no-break space, the zero-width space, the word joiner and the byte
order mark. -/
def isWideBlank (c : Char) : Bool := [0xa0, 0x200b, 0x2060, 0xfeff].contains c.toNat

/-- Blanks between the tokens of code. -/
def isBlank (c : Char) : Bool :=
  c = ' ' || c = '\t' || c = '\n' || c = '\r' || c = '\x0b' || c = '\x0c' || isWideBlank c

/-- Characters that a name may begin with: letters, `_`, and from U+0080 to U+FFFF all but
blanks. -/
def isNameStart (c : Char) : Bool :=
  c.isAlpha || c = '_' || 0x80 ≤ c.toNat && c.toNat ≤ 0xffff && !isWideBlank c

/-- Characters that a name may hold. -/
def isNameChar (c : Char) : Bool := isNameStart c || c.isDigit

/-! ## Numerals -/

/-- Passes over a point and digits and over an exponent; says whether there was one of them. -/
def fractional (cs : List Char) : List Char × List Char :=
  let digit (c : Char) : Bool := c.isDigit || c = '_'
  let (point, rest) :=
    match cs with
    | '.' :: ds => ('.' :: ds.takeWhile digit, ds.dropWhile digit)
    | _ => ([], cs)
  let exponent (mark : Char) (ds : List Char) : List Char × List Char :=
    let (sign, ds) :=
      match ds with
      | '+' :: r => (['+'], r)
      | '-' :: r => (['-'], r)
      | r => ([], r)
    if (ds.takeWhile digit).isEmpty then (point, rest)
    else (point ++ mark :: sign ++ ds.takeWhile digit, ds.dropWhile digit)
  match rest with
  | 'e' :: ds => exponent 'e' ds
  | 'E' :: ds => exponent 'E' ds
  | _ => (point, rest)

/-- A numeral. It is a float if it has a point or an exponent; after `0x`, `0b` or `0o` it has
neither. -/
def numeral (cs : List Char) : Lexeme × List Char :=
  let based (mark : Char) (ds : List Char) : Lexeme × List Char :=
    let digit (c : Char) : Bool := c.isAlphanum || c = '_'
    (⟨.integer, '0' :: mark :: ds.takeWhile digit⟩, ds.dropWhile digit)
  let decimal : Lexeme × List Char :=
    let digit (c : Char) : Bool := c.isDigit || c = '_'
    let whole := cs.takeWhile digit
    let (tail, rest) := fractional (cs.dropWhile digit)
    (⟨if tail.isEmpty then .integer else .float, whole ++ tail⟩, rest)
  match cs with
  | '0' :: m :: ds =>
    if m = 'x' || m = 'X' || m = 'b' || m = 'B' || m = 'o' || m = 'O' then based m ds else decimal
  | _ => decimal

/-! ## Marks -/

/-- The marks of more than one character, longer ones before their beginnings. -/
def longMarks : List (List Char) :=
  ["===", "!==", "<=>", "**=", "...", "<<=", ">>=", "??=", "?->",
   "==", "!=", "<>", "<=", ">=", "&&", "||", "??", "->", "=>", "::", "++", "--",
   "+=", "-=", "*=", "/=", ".=", "%=", "&=", "|=", "^=", "<<", ">>", "**", "#["].map String.toList

/-- The longest mark, or a single character. -/
def mark (c : Char) (cs : List Char) : Lexeme × List Char :=
  match longMarks.find? fun m => m.isPrefixOf (c :: cs) with
  | some m => (⟨.mark, m⟩, (c :: cs).drop m.length)
  | none => (⟨.mark, [c]⟩, cs)

/-! ## Comments -/

/-- The rest of a comment to the end of the line. It stops before the end of the line and before a
closing tag; a question mark at the very end of the line takes the end of the line with it. -/
def lineComment : List Char → List Char × List Char
  | [] => ([], [])
  | '\n' :: rest => ([], '\n' :: rest)
  | '\r' :: rest => ([], '\r' :: rest)
  | '?' :: '>' :: rest => ([], '?' :: '>' :: rest)
  | '?' :: '\n' :: rest => (['?', '\n'], rest)
  | '?' :: '\r' :: '\n' :: rest => (['?', '\r', '\n'], rest)
  | '?' :: c :: rest =>
    let (taken, left) := lineComment rest
    ('?' :: c :: taken, left)
  | c :: rest =>
    let (taken, left) := lineComment rest
    (c :: taken, left)

/-- The rest of a comment between `/*` and `*/`. -/
def blockComment : List Char → List Char × List Char
  | [] => ([], [])
  | '*' :: '/' :: rest => (['*', '/'], rest)
  | c :: rest =>
    let (taken, left) := blockComment rest
    (c :: taken, left)

/-! ## Texts -/

/-- The rest of a text between single quotes. -/
def singleQuoted : List Char → List Char × List Char
  | [] => ([], [])
  | '\'' :: rest => (['\''], rest)
  | '\\' :: c :: rest =>
    let (taken, left) := singleQuoted rest
    ('\\' :: c :: taken, left)
  | c :: rest =>
    let (taken, left) := singleQuoted rest
    (c :: taken, left)

/-- The label and blanks at the beginning of a line, if the label closes a text there. -/
def closingLabel (label cs : List Char) : Option (List Char × List Char) :=
  let indent := cs.takeWhile fun c => c = ' ' || c = '\t'
  let rest := cs.drop indent.length
  if label.isPrefixOf rest && !((rest.drop label.length).headD ' ' |> isNameChar) then
    some (indent, rest.drop label.length)
  else none

/-- The lines up to the one that begins with the closing label. -/
def untilLabel (label : List Char) : List Char → List Char × List Char
  | [] => ([], [])
  | c :: rest =>
    if c = '\n' && (closingLabel label rest).isSome then ([c], rest)
    else
      let (taken, left) := untilLabel label rest
      (c :: taken, left)

/-- What ends a text with variables in it. -/
inductive Ending where
  | quote
  | backquote
  | label (name : List Char)
  deriving DecidableEq, Repr

/-- A variable or an expression begins here, or the text ends. -/
def interrupts (ending : Ending) (cs : List Char) : Bool :=
  match cs with
  | '$' :: c :: _ => isNameStart c || c = '{'
  | '{' :: '$' :: _ => true
  | '"' :: _ => ending = .quote
  | '`' :: _ => ending = .backquote
  | _ => false

/-- The rest of a line ends a text that is closed by a label. -/
def labelFollows (ending : Ending) (cs : List Char) : Bool :=
  match ending with
  | .label name => (closingLabel name cs).isSome
  | _ => false

/-- Plain text up to a variable, an expression or the end of the text. -/
def plainText (ending : Ending) : List Char → List Char × List Char
  | [] => ([], [])
  | '\\' :: c :: rest =>
    if c = '\n' then
      if labelFollows ending rest then (['\\', '\n'], rest)
      else
        let (taken, left) := plainText ending rest
        ('\\' :: '\n' :: taken, left)
    else
      let (taken, left) := plainText ending rest
      ('\\' :: c :: taken, left)
  | c :: rest =>
    if interrupts ending (c :: rest) then ([], c :: rest)
    else if c = '\n' && labelFollows ending rest then ([c], rest)
    else
      let (taken, left) := plainText ending rest
      (c :: taken, left)

/-- The opening of a text closed by a label, after `<<<`: the text of the opening, the label, and
whether the text is free of variables. -/
def labelOpening (cs : List Char) : Option (List Char × List Char × Bool) :=
  let blanks := cs.takeWhile fun c => c = ' ' || c = '\t'
  let rest := cs.drop blanks.length
  let quoted (q : Char) (after : List Char) : Option (List Char × List Char) :=
    let name := after.takeWhile isNameChar
    if name.isEmpty || (after.drop name.length).head? ≠ some q then none
    else some (blanks ++ q :: name ++ [q], name)
  match rest with
  | '"' :: after => (quoted '"' after).map fun r => (r.1, r.2, false)
  | '\'' :: after => (quoted '\'' after).map fun r => (r.1, r.2, true)
  | c :: _ =>
    if isNameStart c then
      let name := rest.takeWhile isNameChar
      some (blanks ++ name, name, false)
    else none
  | [] => none

/-! ## Scanning -/

/-- What a stretch of a page is inside of. -/
inductive Mode where
  /-- Outside code. -/
  | page
  /-- In code. -/
  | code
  /-- In code within a brace. -/
  | braced
  /-- In a text with variables. -/
  | text (ending : Ending)
  deriving DecidableEq, Repr

/-- The page up to an opening tag, and the tag. -/
def untilTag : List Char → List Char × List Char × List Char
  | [] => ([], [], [])
  | '<' :: '?' :: rest =>
    if (rest.take 3).map Char.toLower = ['p', 'h', 'p'] then
      ([], '<' :: '?' :: rest.take 3, rest.drop 3)
    else if rest.head? = some '=' then ([], ['<', '?', '='], rest.drop 1)
    else ([], ['<', '?'], rest)
  | c :: rest =>
    let (html, tag, left) := untilTag rest
    (c :: html, tag, left)

/-- Lexemes, the modes they lead to, and the rest of the page. -/
structure Step where
  lexemes : List Lexeme
  modes : List Mode
  rest : List Char

/-- The lexemes of the index in a subscript between the quotes of a text: a name, an integer with or
without a sign, or a variable, up to the closing bracket. -/
def simpleIndex (cs : List Char) : Option (List Lexeme × List Char) :=
  let closed (index : List Lexeme) (rest : List Char) : Option (List Lexeme × List Char) :=
    match rest with
    | ']' :: left => some (⟨.mark, ['[']⟩ :: index ++ [⟨.mark, [']']⟩], left)
    | _ => none
  match cs with
  | '$' :: c :: _ =>
    if isNameStart c then
      let name := (cs.drop 1).takeWhile isNameChar
      closed [⟨.mark, ['$']⟩, ⟨.word, name⟩] (cs.drop (1 + name.length))
    else none
  | '-' :: c :: _ =>
    if c.isDigit then
      let digits := (cs.drop 1).takeWhile Char.isAlphanum
      closed [⟨.mark, ['-']⟩, ⟨.integer, digits⟩] (cs.drop (1 + digits.length))
    else none
  | c :: _ =>
    if c.isDigit then
      let digits := cs.takeWhile Char.isAlphanum
      closed [⟨.integer, digits⟩] (cs.drop digits.length)
    else if isNameStart c then
      let name := cs.takeWhile isNameChar
      closed [⟨.word, name⟩] (cs.drop name.length)
    else none
  | [] => none

/-- What may follow a variable between the quotes of a text: one subscript, or one property. -/
def simpleTail (cs : List Char) : List Lexeme × List Char :=
  match cs with
  | '[' :: rest => (simpleIndex rest).getD ([], cs)
  | '-' :: '>' :: c :: rest =>
    if isNameStart c then
      let name := (c :: rest).takeWhile isNameChar
      ([⟨.mark, ['-', '>']⟩, ⟨.word, name⟩], (c :: rest).drop name.length)
    else ([], cs)
  | '?' :: '-' :: '>' :: c :: rest =>
    if isNameStart c then
      let name := (c :: rest).takeWhile isNameChar
      ([⟨.mark, ['?', '-', '>']⟩, ⟨.word, name⟩], (c :: rest).drop name.length)
    else ([], cs)
  | _ => ([], cs)

/-- One step inside a text with variables. -/
def stepText (ending : Ending) (modes : List Mode) (cs : List Char) : Step :=
  match cs, ending with
  | '"' :: rest, .quote => ⟨[⟨.textClose, ['"']⟩], modes.tail, rest⟩
  | '`' :: rest, .backquote => ⟨[⟨.textClose, ['`']⟩], modes.tail, rest⟩
  | '{' :: '$' :: rest, _ => ⟨[⟨.mark, ['{']⟩], .braced :: modes, '$' :: rest⟩
  | '$' :: '{' :: rest, _ => ⟨[⟨.mark, ['$']⟩, ⟨.mark, ['{']⟩], .braced :: modes, rest⟩
  | '$' :: c :: rest, _ =>
    if isNameStart c then
      let name := (c :: rest).takeWhile isNameChar
      let (tail, left) := simpleTail ((c :: rest).drop name.length)
      ⟨⟨.mark, ['$']⟩ :: ⟨.word, name⟩ :: tail, modes, left⟩
    else
      let (taken, left) := plainText ending (c :: rest)
      ⟨[⟨.textContent, '$' :: taken⟩], modes, left⟩
  | _, .label name =>
    let (taken, left) := plainText ending cs
    match if taken.getLast? = some '\n' then closingLabel name left else none with
    | some (indent, after) =>
      ⟨[⟨.textContent, taken ++ indent⟩, ⟨.textClose, name⟩], modes.tail, after⟩
    | none => ⟨[⟨.textContent, taken⟩], modes, left⟩
  | _, _ =>
    let (taken, left) := plainText ending cs
    ⟨[⟨.textContent, taken⟩], modes, left⟩

/-- A text closed by a label, or the mark `<<`. -/
def stepAngles (modes : List Mode) (rest : List Char) : Step :=
  let open_ := ['<', '<', '<']
  match labelOpening rest with
  | some (opening, name, true) =>
    let (taken, left) := untilLabel name (rest.drop opening.length)
    let indent := left.takeWhile fun c => c = ' ' || c = '\t'
    ⟨[⟨.nowdoc, open_ ++ opening ++ taken ++ indent ++ (left.drop indent.length).take name.length⟩],
      modes, left.drop (indent.length + name.length)⟩
  | some (opening, name, false) =>
    ⟨[⟨.textOpen, open_ ++ opening⟩], .text (.label name) :: modes, rest.drop opening.length⟩
  | none => ⟨[⟨.mark, ['<', '<']⟩], modes, '<' :: rest⟩

/-- One step inside code. -/
def stepCode (modes : List Mode) (cs : List Char) : Step :=
  let comment (opening : List Char) (body : List Char × List Char) : Step :=
    ⟨[⟨.comment, opening ++ body.1⟩], modes, body.2⟩
  let string (opening rest : List Char) : Step :=
    let (taken, left) := singleQuoted rest
    ⟨[⟨.string, opening ++ taken⟩], modes, left⟩
  let ofLexeme (l : Lexeme × List Char) : Step := ⟨[l.1], modes, l.2⟩
  match cs with
  | [] => ⟨[], modes, []⟩
  | '?' :: '>' :: rest =>
    let (html, tag, left) := untilTag rest
    ⟨[⟨.interlude, '?' :: '>' :: html ++ tag⟩], modes, left⟩
  | '/' :: '/' :: rest => comment ['/', '/'] (lineComment rest)
  | '/' :: '*' :: rest => comment ['/', '*'] (blockComment rest)
  | '#' :: '[' :: rest => ⟨[⟨.mark, ['#', '[']⟩], modes, rest⟩
  | '#' :: '?' :: rest => comment ['#'] ([], '?' :: rest)
  | '#' :: rest => comment ['#'] (lineComment rest)
  | '\'' :: rest => string ['\''] rest
  | 'b' :: '\'' :: rest => string ['b', '\''] rest
  | 'B' :: '\'' :: rest => string ['B', '\''] rest
  | '"' :: rest => ⟨[⟨.textOpen, ['"']⟩], .text .quote :: modes, rest⟩
  | 'b' :: '"' :: rest => ⟨[⟨.textOpen, ['b', '"']⟩], .text .quote :: modes, rest⟩
  | 'B' :: '"' :: rest => ⟨[⟨.textOpen, ['B', '"']⟩], .text .quote :: modes, rest⟩
  | '`' :: rest => ⟨[⟨.textOpen, ['`']⟩], .text .backquote :: modes, rest⟩
  | '<' :: '<' :: '<' :: rest => stepAngles modes rest
  | '{' :: rest => ⟨[⟨.mark, ['{']⟩], .braced :: modes, rest⟩
  | '}' :: rest =>
    ⟨[⟨.mark, ['}']⟩], if modes.head? = some .braced then modes.tail else modes, rest⟩
  | '.' :: c :: rest =>
    if c.isDigit then ofLexeme (numeral cs) else ofLexeme (mark '.' (c :: rest))
  | c :: rest =>
    if isBlank c then ⟨[⟨.blank, cs.takeWhile isBlank⟩], modes, cs.dropWhile isBlank⟩
    else if isNameStart c then ⟨[⟨.word, cs.takeWhile isNameChar⟩], modes, cs.dropWhile isNameChar⟩
    else if c.isDigit then ofLexeme (numeral cs)
    else ofLexeme (mark c rest)

/-- One step outside code. -/
def stepPage (modes : List Mode) (cs : List Char) : Step :=
  let (html, tag, left) := untilTag cs
  let page : List Lexeme := if html.isEmpty then [] else [⟨.html, html⟩]
  if tag.isEmpty then ⟨page, modes, left⟩ else ⟨page ++ [⟨.openTag, tag⟩], .code :: modes, left⟩

/-- One step of scanning. -/
def step (modes : List Mode) (cs : List Char) : Step :=
  match modes with
  | .text ending :: _ => stepText ending modes cs
  | .code :: _ => stepCode modes cs
  | .braced :: _ => stepCode modes cs
  | .page :: _ => stepPage modes cs
  | [] => stepPage modes cs

/-- The lexemes found in at most `fuel` steps. -/
def scanFrom : Nat → List Mode → List Char → List Lexeme
  | _, _, [] => []
  | 0, _, cs => [⟨.html, cs⟩]
  | fuel + 1, modes, cs =>
    let s := step modes cs
    s.lexemes.filter (fun l => !l.text.isEmpty) ++ scanFrom fuel s.modes s.rest

/-- The lexemes of a page. -/
def scan (source : String) : List Lexeme :=
  scanFrom (source.length + 1) [.page] source.toList

end Lexeme

end PhpCalls.Syntax

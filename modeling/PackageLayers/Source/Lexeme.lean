/-
Purpose: Cutting source text into code, comments and string literals.
Main exports: CharClass, Delimiter, Mode, Lexeme, lexemes, Literal, literalsOf
-/

namespace PackageLayers.Source

/-!
A manifest is never evaluated.  All that its readers need to know of a character
is whether it is code, part of a comment, or part of a string literal.

* Line comments run to the end of the line and leave the line break code.
* Block comments nest.
* A string literal opens with any number of number signs and one or three quotes
  and closes with as many quotes followed by as many number signs.  With one
  quote it also ends, unclosed, before a line break, so one bad line does not
  take the rest of the text with it.  A backslash protects the next character of
  a literal without number signs.

`step` says what the next lexeme is; it looks ahead but never back.  `lexemes`
is recursive on the text, and the texts of the lexemes in order are the text.
-/

/-- What a character is part of.  Quotes and comment marks belong to what they
delimit. -/
inductive CharClass where
  | code
  | comment
  | literal
deriving Repr, Inhabited, DecidableEq

/-- How a string literal is quoted. -/
structure Delimiter where
  multiline : Bool
  hashes : Nat
deriving Repr, Inhabited, DecidableEq

namespace Delimiter

/-- The number of quotes on either side. -/
def quotes (delimiter : Delimiter) : Nat :=
  if delimiter.multiline then 3 else 1

/-- The text that opens the literal. -/
def opener (delimiter : Delimiter) : List Char :=
  List.replicate delimiter.hashes '#' ++ List.replicate delimiter.quotes '"'

/-- The text that closes the literal. -/
def closer (delimiter : Delimiter) : List Char :=
  List.replicate delimiter.quotes '"' ++ List.replicate delimiter.hashes '#'

/-- The length of the opening and of the closing text. -/
def width (delimiter : Delimiter) : Nat :=
  delimiter.quotes + delimiter.hashes

/-- The delimiter that a text opens with: number signs, then three quotes or
one. -/
def ofOpening? (chars : List Char) : Option Delimiter :=
  let hashes := (chars.takeWhile (· == '#')).length
  let after := chars.dropWhile (· == '#')
  if ['"', '"', '"'].isPrefixOf after then some ⟨true, hashes⟩
  else if ['"'].isPrefixOf after then some ⟨false, hashes⟩
  else none

end Delimiter

/-- What the text is inside of between two lexemes.  A block comment counts the
comments around it. -/
inductive Mode where
  | code
  | lineComment
  | blockComment (outer : Nat)
  | literal (delimiter : Delimiter) (escaped : Bool)
deriving Repr, Inhabited, DecidableEq

/-- What a lexeme does to string literals.  `breaking` is the line break that
ends an unclosed literal; it is not part of it. -/
inductive Role where
  | plain
  | opening (delimiter : Delimiter)
  | closing
  | breaking
deriving Repr, Inhabited, DecidableEq

/-- The next lexeme of a text: one character and `more`, all of one class, and
what the text is inside of after them. -/
structure Step where
  more : Nat
  cls : CharClass
  role : Role
  next : Mode
deriving Repr, Inhabited, DecidableEq

namespace Step

/-- One character that leaves literals alone. -/
def plain (cls : CharClass) (next : Mode) : Step :=
  { more := 0, cls := cls, role := .plain, next := next }

/-- Two characters that leave literals alone. -/
def pair (cls : CharClass) (next : Mode) : Step :=
  { more := 1, cls := cls, role := .plain, next := next }

end Step

/-- The next lexeme outside of comments and literals. -/
def stepCode (first : Char) (rest : List Char) : Step :=
  if first = '/' ∧ rest.head? = some '/' then .pair .comment .lineComment
  else if first = '/' ∧ rest.head? = some '*' then
    .pair .comment (.blockComment 0)
  else
    match Delimiter.ofOpening? (first :: rest) with
    | some delimiter =>
        { more := delimiter.width - 1
          cls := .literal
          role := .opening delimiter
          next := .literal delimiter false }
    | none => .plain .code .code

/-- The next lexeme inside a block comment with `outer` comments around it. -/
def stepBlock (outer : Nat) (first : Char) (rest : List Char) : Step :=
  if first = '/' ∧ rest.head? = some '*' then
    .pair .comment (.blockComment (outer + 1))
  else if first = '*' ∧ rest.head? = some '/' then
    match outer with
    | 0 => .pair .comment .code
    | outer + 1 => .pair .comment (.blockComment outer)
  else .plain .comment (.blockComment outer)

/-- The next lexeme inside a literal, after a character that is not a protecting
backslash. -/
def stepLiteral (delimiter : Delimiter) (first : Char) (rest : List Char) :
    Step :=
  if first = '\\' ∧ delimiter.hashes = 0 then
    .plain .literal (.literal delimiter true)
  else if delimiter.closer.isPrefixOf (first :: rest) then
    { more := delimiter.width - 1
      cls := .literal
      role := .closing
      next := .code }
  else if first = '\n' ∧ !delimiter.multiline then
    { more := 0, cls := .code, role := .breaking, next := .code }
  else .plain .literal (.literal delimiter false)

/-- The next lexeme of a text that is not empty. -/
def step (mode : Mode) (first : Char) (rest : List Char) : Step :=
  match mode with
  | .code => stepCode first rest
  | .lineComment =>
      if first = '\n' then .plain .code .code else .plain .comment .lineComment
  | .blockComment outer => stepBlock outer first rest
  | .literal delimiter true => .plain .literal (.literal delimiter false)
  | .literal delimiter false => stepLiteral delimiter first rest

/-- A lexeme: its text, its class, and what it does to literals. -/
structure Lexeme where
  chars : List Char
  cls : CharClass
  role : Role
deriving Repr, Inhabited, DecidableEq

/-- The lexemes of a text whose first `skip` characters belong to a lexeme that
was given before. -/
def lexemesAfter (mode : Mode) (skip : Nat) : List Char → List Lexeme
  | [] => []
  | c :: rest =>
      match skip with
      | skip + 1 => lexemesAfter mode skip rest
      | 0 =>
          let found := step mode c rest
          { chars := c :: rest.take found.more
            cls := found.cls
            role := found.role } :: lexemesAfter found.next found.more rest

/-- The lexemes of a text that starts as code. -/
def lexemes (chars : List Char) : List Lexeme :=
  lexemesAfter .code 0 chars

/-- What a text is inside of at its end, where its first `skip` characters
belong to a lexeme that was read before. -/
def modeAfter (mode : Mode) (skip : Nat) : List Char → Mode
  | [] => mode
  | c :: rest =>
      match skip with
      | skip + 1 => modeAfter mode skip rest
      | 0 =>
          let found := step mode c rest
          modeAfter found.next found.more rest

/-- Every character of a text with its class. -/
def classified (chars : List Char) : List (Char × CharClass) :=
  (lexemes chars).flatMap fun lexeme =>
    lexeme.chars.map fun c => (c, lexeme.cls)

/-- The length of a text in UTF-8. -/
def byteLength : List Char → Nat
  | [] => 0
  | c :: rest => c.utf8Size + byteLength rest

/-- A string literal: where it starts and stops in UTF-8, how it is quoted, and
whether it has its closing delimiter. -/
structure Literal where
  start : Nat
  stop : Nat
  delimiter : Delimiter
  closed : Bool
deriving Repr, Inhabited, DecidableEq

/-- The string literals of lexemes that start at a position, with the literal
that is open there. -/
def literalsFrom (position : Nat) :
    Option (Nat × Delimiter) → List Lexeme → List Literal
  | none, [] => []
  | some (start, delimiter), [] => [⟨start, position, delimiter, false⟩]
  | current, lexeme :: rest =>
      let after := position + byteLength lexeme.chars
      match lexeme.role, current with
      | .opening delimiter, _ =>
          literalsFrom after (some (position, delimiter)) rest
      | .closing, some (start, delimiter) =>
          ⟨start, after, delimiter, true⟩ :: literalsFrom after none rest
      | .breaking, some (start, delimiter) =>
          ⟨start, position, delimiter, false⟩ :: literalsFrom after none rest
      | _, current => literalsFrom after current rest

/-- The string literals of a text, in order. -/
def literalsOf (chars : List Char) : List Literal :=
  literalsFrom 0 none (lexemes chars)

/-- A literal that is cut short by a line break leaves the next line alone. -/
example :
    (literalsOf ['"', 'a', '\n', '"', 'b', '"']).map
        (fun literal => (literal.start, literal.stop, literal.closed)) =
      [(0, 2, false), (3, 6, true)] := by
  decide

/-- Block comments nest. -/
example :
    (classified ['/', '*', '/', '*', '*', '/', '*', '/', 'x']).map Prod.snd =
      List.replicate 8 .comment ++ [.code] := by
  decide

end PackageLayers.Source

/-
Purpose: The values of string literals.
Main exports: unescape, Literal.value, Source.literalAt?
-/
import PackageLayers.Source.Basic

namespace PackageLayers.Source

/-!
The value of a literal is the text between its delimiters, with escapes undone
unless the delimiter has number signs.  What is between the delimiters is read
off the literal's own text: if that text is long enough for both delimiters and
ends with the closing one, both are taken off, and otherwise only the opening
one.
-/

/-- The character that a backslash and a letter stand for.  Letters without a
meaning of their own stand for themselves. -/
def unescapeChar (c : Char) : Char :=
  if c = 'n' then '\n'
  else if c = 't' then '\t'
  else if c = 'r' then '\r'
  else if c = '0' then '\x00'
  else c

/-- Undo the escapes of a text.  A backslash at its end stands for itself. -/
def unescape : List Char → List Char
  | [] => []
  | [c] => [c]
  | c :: next :: rest =>
      if c = '\\' then unescapeChar next :: unescape rest
      else c :: unescape (next :: rest)

/-- What stands between the delimiters of a literal with the given text. -/
def Literal.inner (literal : Literal) (chars : List Char) : List Char :=
  let width := literal.delimiter.width
  if 2 * width ≤ literal.stop - literal.start ∧
      literal.delimiter.closer.isSuffixOf chars then
    (chars.drop width).take (chars.length - 2 * width)
  else chars.drop width

/-- The value of a literal with the given text. -/
def Literal.value (literal : Literal) (chars : List Char) : String :=
  let inner := literal.inner chars
  String.ofList (if literal.delimiter.hashes = 0 then unescape inner else inner)

/-- A string literal with its value. -/
structure Quoted where
  start : Nat
  stop : Nat
  value : String
deriving Repr, Inhabited, DecidableEq

/-- The string literal whose opening delimiter starts at a position. -/
def literalAt? (source : Source) (position : Nat) : Option Quoted :=
  (source.literals.find? fun literal => literal.start == position).map
    fun literal =>
      { start := literal.start
        stop := literal.stop
        value :=
          literal.value (source.slice literal.start literal.stop).toList }

/-- Escapes are undone from left to right. -/
example :
    unescape ['a', '\\', '\\', 'n', '\\', 'n', '\\'] =
      ['a', '\\', 'n', '\n', '\\'] := by
  decide

end PackageLayers.Source

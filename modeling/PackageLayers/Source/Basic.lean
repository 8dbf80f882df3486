/-
Purpose: Classified source text with access by UTF-8 position.
Main exports: Source, Source.ofText, Source.charAt?, Source.classAt?, Source.slice
-/
import PackageLayers.Source.Lexeme

namespace PackageLayers

open Source (CharClass Literal classified literalsOf)

/-!
Positions in a text count UTF-8 bytes.  A `Cell` is one such position: the
character that starts there, or none inside a character of several bytes, and
the class of the byte.  All text that structure is made of is ASCII, so a
position where structure is found is always the start of a character.
-/

/-- One UTF-8 position of a text. -/
structure Cell where
  char? : Option Char
  cls : CharClass
deriving Repr, Inhabited, DecidableEq

/-- The positions that a character takes. -/
def Cell.ofChar (c : Char) (cls : CharClass) : List Cell :=
  ⟨some c, cls⟩ :: List.replicate (c.utf8Size - 1) ⟨none, cls⟩

/-- A text with the class of every position and its string literals. -/
structure Source where
  cells : Array Cell
  literals : List Literal
deriving Repr, Inhabited

namespace Source

/-- Classify a text. -/
def ofText (text : String) : Source where
  cells :=
    ((classified text.toList).flatMap fun entry =>
      Cell.ofChar entry.1 entry.2).toArray
  literals := literalsOf text.toList

/-- The number of positions. -/
def size (source : Source) : Nat := source.cells.size

/-- The positions from `start` up to and without `stop`, ascending. -/
def positions (start stop : Nat) : List Nat :=
  List.range' start (stop - start)

/-- The character that starts at a position. -/
def charAt? (source : Source) (position : Nat) : Option Char :=
  source.cells[position]?.bind Cell.char?

/-- The class of a position. -/
def classAt? (source : Source) (position : Nat) : Option CharClass :=
  source.cells[position]?.map Cell.cls

/-- The character that starts at a position of code. -/
def codeAt? (source : Source) (position : Nat) : Option Char :=
  source.cells[position]?.bind fun cell =>
    if cell.cls = .code then cell.char? else none

/-- Whether a position is code. -/
def isCode (source : Source) (position : Nat) : Bool :=
  source.classAt? position == some .code

/-- Whether a character starts at a position, or the text ends there. -/
def isBoundary (source : Source) (position : Nat) : Bool :=
  position == source.size || (source.charAt? position).isSome

/-- The text of the characters that start in a range. -/
def slice (source : Source) (start stop : Nat) : String :=
  String.ofList ((source.cells.extract start stop).toList.filterMap Cell.char?)

/-- The code characters of a range with their positions. -/
def codeChars (source : Source) (start stop : Nat) : List (Nat × Char) :=
  (positions start (min stop source.size)).filterMap fun position =>
    (source.codeAt? position).map fun c => (position, c)

/-- Whether a character is one of the five ASCII characters that separate
tokens: space, tab, line feed, form feed and carriage return. -/
def isSpace (c : Char) : Bool :=
  c = ' ' || c = '\t' || c = '\n' || c = '\x0c' || c = '\r'

/-- Whether a character may stand in a name: an ASCII letter, a digit or an
underscore. -/
def isNameChar (c : Char) : Bool :=
  c.isAlphanum || c = '_'

/-- Whether a name character starts at a position. -/
def isNameAt (source : Source) (position : Nat) : Bool :=
  (source.charAt? position).any isNameChar

/-- Whether a position is neither separator nor comment. -/
def isSignificant (source : Source) (position : Nat) : Bool :=
  source.cells[position]?.any fun cell =>
    cell.cls != .comment && !cell.char?.any isSpace

/-- The first significant position at or after `start` and before `stop`. -/
def nextSignificant? (source : Source) (start stop : Nat) : Option Nat :=
  (positions start (min stop source.size)).find? source.isSignificant

/-- The last significant position before `stop` and at or after `start`. -/
def lastSignificant? (source : Source) (start stop : Nat) : Option Nat :=
  (positions start (min stop source.size)).reverse.find? source.isSignificant

/-- What is found at the positions that a text takes. -/
def footprint (text : String) : List (Option Char) :=
  text.toList.flatMap fun c => some c :: List.replicate (c.utf8Size - 1) none

/-- Whether the positions from `position` on hold what `print` says. -/
def matchesAt (source : Source) (print : List (Option Char)) (position : Nat) :
    Bool :=
  ((source.cells.extract position (position + print.length)).toList.map
    Cell.char?) == print

/-- Whether all positions of a range are code. -/
def isCodeRange (source : Source) (start stop : Nat) : Bool :=
  (positions start stop).all source.isCode

end Source

end PackageLayers

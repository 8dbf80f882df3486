/-
Purpose: Reading a JSON text.
Main exports: Json.read?, Json.readCanonical?
-/
import PackageLayers.Json.Number
import PackageLayers.Text.Hex

namespace PackageLayers.Json

/-!
Reading has two stages.  `tokens?` cuts the text into punctuation, words,
numbers and strings; it reads one character at a time and remembers what it is
inside of.  `Builder.step?` takes one token and keeps the open arrays and
objects on a stack.  Both are recursive on the list they read.

What is refused: anything that RFC 8259 refuses, and a control character inside
a string.  Half a surrogate pair makes a text illegible, or the object whose
member it names; a number beyond every double is illegible, and so is an array
or object that stands inside of 127 others.
-/

/-- The pieces of a JSON text. -/
inductive Token where
  | openList
  | closeList
  | openRecord
  | closeRecord
  | comma
  | colon
  | literal (value : Json)
  | text (content : Option String)
deriving Repr, Inhabited

/-- A partly read text: its characters, last first, and whether all of it so far
can be read. -/
structure Draft where
  chars : List Char
  legible : Bool
deriving Repr, Inhabited

namespace Draft

/-- The text with one more character. -/
def push (draft : Draft) (c : Char) : Draft :=
  { draft with chars := c :: draft.chars }

/-- The text with a part that cannot be read. -/
def spoil (draft : Draft) : Draft :=
  { draft with legible := false }

/-- The finished text, if it can be read. -/
def content (draft : Draft) : Option String :=
  if draft.legible then some (String.ofList draft.chars.reverse) else none

end Draft

/-- What the reader is inside of between two characters.  Characters read so
far are kept last first. -/
inductive ScanMode where
  | between
  | word (read : List Char)
  | number (read : List Char)
  | text (draft : Draft)
  | escape (draft : Draft)
  | codeUnit (draft : Draft) (high : Option Nat) (digits : Nat) (value : Nat)
  | lowHalf (draft : Draft) (high : Nat)
  | lowHalfMark (draft : Draft) (high : Nat)
deriving Repr, Inhabited

/-- The value that a word stands for. -/
def wordValue? (chars : List Char) : Option Json :=
  if chars = "null".toList then some .null
  else if chars = "true".toList then some (.bool true)
  else if chars = "false".toList then some (.bool false)
  else none

/-- Whether a character may separate tokens. -/
def isSeparator (c : Char) : Bool :=
  c = ' ' || c = '\t' || c = '\n' || c = '\r'

/-- Whether a character may stand in a number after its first. -/
def isNumberChar (c : Char) : Bool :=
  c.isDigit || c = '+' || c = '-' || c = '.' || c = 'e' || c = 'E'

/-- The tokens that a character outside of words, numbers and strings gives, and
what the reader is inside of after it. -/
def scanBetween? (c : Char) : Option (List Token × ScanMode) :=
  if isSeparator c then some ([], .between)
  else if c = '[' then some ([.openList], .between)
  else if c = ']' then some ([.closeList], .between)
  else if c = '\x7b' then some ([.openRecord], .between)
  else if c = '\x7d' then some ([.closeRecord], .between)
  else if c = ',' then some ([.comma], .between)
  else if c = ':' then some ([.colon], .between)
  else if c = '"' then some ([], .text ⟨[], true⟩)
  else if c = '-' || c.isDigit then some ([], .number [c])
  else if c.isAlpha then some ([], .word [c])
  else none

/-- The character that a backslash and a letter stand for. -/
def escaped? (c : Char) : Option Char :=
  if c = '"' || c = '\\' || c = '/' then some c
  else if c = 'b' then some '\x08'
  else if c = 'f' then some '\x0c'
  else if c = 'n' then some '\n'
  else if c = 'r' then some '\r'
  else if c = 't' then some '\t'
  else none

/-- The text after the four digits of a code unit, or the wait for the second
half of a pair. -/
def codeUnitDone (draft : Draft) (high : Option Nat) (value : Nat) : ScanMode :=
  match high with
  | some first =>
      if 0xDC00 ≤ value ∧ value ≤ 0xDFFF then
        .text (draft.push (Char.ofNat
          (0x10000 + (first - 0xD800) * 0x400 + (value - 0xDC00))))
      else .text draft.spoil
  | none =>
      if 0xD800 ≤ value ∧ value ≤ 0xDBFF then .lowHalf draft value
      else if 0xDC00 ≤ value ∧ value ≤ 0xDFFF then .text draft.spoil
      else .text (draft.push (Char.ofNat value))

/-- One character inside of a string. -/
def textStep? (draft : Draft) (c : Char) : Option (List Token × ScanMode) :=
  if c = '"' then some ([.text draft.content], .between)
  else if c = '\\' then some ([], .escape draft)
  else if c.toNat < 0x20 then none
  else some ([], .text (draft.push c))

/-- One character after a backslash. -/
def escapeStep? (draft : Draft) (c : Char) : Option (List Token × ScanMode) :=
  if c = 'u' then some ([], .codeUnit draft none 0 0)
  else (escaped? c).map fun plain => ([], .text (draft.push plain))

/-- One character read: the tokens that end with it, and what follows. -/
def scanStep? (mode : ScanMode) (c : Char) : Option (List Token × ScanMode) :=
  match mode with
  | .between => scanBetween? c
  | .word read =>
      if c.isAlpha then some ([], .word (c :: read))
      else do
        let value ← wordValue? read.reverse
        let (found, next) ← scanBetween? c
        pure (.literal value :: found, next)
  | .number read =>
      if isNumberChar c then some ([], .number (c :: read))
      else do
        let value ← numberValue? read.reverse
        let (found, next) ← scanBetween? c
        pure (.literal value :: found, next)
  | .text draft => textStep? draft c
  | .escape draft => escapeStep? draft c
  | .codeUnit draft high digits value => do
      let digit ← Text.hexDigit? c
      let sum := 16 * value + digit
      if digits = 3 then pure ([], codeUnitDone draft high sum)
      else pure ([], .codeUnit draft high (digits + 1) sum)
  | .lowHalf draft high =>
      if c = '\\' then some ([], .lowHalfMark draft high)
      else textStep? draft.spoil c
  | .lowHalfMark draft high =>
      if c = 'u' then some ([], .codeUnit draft (some high) 0 0)
      else escapeStep? draft.spoil c

/-- The tokens that the end of the text gives. -/
def scanEnd? : ScanMode → Option (List Token)
  | .between => some []
  | .word read => (wordValue? read.reverse).map fun value => [.literal value]
  | .number read => (numberValue? read.reverse).map fun value => [.literal value]
  | _ => none

/-- The tokens of a text. -/
def tokens? (mode : ScanMode) : List Char → Option (List Token)
  | [] => scanEnd? mode
  | c :: rest => do
      let (found, next) ← scanStep? mode c
      let later ← tokens? next rest
      pure (found ++ later)

/-- An array or object that is not closed yet; what it holds is kept last
first.  The name of a member that is being read stands beside those done. -/
inductive OpenValue where
  | list (done : List Json)
  | record (done : List (Option String × Json)) (name : Option String)
deriving Inhabited

/-- The closed array or object; an object with a name that cannot be read is
illegible. -/
def OpenValue.close : OpenValue → Json
  | .list done => .arr done.reverse
  | .record done _ =>
      match done.reverse.mapM fun member =>
          member.1.map fun name => (name, member.2) with
      | some members => .obj members
      | none => .illegible

/-- What the next token must be. -/
inductive Expected where
  | value
  | valueOrClose
  | name
  | nameOrClose
  | colon (name : Option String)
  | separator
  | finished (value : Json)
deriving Inhabited

/-- A partly read document: the open arrays and objects, innermost first. -/
structure Builder where
  expected : Expected
  stack : List OpenValue
deriving Inhabited

namespace Builder

/-- The greatest number of arrays and objects that a legible one may be inside
of. -/
def depthLimit : Nat := 126

/-- Give a complete value to the innermost open array or object. -/
def give (value : Json) : List OpenValue → Builder
  | [] => ⟨.finished value, []⟩
  | .list done :: outer => ⟨.separator, .list (value :: done) :: outer⟩
  | .record done name :: outer =>
      ⟨.separator, .record ((name, value) :: done) none :: outer⟩

/-- Close the innermost array or object. -/
def close (inner : OpenValue) (outer : List OpenValue) : Builder :=
  give (if outer.length ≤ depthLimit then inner.close else .illegible) outer

/-- A token where a value is expected. -/
def startValue? (builder : Builder) : Token → Option Builder
  | .literal value => some (give value builder.stack)
  | .text (some content) => some (give (.str content) builder.stack)
  | .text none => some (give .illegible builder.stack)
  | .openList => some ⟨.valueOrClose, .list [] :: builder.stack⟩
  | .openRecord => some ⟨.nameOrClose, .record [] none :: builder.stack⟩
  | _ => none

/-- Take one token; none where it cannot stand. -/
def step? (builder : Builder) (token : Token) : Option Builder :=
  match builder.expected, token, builder.stack with
  | .value, token, _ => builder.startValue? token
  | .valueOrClose, .closeList, .list done :: outer =>
      some (close (.list done) outer)
  | .valueOrClose, token, _ => builder.startValue? token
  | .nameOrClose, .closeRecord, .record done name :: outer =>
      some (close (.record done name) outer)
  | .nameOrClose, .text name, stack => some ⟨.colon name, stack⟩
  | .name, .text name, stack => some ⟨.colon name, stack⟩
  | .colon name, .colon, .record done _ :: outer =>
      some ⟨.value, .record done name :: outer⟩
  | .separator, .comma, .list done :: outer => some ⟨.value, .list done :: outer⟩
  | .separator, .comma, .record done name :: outer =>
      some ⟨.name, .record done name :: outer⟩
  | .separator, .closeList, .list done :: outer =>
      some (close (.list done) outer)
  | .separator, .closeRecord, .record done name :: outer =>
      some (close (.record done name) outer)
  | _, _, _ => none

/-- Take all tokens. -/
def run? (builder : Builder) : List Token → Option Builder
  | [] => some builder
  | token :: rest => do
      let next ← builder.step? token
      next.run? rest

end Builder

/-- The value that a text writes, with the members of objects as written. -/
def read? (text : String) : Option Json := do
  let tokens ← tokens? .between text.toList
  let builder ← Builder.run? ⟨.value, []⟩ tokens
  match builder.expected with
  | .finished value => some value
  | _ => none

/-- The value that a text writes, in canonical form; none if a part of it is
illegible. -/
def readCanonical? (text : String) : Option Json := do
  let value ← read? text
  if value.isLegible then some value.canonical else none

end PackageLayers.Json

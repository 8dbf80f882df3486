/-
Purpose: The parts that scripts are cut into.
Main exports: SyntaxFault, ScriptFault, Token, ScriptReader, ScriptReader.Reading
-/
import PackageLayers.Program.Command

namespace PackageLayers.Program

/-!
A script is cut into words, keywords, signs and redirections.  Whether a
character is special depends on the quotes and braces around it, the context.

Readers take a number of rounds that bounds the characters they look at.
-/

/-- What is wrong with the text of a script. -/
inductive SyntaxFault where
  | unexpected (found : String) (wanted : Option String)
  | openQuote
  | openBrace
  | openFormula
  | openBackquote
  | badLoopVariable
  | badFunctionName
  | badChannel
deriving Repr, Inhabited, DecidableEq

/-- The description of a fault. -/
def SyntaxFault.message : SyntaxFault → String
  | .unexpected found none => found ++ " unexpected"
  | .unexpected found (some wanted) =>
      found ++ " unexpected (expecting " ++ wanted ++ ")"
  | .openQuote => "Unterminated quoted string"
  | .openBrace => "Missing '\x7d'"
  | .openFormula => "Missing '))'"
  | .openBackquote => "EOF in backquote substitution"
  | .badLoopVariable => "Bad for loop variable"
  | .badFunctionName => "Bad function name"
  | .badChannel => "Bad fd number"

/-- A fault and the line where it was found. -/
structure ScriptFault where
  fault : SyntaxFault
  line : Nat
deriving Repr, Inhabited, DecidableEq

/-- A part of a script between blanks. -/
inductive Token where
  | word (pieces : Word) (quoted : Bool)
  | keyword (text : String)
  | sign (text : String)
  | redirection (channel : Nat) (sign : String)
  | lineEnd
  | scriptEnd
deriving Inhabited

namespace Token

/-- A text in quotation marks. -/
def inMarks (text : String) : String :=
  "\"" ++ text ++ "\""

/-- How a token is called in a fault. -/
def describe : Token → String
  | .word _ _ => "word"
  | .keyword text | .sign text => inMarks text
  | .redirection _ _ => "redirection"
  | .lineEnd => "newline"
  | .scriptEnd => "end of file"

/-- The words that mean something at the start of a command. -/
def keywords : List String :=
  ["!", "case", "do", "done", "elif", "else", "esac", "fi", "for", "if", "in",
    "then", "until", "while", "\x7b", "\x7d"]

/-- A word as a keyword, if it is one. -/
def asKeyword : Token → Token
  | .word [.text content false] false =>
      if keywords.contains content then .keyword content
      else .word [.text content false] false
  | token => token

/-- Whether a token ends a list of commands. -/
def endsList : Token → Bool
  | .scriptEnd => true
  | .sign text => text = ")" || text = ";;"
  | .keyword text =>
      ["do", "done", "elif", "else", "esac", "fi", "then", "\x7d"].contains text
  | _ => false

/-- Whether a token is a sign or a keyword of that text. -/
def isText (token : Token) (wanted : String) : Bool :=
  match token with
  | .keyword text | .sign text => text = wanted
  | _ => false

end Token

/-- A here-document that begins below the present line. -/
structure AwaitedDocument where
  place : Nat
  closing : List Char
  dropsTabs : Bool
  quoted : Bool
deriving Repr, Inhabited, DecidableEq

/-- A place in a script: what is left of it, the line, a token that was given
back, the here-documents that begin below, and those that were read. -/
structure ScriptReader where
  rest : List Char
  line : Nat := 1
  returned : Option Token := none
  awaited : List AwaitedDocument := []
  documents : List (Nat × Word) := []
  places : Nat := 0
deriving Inhabited

namespace ScriptReader

/-- A reading step. -/
abbrev Reading := StateT ScriptReader (Except ScriptFault)

/-- What a part of a script is read as, which decides what is special in it. -/
inductive Context where
  | bare
  | closing
  | quoted
  | document
  | operand
  | quotedOperand (inner : Bool)
  | formula (depth : Nat)
deriving Repr, Inhabited, DecidableEq

namespace Context

/-- Whether text is quoted. -/
def isQuoted : Context → Bool
  | .bare | .closing | .operand => false
  | _ => true

/-- The fault if the script ends in a context. -/
def fault? : Context → Option SyntaxFault
  | .bare | .closing | .document => none
  | .quoted | .quotedOperand _ => some .openQuote
  | .operand => some .openBrace
  | .formula _ => some .openFormula

/-- The characters that end a word outside of quotes. -/
def separators : List Char :=
  " \t\n;&|<>()".toList

/-- Whether a character ends a part and is left to what follows. -/
def isEndedBy (context : Context) (c : Char) : Bool :=
  match context with
  | .bare | .closing => separators.contains c
  | _ => false

/-- Whether a character ends a part and belongs to it. -/
def isClosedBy (context : Context) (c : Char) : Bool :=
  match context with
  | .quoted => c = '"'
  | .operand | .quotedOperand false => c = '\x7d'
  | _ => false

/-- Whether a backslash takes its meaning from a character. -/
def isEscaped (context : Context) (c : Char) : Bool :=
  match context with
  | .bare | .closing | .operand => true
  | .quotedOperand _ => "\\\x60$\"\x7d".toList.contains c
  | .quoted => "\\\x60$\"".toList.contains c
  | .document | .formula _ => "\\\x60$".toList.contains c

/-- The context of what a parameter's value is changed by. -/
def ofOperand (context : Context) (isPattern : Bool) : Context :=
  if context.isQuoted && !isPattern then .quotedOperand false else .operand

end Context

/-- Stop with a fault. -/
def fail {α : Type} (fault : SyntaxFault) : Reading α := do
  throw ⟨fault, (← get).line⟩

/-- Stop at a token. -/
def refuse {α : Type} (token : Token) (wanted : Option String) : Reading α :=
  fail (.unexpected token.describe wanted)

/-- A line and the characters after it, without the line ends that a backslash
hides. -/
def withoutJoins (line : Nat) : List Char → Nat × List Char
  | '\\' :: '\n' :: rest => withoutJoins (line + 1) rest
  | chars => (line, chars)

/-- The next character, which stays. -/
def peek : Reading (Option Char) := do
  let reader ← get
  let (line, rest) := withoutJoins reader.line reader.rest
  set { reader with line := line, rest := rest }
  pure rest.head?

/-- Go over a character. -/
def skip : Reading Unit :=
  modify fun reader =>
    match reader.rest with
    | c :: rest =>
        { reader with
          rest := rest
          line := if c = '\n' then reader.line + 1 else reader.line }
    | [] => reader

/-- The next character as it is written, which is gone over. -/
def take : Reading (Option Char) := do
  let next := (← get).rest.head?
  skip
  pure next

/-- Pieces of a word, last first, with one more character. -/
def addChar (done : Word) (c : Char) (quoted : Bool) : Word :=
  match done with
  | .text content other :: earlier =>
      if other = quoted then .text (content.push c) other :: earlier
      else .text c.toString quoted :: done
  | _ => .text c.toString quoted :: done

/-- Pieces of a word, last first, with a mark that some of it is quoted. -/
def addMark (done : Word) : Word :=
  match done with
  | .text content true :: earlier => .text content true :: earlier
  | _ => .text "" true :: done

/-- Whether a piece is quoted. -/
def isQuotedPiece : Piece → Bool
  | .text _ quoted | .parameter _ _ _ quoted | .output _ quoted
  | .formula _ quoted => quoted
  | .badSubstitution => false

/-- Pieces of a word, last first, with a part in quotation marks.  Of all
arguments alone nothing is left if there are none. -/
def addQuoted (done inner : Word) : Word :=
  match inner with
  | [.parameter "@" .plain [] true] => .parameter "@" .plain [] true :: done
  | _ =>
      match addMark done, inner with
      | .text before true :: earlier, .text content true :: later =>
          later.reverse ++ .text (before ++ content) true :: earlier
      | marked, _ => inner.reverse ++ marked

/-- Go over blanks, joined lines and a comment. -/
def skipIdle : (rounds : Nat) → Reading Unit
  | 0 => pure ()
  | rounds + 1 => do
      match ← peek with
      | some c =>
          if c = ' ' || c = '\t' then
            skip
            skipIdle rounds
          else if c = '#' then
            modify fun reader =>
              { reader with rest := reader.rest.dropWhile (· ≠ '\n') }
      | none => pure ()

/-- The characters of a class that come next. -/
def takeWhile (test : Char → Bool) : (rounds : Nat) → Reading (List Char)
  | 0 => pure []
  | rounds + 1 => do
      match ← peek with
      | some c =>
          if test c then
            skip
            let later ← takeWhile test rounds
            pure (c :: later)
          else pure []
      | none => pure []

/-- The text up to a single quote, which is gone over. -/
def untilQuote : (rounds : Nat) → Reading (List Char)
  | 0 => fail .openQuote
  | rounds + 1 => do
      match ← take with
      | none => fail .openQuote
      | some '\'' => pure []
      | some c => do
          let later ← untilQuote rounds
          pure (c :: later)

/-- The text up to a backquote, which is gone over. -/
def untilBackquote (quoted : Bool) : (rounds : Nat) → Reading (List Char)
  | 0 => fail .openBackquote
  | rounds + 1 => do
      let next ← peek
      skip
      match next with
      | none => fail .openBackquote
      | some '\x60' => pure []
      | some '\\' => do
          match ← take with
          | none => fail .openBackquote
          | some c => do
              let later ← untilBackquote quoted rounds
              if c = '\\' || c = '\x60' || c = '$' || (quoted && c = '"') then
                pure (c :: later)
              else pure ('\\' :: c :: later)
      | some c => do
          let later ← untilBackquote quoted rounds
          pure (c :: later)

/-- Whether an odd number of backslashes ends a line. -/
def isContinued (line : List Char) : Bool :=
  (line.reverse.takeWhile (· = '\\')).length % 2 = 1

/-- The lines up to a closing line, and the characters below that. -/
def linesUpTo (document : AwaitedDocument) (continued : Bool) :
    (rounds : Nat) → List Char → List Char × List Char
  | 0, chars => ([], chars)
  | _ + 1, [] => ([], [])
  | rounds + 1, chars =>
      let written := chars.takeWhile (· ≠ '\n')
      let below := (chars.dropWhile (· ≠ '\n')).drop 1
      let line :=
        if document.dropsTabs && !continued then
          written.dropWhile (· = '\t')
        else written
      if line = document.closing && !continued then ([], below)
      else
        let (body, after) :=
          linesUpTo document (!document.quoted && isContinued line) rounds below
        (line ++ '\n' :: body, after)

/-- The text of a word that holds nothing else. -/
def plainText (word : Word) : String :=
  word.foldl
    (fun content piece =>
      match piece with
      | .text more _ => content ++ more
      | _ => content)
    ""

/-- The assignment that a word is. -/
def assignment? : Word → Option (String × Word)
  | .text content false :: later =>
      let name := content.toList.takeWhile isNameChar
      match content.toList.drop name.length with
      | '=' :: value =>
          if name.head?.any startsName then
            some
              (String.ofList name,
                if value.isEmpty then later
                else .text (String.ofList value) false :: later)
          else none
      | _ => none
  | _ => none

/-- The change that a character after a parameter asks for. -/
def change? (ifEmpty : Bool) : Char → Option Change
  | '-' => some (.orDefault ifEmpty)
  | '=' => some (.orAssign ifEmpty)
  | '?' => some (.orFail ifEmpty)
  | '+' => some (.ifGiven ifEmpty)
  | _ => none

/-- The parameters that are written by one character. -/
def specialParameters : List Char :=
  "@*#?$!-".toList

/-- Put a token in front of what is left. -/
def giveBack (token : Token) : Reading Unit :=
  modify fun reader => { reader with returned := some token }

/-- The sign of signs that the next characters write, if there is one. -/
def sign? (signs : List String) : Reading (Option String) := do
  let reader ← get
  match signs.find? fun sign => sign.toList.isPrefixOf reader.rest with
  | some sign =>
      set { reader with rest := reader.rest.drop sign.length }
      pure (some sign)
  | none => pure none

/-- Read something elsewhere, and go on here with the tables as they are
there. -/
def elsewhere {α : Type} (chars : List Char) (inner : Reading α) :
    Reading α := do
  let outer ← get
  set { outer with rest := chars, returned := none, awaited := [] }
  let found ← inner
  modify fun reader =>
    { reader with
      rest := outer.rest
      line := outer.line
      returned := outer.returned
      awaited := outer.awaited }
  pure found

/-- The sign of a redirection of a channel. -/
def redirectionSign (channel : Nat) : Reading Token := do
  match ← sign? ["<<-", "<<", "<&", "<>", "<", ">>", ">|", ">&", ">"] with
  | some text => pure (.redirection channel text)
  | none => pure .scriptEnd

end ScriptReader

end PackageLayers.Program

/-
Purpose: The commands of shell scripts.
Main exports: Piece, Word, Redirection, Command
-/

namespace PackageLayers.Program

/-!
A word is a list of pieces, since parts of one word may be quoted differently:
text, the value of a parameter, the output of other commands, or the value of a
formula.  What is quoted is not split into fields.

Here-documents stand below the line that asks for them.  They are kept in a table
of their own, and a redirection names the place in it.
-/

/-- What becomes of the value of a parameter. -/
inductive Change where
  | plain
  | length
  | orDefault (ifEmpty : Bool)
  | orAssign (ifEmpty : Bool)
  | orFail (ifEmpty : Bool)
  | ifGiven (ifEmpty : Bool)
  | dropFront (longest : Bool)
  | dropBack (longest : Bool)
deriving Repr, Inhabited, DecidableEq

/-- Where a redirection leads. -/
inductive Direction where
  | read
  | write
  | append
  | readWrite
  | duplicate
deriving Repr, Inhabited, DecidableEq

mutual

/-- A part of a word. -/
inductive Piece where
  | text (content : String) (quoted : Bool)
  | parameter (name : String) (change : Change) (operand : List Piece)
      (quoted : Bool)
  | output (body : Command) (quoted : Bool)
  | formula (source : List Piece) (quoted : Bool)
  | badSubstitution

/-- What a channel of a command is connected to. -/
inductive Redirection where
  | file (channel : Nat) (direction : Direction) (name : List Piece)
  | document (channel : Nat) (place : Nat)

/-- A command. -/
inductive Command where
  | nothing
  | simple (line : Nat) (assignments : List (String × List Piece))
      (words : List (List Piece)) (redirections : List Redirection)
  | redirected (line : Nat) (body : Command) (redirections : List Redirection)
  | subshell (body : Command)
  | background (body : Command)
  | negated (body : Command)
  | pipe (left right : Command)
  | both (first second : Command)
  | either (first second : Command)
  | sequence (first second : Command)
  | conditional (test yes no : Command)
  | loop (wanted : Bool) (test body : Command)
  | each (line : Nat) (name : String) (words : List (List Piece))
      (body : Command)
  | choice (line : Nat) (subject : List Piece)
      (branches : List (List (List Piece) × Command))
  | define (line : Nat) (name : String) (body : Command)

end

instance : Inhabited Piece := ⟨.badSubstitution⟩

instance : Inhabited Command := ⟨.nothing⟩

/-- A word. -/
abbrev Word := List Piece

/-- The word that stands for all arguments, each a field. -/
def Word.allArguments : Word :=
  [.parameter "@" .plain [] true]

/-- Whether a character may start a name. -/
def startsName (c : Char) : Bool :=
  c.isAlpha || c = '_'

/-- Whether a character may stand in a name. -/
def isNameChar (c : Char) : Bool :=
  c.isAlphanum || c = '_'

/-- Whether a text is a name. -/
def isName (text : String) : Bool :=
  text.toList.head?.any startsName && text.toList.all isNameChar

/-- The utilities whose failure ends a script, and whose names no function may
take. -/
def specialUtilities : List String :=
  [".", ":", "break", "continue", "eval", "exec", "exit", "export", "local",
    "readonly", "return", "set", "shift", "times", "trap", "unset"]

/-- Two commands one after the other, where nothing needs no command. -/
def Command.andThen : Command → Command → Command
  | .nothing, second => second
  | first, second => .sequence first second

end PackageLayers.Program

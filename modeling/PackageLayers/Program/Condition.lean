/-
Purpose: The conditions that scripts test.
Main exports: Shell.holds
-/
import PackageLayers.Program.Arithmetic
import PackageLayers.Program.Shell

namespace PackageLayers.Program

/-!
A condition is a list of words: operators before one operand and between two,
negations, connectives and brackets.  A word that looks like an operator is an
operand where an operator makes no sense.

Readers are given the words from the one where they stand, and return the words
from the last one that they used.
-/

/-- What kind of operator a word is. -/
inductive OperatorKind where
  | single
  | double
  | negation
  | conjunction
  | disjunction
  | opening
  | closing
deriving Repr, Inhabited, DecidableEq

/-- The operators before one operand. -/
def singleOperators : List String :=
  ["-r", "-w", "-x", "-e", "-f", "-d", "-c", "-b", "-p", "-u", "-g", "-k", "-s",
    "-t", "-z", "-n", "-h", "-O", "-G", "-L", "-S"]

/-- The operators between two operands. -/
def doubleOperators : List String :=
  ["=", "!=", "<", ">", "-eq", "-ne", "-ge", "-gt", "-le", "-lt", "-nt", "-ot",
    "-ef"]

/-- The kind of an operator. -/
def operatorKind? (word : String) : Option OperatorKind :=
  match word with
  | "!" => some .negation
  | "-a" => some .conjunction
  | "-o" => some .disjunction
  | "(" => some .opening
  | ")" => some .closing
  | _ =>
      if singleOperators.contains word then some .single
      else if doubleOperators.contains word then some .double
      else none

/-- What stands at a place. -/
inductive ConditionToken where
  | operator (kind : OperatorKind)
  | operand
  | nothing
deriving Repr, Inhabited, DecidableEq

/-- Whether an operator before one operand is itself an operand. -/
def isOperand : List String → Bool
  | [_] => true
  | [_, _] => false
  | _ :: next :: _ => operatorKind? next = some .double
  | [] => true

/-- What stands at a place. -/
def conditionToken : List String → ConditionToken
  | [] => .nothing
  | word :: rest =>
      match operatorKind? word with
      | some kind =>
          if kind = .single && isOperand (word :: rest) then .operand
          else if kind = .opening && rest.isEmpty then .operand
          else .operator kind
      | none => .operand

/-- The number that an operand writes. -/
def operandNumber (word : String) : Except String Int :=
  let isBlank (c : Char) := " \t\n\x0b\x0c\r".toList.contains c
  let chars := Text.dropTrailing isBlank (word.toList.dropWhile isBlank)
  let (negative, digits) :=
    match chars with
    | '-' :: rest => (true, rest)
    | '+' :: rest => (false, rest)
    | rest => (false, rest)
  let size := Int.ofNat (Text.decimal digits)
  let value := if negative then -size else size
  if !digits.isEmpty && digits.all Char.isDigit && wrapped value = value then
    .ok value
  else .error ("Illegal number: " ++ word)

namespace Shell

/-- Whether a name leads somewhere. -/
def hasEntry (shell : Shell) (name : String) : Bool :=
  (shell.entry? name).isSome || isSystemDirectory name || isSystemFile name ||
    name = "/dev/null"

/-- Whether the test of one operand holds. -/
def singleTest (shell : Shell) (operator operand : String) :
    Except String Bool :=
  match operator with
  | "-z" => pure operand.isEmpty
  | "-n" => pure !operand.isEmpty
  | "-e" | "-r" | "-w" | "-O" | "-G" => pure (shell.hasEntry operand)
  | "-f" =>
      pure ((shell.file? operand).isSome || isSystemFile operand)
  | "-d" => pure (shell.isDirectory operand || isSystemDirectory operand)
  | "-s" =>
      match shell.file? operand with
      | some file => pure !file.content.octets.isEmpty
      | none => pure (shell.hasEntry operand && operand ≠ "/dev/null")
  | "-x" =>
      match shell.file? operand with
      | some file => pure file.executable
      | none =>
          pure (shell.isDirectory operand || isSystemDirectory operand ||
            isSystemProgram operand)
  | "-c" => pure (operand = "/dev/null")
  | "-t" => (operandNumber operand).map fun _ => false
  | _ => pure false

/-- The time of change of what a name leads to. -/
def modified (shell : Shell) (name : String) : FileTime :=
  (shell.file? name).bind File.modified

/-- Whether the test of two operands holds. -/
def doubleTest (shell : Shell) (operator left right : String) :
    Except String Bool := do
  let compare (test : Int → Int → Bool) : Except String Bool := do
    let first ← operandNumber left
    let second ← operandNumber right
    pure (test first second)
  match operator with
  | "=" => pure (left == right)
  | "!=" => pure (left != right)
  | "<" => pure (left < right)
  | ">" => pure (right < left)
  | "-eq" => compare fun first second => first = second
  | "-ne" => compare fun first second => first ≠ second
  | "-ge" => compare fun first second => second ≤ first
  | "-gt" => compare fun first second => second < first
  | "-le" => compare fun first second => first ≤ second
  | "-lt" => compare fun first second => first < second
  | "-nt" => pure ((shell.modified left).isAfter (shell.modified right))
  | "-ot" => pure ((shell.modified right).isAfter (shell.modified left))
  | _ =>
      pure
        (match shell.locate left, shell.locate right with
        | .ok first, .ok second => first == second
        | _, _ => false)

/-- A result of reading: whether a condition holds, and the words from the last
one that was used. -/
abbrev ConditionRead := Except String (Bool × List String)

mutual

/-- Conditions of which one must hold, given what stands at the first word. -/
def someHolds (shell : Shell) :
    (rounds : Nat) → ConditionToken → List String → ConditionRead
  | 0, _, words => .ok (false, words)
  | rounds + 1, token, words => do
      let (first, words) ← allHold shell rounds token words
      if conditionToken (words.drop 1) = .operator .disjunction then
        let rest := words.drop 2
        let (later, rest) ← someHolds shell rounds (conditionToken rest) rest
        pure (first || later, rest)
      else pure (first, words)

/-- Conditions that must all hold. -/
def allHold (shell : Shell) :
    (rounds : Nat) → ConditionToken → List String → ConditionRead
  | 0, _, words => .ok (false, words)
  | rounds + 1, token, words => do
      let (first, words) ← oneHolds shell rounds token words
      if conditionToken (words.drop 1) = .operator .conjunction then
        let rest := words.drop 2
        let (later, rest) ← allHold shell rounds (conditionToken rest) rest
        pure (first && later, rest)
      else pure (first, words)

/-- A condition, a negated one, or conditions in brackets. -/
def oneHolds (shell : Shell) :
    (rounds : Nat) → ConditionToken → List String → ConditionRead
  | 0, _, words => .ok (false, words)
  | rounds + 1, token, words =>
      match token with
      | .nothing => pure (false, words)
      | .operator .negation => do
          let next := conditionToken (words.drop 1)
          let words := if next = .nothing then words else words.drop 1
          let (holds, words) ← oneHolds shell rounds next words
          pure (!holds, words)
      | .operator .opening => do
          let inner := words.drop 1
          let next := conditionToken inner
          if next = .operator .closing then pure (false, inner)
          else do
            let (holds, after) ← someHolds shell rounds next inner
            if conditionToken (after.drop 1) = .operator .closing then
              pure (holds, after.drop 1)
            else .error "closing paren expected"
      | .operator .single =>
          match words with
          | operator :: operand :: rest => do
              let holds ← shell.singleTest operator operand
              pure (holds, operand :: rest)
          | _ => .error (words.headD "" ++ ": argument expected")
      | _ =>
          match words with
          | left :: operator :: rest =>
              if conditionToken (operator :: rest) = .operator .double then
                match rest with
                | right :: _ => do
                    let holds ← shell.doubleTest operator left right
                    pure (holds, rest)
                | [] => .error (operator ++ ": argument expected")
              else pure (!left.isEmpty, words)
          | _ => pure (!(words.headD "").isEmpty, words)

end

/-- Whether the condition that words write holds, where `token` is what stands at
the first. -/
def evaluated (shell : Shell) (token : ConditionToken) (words : List String) :
    Except String Bool := do
  let (holds, rest) ← shell.someHolds (4 * words.length + 4) token words
  match rest with
  | word :: _ :: _ => .error (word ++ ": unexpected operator")
  | _ => pure holds

/-- Whether the condition that words write holds; up to four words are looked at
as a whole first. -/
def holds (shell : Shell) : List String → Except String Bool
  | [] => .ok false
  | [first, second, third] =>
      if operatorKind? second = some .double then
        shell.evaluated .operand [first, second, third]
      else if first = "(" && third = ")" then
        shell.evaluated (conditionToken [second]) [second]
      else if first = "!" then (shell.holds [second, third]).map not
      else
        let words := [first, second, third]
        shell.evaluated (conditionToken words) words
  | [first, second, third, fourth] =>
      if first = "(" && fourth = ")" then
        shell.evaluated (conditionToken [second, third]) [second, third]
      else if first = "!" then (shell.holds [second, third, fourth]).map not
      else
        let words := [first, second, third, fourth]
        shell.evaluated (conditionToken words) words
  | words => shell.evaluated (conditionToken words) words

end Shell

end PackageLayers.Program

/-
Purpose: Scripts that edit lines.
Main exports: Filter.LineChoice, Filter.EditAction, Filter.EditCommand,
  Filter.EditFault, Filter.editScript
-/
import PackageLayers.Program.Filter.Basic
import PackageLayers.Program.Printf
import PackageLayers.Program.Regex
import PackageLayers.Text.Hex

namespace PackageLayers.Program.Filter

/-!
A script is a list of commands, each for all lines or for those that its address
chooses.  A block is a command that is skipped to the place after its end.  A
fault is told with the place up to which the script was read.
-/

/-- The lines that an address chooses. -/
inductive LineChoice where
  | number (place : Nat)
  | step (first step : Nat)
  | last
  | regex (regex : Option Regex) (ignoreCase : Bool)
  | offset (count : Nat)
  | multiple (count : Nat)
deriving Repr, Inhabited, DecidableEq

/-- How the case of characters is changed that replace a match. -/
inductive CaseMark where
  | upper
  | lower
  | upperOne
  | lowerOne
  | asIs
deriving Repr, Inhabited, DecidableEq

/-- A part of what replaces a match. -/
inductive Replacement where
  | text (content : List Char)
  | whole
  | group (number : Nat)
  | mark (mark : CaseMark)
deriving Repr, Inhabited, DecidableEq

/-- How a substitution is done: which match is replaced, whether all later ones
are too, whether the line is shown, whether case counts, and where the line is
written. -/
structure SubstitutionFlags where
  nth : Nat := 0
  all : Bool := false
  shows : Bool := false
  ignoreCase : Bool := false
  target : Option String := none
deriving Repr, Inhabited, DecidableEq

/-- What a command does. -/
inductive EditAction where
  | substitute (regex : Option Regex) (replacement : List Replacement)
      (flags : SubstitutionFlags)
  | translate (source target : List Char)
  | delete
  | deleteLine
  | print
  | printLine
  | printPlainly
  | next
  | join
  | keep (append : Bool)
  | recall (append : Bool)
  | exchange
  | clear
  | quit (status : Nat) (silent : Bool)
  | number
  | fileName
  | textAfter (text : List Char)
  | textBefore (text : List Char)
  | change (text : List Char)
  | readFile (name : String)
  | writeFile (name : String)
  | openBlock (afterEnd : Nat)
  | closeBlock
  | label (name : String)
  | branch (name : String)
  | branchIfChanged (name : String)
  | branchIfUnchanged (name : String)
deriving Repr, Inhabited, DecidableEq

/-- A command: its addresses, whether they are turned round, and what it does. -/
structure EditCommand where
  addresses : List LineChoice
  inverted : Bool
  action : EditAction
deriving Repr, Inhabited

/-- What is wrong with a script, and how many characters of it are left; without
them it is not told where. -/
structure EditFault where
  left : Option Nat
  text : String
deriving Repr, Inhabited, DecidableEq

/-- A fault after all but some characters were read. -/
def editFault {α : Type} (rest : List Char) (text : String) :
    Except EditFault α :=
  .error ⟨some rest.length, text⟩

/-- The characters of a set in brackets with the bracket that ends it, and what
follows; the first may be the bracket. -/
def bracketEnd : (isFirst : Bool) → List Char → List Char × List Char
  | _, [] => ([], [])
  | true, '^' :: rest =>
      let (set, after) := bracketEnd true rest
      ('^' :: set, after)
  | false, ']' :: rest => ([']'], rest)
  | _, c :: rest =>
      let (set, after) := bracketEnd false rest
      (c :: set, after)

/-- The text up to a mark that no backslash precedes, and what follows the mark; a
set in brackets is passed over.  A backslash in front of the mark is dropped. -/
def delimited (mark : Char) (isPattern : Bool) :
    (rounds : Nat) → List Char → Option (List Char × List Char)
  | 0, _ | _, [] => none
  | rounds + 1, '\\' :: c :: rest =>
      (delimited mark isPattern rounds rest).map fun (text, after) =>
        if c = mark then (c :: text, after)
        else ('\\' :: c :: text, after)
  | rounds + 1, c :: rest =>
      if c = mark then some ([], rest)
      else if c = '[' && isPattern then
        let (set, rest) := bracketEnd true rest
        let set := set.filter fun d => d ≠ '\\' || !set.contains mark
        (delimited mark isPattern rounds rest).map fun (text, after) =>
          (c :: set ++ text, after)
      else
        (delimited mark isPattern rounds rest).map fun (text, after) =>
          (c :: text, after)

/-- A character after a backslash in a text: a control character, or one of which
the code is given, or the character itself. -/
def escapedChar (c : Char) (rest : List Char) : Char × List Char :=
  match c with
  | 'x' =>
      let digits := (rest.take 2).takeWhile fun d => (Text.hexDigit? d).isSome
      if digits.isEmpty then (c, rest)
      else (Text.octet (Text.numeral 16 digits), rest.drop digits.length)
  | 'o' =>
      let digits := (rest.take 3).takeWhile isOctal
      if digits.isEmpty then (c, rest)
      else (octalOctet digits, rest.drop digits.length)
  | 'e' | 'b' | '\\' => (c, rest)
  | _ => ((controlEscape? c).getD c, rest)

/-- The parts of what replaces a match. -/
def replacementOf : (rounds : Nat) → List Char → List Replacement
  | 0, _ | _, [] => []
  | rounds + 1, '\\' :: c :: rest =>
      let marked (mark : CaseMark) : List Replacement :=
        .mark mark :: replacementOf rounds rest
      match c with
      | 'U' => marked .upper
      | 'L' => marked .lower
      | 'u' => marked .upperOne
      | 'l' => marked .lowerOne
      | 'E' => marked .asIs
      | _ =>
          if c.isDigit then
            .group (c.toNat - '0'.toNat) :: replacementOf rounds rest
          else
            let (plain, rest) := escapedChar c rest
            .text [plain] :: replacementOf rounds rest
  | rounds + 1, '&' :: rest => .whole :: replacementOf rounds rest
  | rounds + 1, c :: rest => .text [c] :: replacementOf rounds rest

/-- The expression between two marks; an empty one is the last that was used. -/
def regexBetween (extended : Bool) (chars rest : List Char) :
    Except EditFault (Option Regex) :=
  if chars.isEmpty then .ok none
  else
    match Regex.ofText? extended chars with
    | some regex => .ok (some regex)
    | none => editFault rest (Regex.faultOf extended chars)

/-- The characters after blanks. -/
def afterBlanks (chars : List Char) : List Char :=
  chars.dropWhile fun c => c = ' ' || c = '\t'

/-- One address, if there is one, and what follows it. -/
def address (extended : Bool) (chars : List Char) :
    Except EditFault (Option LineChoice × List Char) :=
  let pattern (mark : Char) (rest : List Char) : Except EditFault (Option LineChoice × List Char) :=
    match delimited mark true (rest.length + 1) rest with
    | none => editFault [] "unterminated address regex"
    | some (text, after) => do
        let regex ← regexBetween extended text after
        match after with
        | 'I' :: rest => pure (some (.regex regex true), rest)
        | _ => pure (some (LineChoice.regex regex false), after)
  let counted (rest : List Char) (make : Nat → LineChoice) :
      Except EditFault (Option LineChoice × List Char) :=
    let digits := rest.takeWhile Char.isDigit
    .ok (some (make (Text.decimal digits)), rest.drop digits.length)
  match chars with
  | '$' :: rest => .ok (some .last, rest)
  | '/' :: rest => pattern '/' rest
  | '\\' :: mark :: rest => pattern mark rest
  | '+' :: rest => counted rest .offset
  | '~' :: rest => counted rest .multiple
  | _ =>
      let digits := chars.takeWhile Char.isDigit
      let after := chars.drop digits.length
      let first := Text.decimal digits
      if digits.isEmpty then .ok (none, chars)
      else
        match after with
        | '~' :: rest => counted rest (.step first)
        | _ => .ok (some (.number first), after)

/-- The addresses of a command, and what follows them. -/
def addresses (extended : Bool) (chars : List Char) :
    Except EditFault (List LineChoice × List Char) := do
  match ← address extended chars with
  | (none, after) => pure ([], after)
  | (some first, after) =>
      match afterBlanks after with
      | ',' :: rest =>
          match ← address extended (afterBlanks rest) with
          | (some second, after) => pure ([first, second], after)
          | (none, after) => editFault (after.drop 1) "unexpected \x60,'"
      | _ => pure ([first], after)

/-- Whether addresses can be chosen by, where a first address of line zero is for
a range up to an expression. -/
def addressFault? : List LineChoice → Option String
  | [.number 0, .regex _ _] => none
  | .number 0 :: _ => some "invalid usage of line address 0"
  | .offset _ :: _ | .multiple _ :: _ =>
      some "invalid usage of +N or ~N as first address"
  | _ => none

/-- The name up to the end of the line. -/
def restOfLine (chars : List Char) : String × List Char :=
  let start := afterBlanks chars
  let name := start.takeWhile (· ≠ '\n')
  (String.ofList name, start.drop name.length)

/-- The flags of a substitution and what follows them. -/
def substitutionFlags (flags : SubstitutionFlags) : List Char →
    Except EditFault (SubstitutionFlags × List Char)
  | [] => .ok (flags, [])
  | 'g' :: rest =>
      if flags.all then editFault rest "multiple \x60g' options to \x60s' command"
      else substitutionFlags { flags with all := true } rest
  | 'p' :: rest =>
      if flags.shows then
        editFault rest "multiple \x60p' options to \x60s' command"
      else substitutionFlags { flags with shows := true } rest
  | 'i' :: rest | 'I' :: rest =>
      substitutionFlags { flags with ignoreCase := true } rest
  | 'm' :: rest | 'M' :: rest => substitutionFlags flags rest
  | 'w' :: rest =>
      let (name, after) := restOfLine rest
      if name.isEmpty then
        editFault after "missing filename in r/R/w/W commands"
      else .ok ({ flags with target := some name }, after)
  | ' ' :: rest => substitutionFlags flags rest
  | c :: rest =>
      if c.isDigit then
        if c = '0' && flags.nth = 0 then
          editFault rest "number option to \x60s' command may not be zero"
        else
          substitutionFlags
            { flags with nth := 10 * flags.nth + (c.toNat - '0'.toNat) } rest
      else if c = '\n' || c = ';' || c = '\x7d' || c = '#' then
        .ok (flags, c :: rest)
      else editFault rest "unknown option to \x60s'"

/-- The text of a command that adds lines, up to the end of a line that no
backslash precedes. -/
def addedText : (rounds : Nat) → List Char → List Char × List Char
  | 0, rest => ([], rest)
  | _, [] => ([], [])
  | rounds + 1, '\\' :: c :: rest =>
      let (plain, rest) := escapedChar c rest
      let (text, after) := addedText rounds rest
      (plain :: text, after)
  | _, '\n' :: rest => ([], rest)
  | rounds + 1, c :: rest =>
      let (text, after) := addedText rounds rest
      (c :: text, after)

/-- The text of a command that adds lines, on its own line or the next. -/
def addedLines (chars : List Char) : Except EditFault (List Char × List Char) :=
  let start :=
    match afterBlanks chars with
    | '\\' :: rest =>
        match afterBlanks rest with
        | '\n' :: text => afterBlanks text
        | _ => rest
    | rest => rest
  if (afterBlanks chars).isEmpty then
    editFault [] "expected \\ after \x60a', \x60c' or \x60i'"
  else
    let (text, after) := addedText (start.length + 1) start
    .ok (text ++ ['\n'], after)

/-- A name up to a semicolon or the end of the line, and what follows it. -/
def labelName (chars : List Char) : String × List Char :=
  let start := afterBlanks chars
  let name := start.takeWhile fun c => c ≠ ';' && c ≠ '\n' && c ≠ '\x7d'
  (String.ofList (Text.dropTrailing (· == ' ') name), start.drop name.length)

/-- What a substitution does, after its mark. -/
def substitution (extended : Bool) (mark : Char) (chars : List Char) :
    Except EditFault (EditAction × List Char) :=
  let parts := do
    let (pattern, rest) ← delimited mark true (chars.length + 1) chars
    let (text, rest) ← delimited mark false (rest.length + 1) rest
    pure (pattern, text, rest)
  match parts with
  | none => editFault [] "unterminated \x60s' command"
  | some (pattern, text, rest) => do
      let (flags, after) ← substitutionFlags {} rest
      let regex ← regexBetween extended pattern after
      let replacement := replacementOf (text.length + 1) text
      let groups := pattern.count '('
      let wrong := replacement.findSome? fun
        | .group number => if groups < number then some number else none
        | _ => none
      match wrong with
      | some number =>
          editFault after s!"invalid reference \\{number} on \x60s' command's RHS"
      | none =>
          let flags := { flags with nth := max flags.nth 1 }
          pure (.substitute regex replacement flags, after)

/-- A text with escapes replaced. -/
def plainChars : List Char → List Char
  | '\\' :: 'n' :: rest => '\n' :: plainChars rest
  | '\\' :: '\\' :: rest => '\\' :: plainChars rest
  | c :: rest => c :: plainChars rest
  | [] => []

/-- What a translation of characters does, after its mark. -/
def translation (mark : Char) (chars : List Char) : Except EditFault (EditAction × List Char) :=
  let parts := do
    let (source, rest) ← delimited mark false (chars.length + 1) chars
    let (target, rest) ← delimited mark false (rest.length + 1) rest
    pure (plainChars source, plainChars target, rest)
  match parts with
  | none => editFault [] "unterminated \x60y' command"
  | some (source, target, rest) =>
      if source.length = target.length then
        .ok (.translate source target, rest)
      else editFault rest "strings for \x60y' command are different lengths"

/-- What a command does that is its letter alone. -/
def plainAction? : Char → Option EditAction
  | 'd' => some .delete
  | 'D' => some .deleteLine
  | 'p' => some .print
  | 'P' => some .printLine
  | 'n' => some .next
  | 'N' => some .join
  | 'h' => some (.keep false)
  | 'H' => some (.keep true)
  | 'g' => some (.recall false)
  | 'G' => some (.recall true)
  | 'x' => some .exchange
  | 'z' => some .clear
  | '=' => some .number
  | 'F' => some .fileName
  | '\x7b' => some (.openBlock 0)
  | '\x7d' => some .closeBlock
  | _ => none

/-- Whether a command may end here. -/
def endsCommand (chars : List Char) : Bool :=
  match afterBlanks chars with
  | [] => true
  | c :: _ => c = '\n' || c = ';' || c = '\x7d' || c = '#'

/-- What a command does, given its letter and what follows. -/
def action (extended : Bool) (letter : Char) (chars : List Char) :
    Except EditFault (EditAction × List Char) :=
  let added (make : List Char → EditAction) : Except EditFault (EditAction × List Char) :=
    (addedLines chars).map fun (text, after) => (make text, after)
  let labelled (make : String → EditAction) : Except EditFault (EditAction × List Char) :=
    let (name, after) := labelName chars
    .ok (make name, after)
  let named (make : String → EditAction) : Except EditFault (EditAction × List Char) :=
    let (name, after) := restOfLine chars
    if name.isEmpty then editFault after "missing filename in r/R/w/W commands"
    else .ok (make name, after)
  let ended (action : EditAction) (rest : List Char) : Except EditFault (EditAction × List Char) :=
    if endsCommand rest then .ok (action, rest)
    else editFault ((afterBlanks rest).drop 1) "extra characters after command"
  let counted (make : Nat → EditAction) : Except EditFault (EditAction × List Char) :=
    let start := afterBlanks chars
    let digits := start.takeWhile Char.isDigit
    ended (make (Text.decimal digits)) (start.drop digits.length)
  match letter, chars with
  | 's', [] => editFault [] "unterminated \x60s' command"
  | 's', mark :: rest => substitution extended mark rest
  | 'y', [] => editFault [] "unterminated \x60y' command"
  | 'y', mark :: rest =>
      (translation mark rest).bind fun (action, rest) => ended action rest
  | 'q', _ => counted fun status => .quit status false
  | 'Q', _ => counted fun status => .quit status true
  | 'l', _ => counted fun _ => .printPlainly
  | 'a', _ => added .textAfter
  | 'i', _ => added .textBefore
  | 'c', _ => added .change
  | 'r', _ => named .readFile
  | 'w', _ => named .writeFile
  | ':', _ =>
      if (labelName chars).1.isEmpty then editFault [] "\":\" lacks a label"
      else labelled .label
  | 'b', _ => labelled .branch
  | 't', _ => labelled .branchIfChanged
  | 'T', _ => labelled .branchIfUnchanged
  | _, _ =>
      match plainAction? letter with
      | some (.openBlock place) => .ok (.openBlock place, chars)
      | some action => ended action chars
      | none => editFault chars s!"unknown command: \x60{letter}'"

/-- The commands of a script, of which `depth` blocks are open. -/
def commands (extended : Bool) : (rounds depth : Nat) → List Char →
    Except EditFault (List EditCommand)
  | 0, _, _ => .ok []
  | rounds + 1, depth, chars =>
      let start := chars.dropWhile fun c =>
        c = ' ' || c = '\t' || c = '\n' || c = ';'
      match start with
      | [] =>
          if depth = 0 then .ok []
          else .error ⟨none, "unmatched \x60\x7b'"⟩
      | '#' :: rest => commands extended rounds depth (rest.dropWhile (· ≠ '\n'))
      | _ => do
          let (addresses, after) ← addresses extended start
          let (inverted, body) :=
            match afterBlanks after with
            | '!' :: rest => (true, afterBlanks rest)
            | rest => (false, rest)
          match body, addressFault? addresses with
          | [], _ => editFault [] "missing command"
          | _ :: rest, some text => editFault rest text
          | letter :: rest, none =>
              if inverted && letter = '!' then editFault rest "multiple \x60!'s"
              else if letter = '\x7d' && depth = 0 then
                editFault rest "unexpected \x60\x7d'"
              else
                let (action, after) ← action extended letter rest
                let depth :=
                  match action with
                  | .openBlock _ => depth + 1
                  | .closeBlock => depth - 1
                  | _ => depth
                let later ← commands extended rounds depth after
                pure (⟨addresses, inverted, action⟩ :: later)

/-- The place after the end of a block, among commands that start at a place and
of which `depth` blocks are open. -/
def blockEnd (place depth : Nat) : List EditCommand → Nat
  | [] => place
  | command :: rest =>
      match command.action with
      | .openBlock _ => blockEnd (place + 1) (depth + 1) rest
      | .closeBlock =>
          if depth = 0 then place + 1 else blockEnd (place + 1) (depth - 1) rest
      | _ => blockEnd (place + 1) depth rest

/-- The commands with the ends of their blocks filled in. -/
def linked (place : Nat) : List EditCommand → List EditCommand
  | [] => []
  | command :: rest =>
      let later := linked (place + 1) rest
      match command.action with
      | .openBlock _ =>
          { command with action := .openBlock (blockEnd (place + 1) 0 rest) } ::
            later
      | _ => command :: later

/-- The label of a jump that no command has. -/
def missingLabel? (script : List EditCommand) : Option String :=
  script.findSome? fun command =>
    match command.action with
    | .branch name | .branchIfChanged name | .branchIfUnchanged name =>
        if name.isEmpty || script.any fun other => other.action = .label name then
          none
        else some name
    | _ => none

/-- The commands of several expressions, or what is wrong with them. -/
def editScript (extended : Bool) (expressions : List String) :
    Except String (List EditCommand) :=
  let source := ("\n".intercalate expressions).toList
  match commands extended (source.length + 2) 0 source with
  | .ok found =>
      match missingLabel? found with
      | some name => .error s!"can't find label for jump to \x60{name}'"
      | none => .ok (linked 0 found)
  | .error ⟨none, text⟩ => .error ("-e expression #1, char 0: " ++ text)
  | .error ⟨some left, text⟩ =>
      let read := source.length - left
      let (number, place) :=
        expressions.foldl
          (fun (number, place) expression =>
            if expression.length < place then
              (number + 1, place - expression.length - 1)
            else (number, place))
          (1, read)
      .error s!"-e expression #{number}, char {place}: {text}"

end PackageLayers.Program.Filter

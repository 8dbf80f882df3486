/-
Purpose: What the commands of scripts do.
Main exports: runCommand, runLines, atEnd
-/
import PackageLayers.Program.Distribution
import PackageLayers.Program.Launch
import PackageLayers.Program.Process
import PackageLayers.Program.Script
import PackageLayers.Program.Utility
import PackageLayers.Program.Utility.Search

namespace PackageLayers.Program

/-!
Commands are run one after the other.  A fault in a word, in the text of a script
or in a special utility ends the script; other faults are the status of their
command.  With the switch for it, a command that fails ends the script too,
unless its status is looked at: `tested` says that it is.

A part of a script that runs on its own cannot change the variables and channels
of the rest, but shares its surroundings.

Commands are run on a number of rounds.  Every turn of a loop and every call of a
function takes some of the effort that a script is given, so that rounds that are
more than the effort suffice.
-/

/-- A text as parts of a word. -/
def textParts (quoted splits : Bool) (text : String) : List FieldPart :=
  text.toList.map fun c => .char c (!quoted) (splits && !quoted)

/-- A text without line ends at its end. -/
def withoutLineEnds (chars : List Char) : String :=
  String.ofList (Text.dropTrailing (· == '\n') chars)

namespace Shell

/-- The arguments as parts of a word, each a field. -/
def argumentParts (shell : Shell) (quoted : Bool) : List FieldPart :=
  [FieldPart.cut].intercalate
    (shell.arguments.map fun argument =>
      (if quoted then [FieldPart.mark] else []) ++ textParts quoted true argument)

/-- The arguments as one text. -/
def joinedArguments (shell : Shell) : String :=
  let separator :=
    match shell.valueOf? "IFS" with
    | some chars => String.ofList (chars.toList.take 1)
    | none => " "
  separator.intercalate shell.arguments

/-- The value of a parameter as parts of a word, if it has one; `full` says that
the word is cut into fields. -/
def valueParts? (shell : Shell) (name : String) (quoted full : Bool) :
    Option (List FieldPart) :=
  if name = "@" || name = "*" then
    if full && (name = "@" || !quoted) then some (shell.argumentParts quoted)
    else some (textParts quoted full shell.joinedArguments)
  else (shell.parameter? name).map (textParts quoted full)

/-- A word with the path of the home directory for a tilde at its start. -/
def withHome (shell : Shell) (word : Word) : Word :=
  match word with
  | .text content false :: rest =>
      match content.toList, shell.valueOf? "HOME" with
      | '~' :: after, some home =>
          if after.head? = some '/' || (after.isEmpty && rest.isEmpty) then
            .text home true :: .text (String.ofList after) false :: rest
          else word
      | _, _ => word
  | _ => word

/-- The shell with documents and places as a reader left them. -/
def withTables (shell : Shell) (reader : ScriptReader) : Shell :=
  { shell with
    documents := reader.documents ++ shell.documents
    places := reader.places
    reached := reader.line }

/-- The reader at the start of a text. -/
def readerOf (shell : Shell) (chars : List Char) : ScriptReader :=
  { ScriptReader.ofChars chars with places := shell.places }

/-- End the script if a command failed that it may not. -/
def settled (shell : Shell) (tested : Bool) : Shell :=
  if shell.switches.exitsOnFailure && !tested && shell.isGoing &&
      shell.status ≠ 0 then
    { shell with flow := .exiting }
  else shell

/-- Whether the first of some words is plainly the name of a function. -/
def isFunctionCall (shell : Shell) (words : List Word) : Bool :=
  match words with
  | [.text name _] :: _ => shell.functions.any fun entry => entry.1 == name
  | _ => false

/-- The shell with a variable set, or the script ended if it is fixed. -/
def assign (shell : Shell) (name value : String) : Shell :=
  match shell.assign? name value with
  | some shell => shell
  | none => shell.fatal (name ++ ": is read only")

/-- The shell with a variable that programs are told of. -/
def exporting (shell : Shell) (name : String) : Shell :=
  shell.bind name
    ((shell.binding? name).map fun binding => { binding with exported := true })

/-- The shell with variables as they were before. -/
def restored (shell : Shell) (old : List (String × Option Binding)) : Shell :=
  old.foldl (fun (shell : Shell) entry => shell.bind entry.1 entry.2) shell

/-- What is missing from a parameter without a value. -/
def unsetMessage (ifEmpty : Bool) (message : String) : String :=
  if !message.isEmpty then message
  else if ifEmpty then "parameter not set or null"
  else "parameter not set"

/-- The value of a formula, or the script ended by its fault. -/
def computed (shell : Shell) (source : String) : String × Shell :=
  let look (name : String) : String := (shell.valueOf? name).getD ""
  let result :=
    (Formula.ofText source).bind fun formula => Formula.value look formula []
  match result with
  | .ok (value, assigned) =>
      (toString value,
        assigned.reverse.foldl
          (fun (shell : Shell) entry => shell.assign entry.1 (toString entry.2))
          shell)
  | .error fault => ("", shell.fatal (fault.message source))

/-- Connect a channel to a file that is read; none if it cannot be. -/
def openToRead (shell : Shell) (number : Nat) (name : String) : Bool × Shell :=
  let supplied (octets : List Char) : Bool × Shell :=
    let (stream, around) :=
      shell.around.supply { parts := [(0, octets)], isFile := true }
    (true, { shell with around := around }.connect number stream)
  match name with
  | "/dev/null" => (true, shell.connect number .nowhere)
  | "/dev/stdin" =>
      (true, shell.connect number ((shell.channel 0).getD .nowhere))
  | _ =>
      match shell.entry? name with
      | some (.file file) => supplied file.content.octets
      | some .directory => supplied []
      | none =>
          (false, shell.warn ("cannot open " ++ name ++ ": No such file"))

/-- Connect a channel to a file that is written; none if it cannot be. -/
def openToWrite (shell : Shell) (number : Nat) (append : Bool) (name : String) :
    Bool × Shell :=
  let along (other : Nat) : Bool × Shell :=
    (true, shell.connect number ((shell.channel other).getD .nowhere))
  match name with
  | "/dev/null" => (true, shell.connect number .nowhere)
  | "/dev/stdout" | "/dev/fd/1" => along 1
  | "/dev/stderr" | "/dev/fd/2" => along 2
  | _ =>
      match shell.newLocation? name with
      | none =>
          (false,
            shell.warn ("cannot create " ++ name ++ ": Directory nonexistent"))
      | some location =>
          if shell.around.files.isDirectory location then
            (false, shell.warn ("cannot create " ++ name ++ ": Is a directory"))
          else
            let kept := append && (shell.around.files.file? location).isSome
            let shell := if kept then shell else shell.store location []
            (true, shell.connect number (.file location))

/-- Connect a channel to where another leads, or to nothing. -/
def duplicate (shell : Shell) (number : Nat) (name : String) : Bool × Shell :=
  if name = "-" then (true, shell.disconnect number)
  else
    match plainNumber? name with
    | none =>
        (false,
          { shell with line := shell.reached }.fatal
            "Syntax error: Bad fd number")
    | some other =>
        match shell.channel other with
        | some stream => (true, shell.connect number stream)
        | none => (false, shell.warn (name ++ ": Bad file descriptor"))

/-- Write the commands that are run if they are to be traced. -/
def traced (shell : Shell) (assignments : List (String × String))
    (fields : List String) : Shell :=
  if shell.switches.traces then
    let assigned :=
      assignments.map fun entry => entry.1 ++ "=" ++ entry.2
    shell.complain ("+ " ++ " ".intercalate (assigned ++ fields))
  else shell

end Shell

/-- How a shell is started: with the text of a script or its file, and its
switches. -/
structure Invocation where
  switches : Switches := {}
  isText : Bool := false
  rest : List String := []

/-- What the arguments of a shell ask for; none if an option is unknown. -/
def Invocation.ofArguments? (found : Invocation) :
    List String → Option Invocation
  | argument :: rest =>
      match argument.toList with
      | '-' :: letter :: letters =>
          if argument = "--" then some { found with rest := rest }
          else
            let switches :=
              (letter :: letters).foldlM
                (fun switches letter =>
                  if letter = 'c' || letter = 's' then some switches
                  else Shell.switch? switches true letter)
                found.switches
            match switches with
            | none => none
            | some switches =>
                let found :=
                  { found with
                    switches := switches
                    isText := found.isText || (letter :: letters).contains 'c' }
                if (letter :: letters).contains 's' then
                  some { found with rest := "-" :: rest }
                else ofArguments? found rest
      | _ => some { found with rest := argument :: rest }
  | [] => some found

mutual

/-- A list of pieces as parts of a word. -/
def expandPieces : (rounds : Nat) → (full splits : Bool) → List Piece → Shell →
    List FieldPart × Shell
  | 0, _, _, _, shell => ([], { shell with flow := .stuck })
  | _ + 1, _, _, [], shell => ([], shell)
  | rounds + 1, full, splits, piece :: rest, shell =>
      let (first, shell) := expandPiece rounds full splits piece shell
      if shell.isGoing then
        let (later, shell) := expandPieces rounds full splits rest shell
        (first ++ later, shell)
      else (first, shell)

/-- A piece as parts of a word; `splits` says that text is cut into fields. -/
def expandPiece : (rounds : Nat) → (full splits : Bool) → Piece → Shell →
    List FieldPart × Shell
  | 0, _, _, _, shell => ([], { shell with flow := .stuck })
  | rounds + 1, full, splits, piece, shell =>
      match piece with
      | .text content quoted =>
          (if content.isEmpty then [.mark] else textParts quoted splits content,
            shell)
      | .parameter name change operand quoted =>
          expandParameter rounds full name change operand quoted shell
      | .output body quoted =>
          let (text, shell) := outputOf rounds body shell
          (textParts quoted full text, shell)
      | .formula source quoted =>
          let (text, shell) := expandText rounds source shell
          if shell.isGoing then
            let (value, shell) := shell.computed text
            (textParts quoted full value, shell)
          else ([], shell)
      | .badSubstitution => ([], shell.fatal "Bad substitution")

/-- A parameter as parts of a word. -/
def expandParameter : (rounds : Nat) → (full : Bool) → (name : String) →
    Change → (operand : Word) → (quoted : Bool) → Shell →
    List FieldPart × Shell
  | 0, _, _, _, _, _, shell => ([], { shell with flow := .stuck })
  | rounds + 1, full, name, change, operand, quoted, shell =>
      let value := shell.valueParts? name quoted full
      let text := wholeText (value.getD [])
      let isGiven (ifEmpty : Bool) : Bool :=
        value.isSome && !(ifEmpty && text.isEmpty)
      let isRefused := value.isNone && shell.switches.refusesUnset
      let refused : List FieldPart × Shell :=
        ([], shell.fatal (name ++ ": parameter not set"))
      match change with
      | .plain => if isRefused then refused else (value.getD [], shell)
      | .length =>
          let size :=
            if name = "@" || name = "*" then
              (" ".intercalate shell.arguments).length
            else text.length
          if isRefused then refused
          else (textParts quoted full (toString size), shell)
      | .orDefault ifEmpty =>
          if isGiven ifEmpty then (value.getD [], shell)
          else expandPieces rounds full (full && !quoted) operand shell
      | .ifGiven ifEmpty =>
          if isGiven ifEmpty then
            expandPieces rounds full (full && !quoted) operand shell
          else ([], shell)
      | .orAssign ifEmpty =>
          if isGiven ifEmpty then (value.getD [], shell)
          else
            let (text, shell) := expandText rounds operand shell
            if !shell.isGoing then ([], shell)
            else if isName name then
              (textParts quoted full text, shell.assign name text)
            else ([], shell.fatal (name ++ ": bad variable name"))
      | .orFail ifEmpty =>
          if isGiven ifEmpty then (value.getD [], shell)
          else
            let (message, shell) := expandText rounds operand shell
            if !shell.isGoing then ([], shell)
            else
              ([], shell.fatal (name ++ ": " ++ Shell.unsetMessage ifEmpty message))
      | .dropFront longest =>
          if isRefused then refused
          else
            let (field, shell) := expandField rounds operand shell
            let left :=
              (Pattern.ofMarked field).dropFront longest text.toList
            (textParts quoted full (String.ofList left), shell)
      | .dropBack longest =>
          if isRefused then refused
          else
            let (field, shell) := expandField rounds operand shell
            let left := (Pattern.ofMarked field).dropBack longest text.toList
            (textParts quoted full (String.ofList left), shell)

/-- A word as one field. -/
def expandField : (rounds : Nat) → Word → Shell → Field × Shell
  | 0, _, shell => ([], { shell with flow := .stuck })
  | rounds + 1, word, shell =>
      let (parts, shell) := expandPieces rounds false false word shell
      (wholeField parts, shell)

/-- A word as one text. -/
def expandText : (rounds : Nat) → Word → Shell → String × Shell
  | 0, _, shell => ("", { shell with flow := .stuck })
  | rounds + 1, word, shell =>
      let word := shell.withHome word
      let (parts, shell) := expandPieces rounds false false word shell
      (wholeText parts, shell)

/-- The fields of words; `assigns` says that an assignment among them is one
field. -/
def expandWords : (rounds : Nat) → (assigns : Option Bool) → List Word → Shell →
    List String × Shell
  | 0, _, _, shell => ([], { shell with flow := .stuck })
  | _ + 1, _, [], shell => ([], shell)
  | rounds + 1, assigns, word :: rest, shell =>
      let (fields, shell) :=
        match if assigns = some true then ScriptReader.assignment? word else none
        with
        | some (name, value) =>
            let (text, shell) := expandText rounds value shell
            ([name ++ "=" ++ text], shell)
        | none =>
            let word := shell.withHome word
            let (parts, shell) := expandPieces rounds true false word shell
            ((fieldsOf shell.separators parts).flatMap shell.fileNames, shell)
      if shell.isGoing then
        let assigns :=
          assigns.or
            (fields.head?.map fun first =>
              ["export", "readonly", "local"].contains first)
        let (later, shell) := expandWords rounds assigns rest shell
        (fields ++ later, shell)
      else (fields, shell)

/-- What a command writes, without line ends at its end. -/
def outputOf : (rounds : Nat) → Command → Shell → String × Shell
  | 0, _, shell => ("", { shell with flow := .stuck })
  | rounds + 1, body, shell =>
      let (stream, around) := shell.around.capture
      let inner := { shell.own with around := around }.connect 1 stream
      let part := runAlone rounds false body inner
      let ends := part.around.closing stream (some part.around.time)
      let joined := (shell.rejoin part).reconnected shell
      let joined := if joined.isGoing then joined.await ends else joined
      (withoutLineEnds ((part.around.caught stream).flatMap Prod.snd),
        { joined with status := shell.status, lastOutput := part.status })

/-- Set variables, and tell what they were before; with `exports` programs are
told of them. -/
def assignAll : (rounds : Nat) → (exports : Bool) → List (String × Word) →
    Shell → List (String × String) × Shell
  | 0, _, _, shell => ([], { shell with flow := .stuck })
  | _ + 1, _, [], shell => ([], shell)
  | rounds + 1, exports, (name, word) :: rest, shell =>
      let (text, shell) := expandText rounds word shell
      if !shell.isGoing then ([], shell)
      else
        let shell := shell.assign name text
        let shell := if exports then shell.exporting name else shell
        let shell := shell.spent (Shell.effortOf [text])
        if !shell.isGoing then ([], shell)
        else
          let (later, shell) := assignAll rounds exports rest shell
          ((name, text) :: later, shell)

/-- Make redirections; whether all of them could be made. -/
def redirectAll : (rounds : Nat) → List Redirection → Shell → Bool × Shell
  | 0, _, shell => (false, { shell with flow := .stuck })
  | _ + 1, [], shell => (true, shell)
  | rounds + 1, .document number place :: rest, shell =>
      let word := (Surroundings.valueAt place shell.documents).getD []
      let (text, shell) := expandText rounds word shell
      let (stream, around) := shell.around.supply { parts := [(0, text.toList)] }
      let shell := { shell with around := around }.connect number stream
      if shell.isGoing then redirectAll rounds rest shell else (false, shell)
  | rounds + 1, .file number direction word :: rest, shell =>
      let (name, shell) := expandText rounds word shell
      if !shell.isGoing then (false, shell)
      else
        let (made, shell) :=
          match direction with
          | .read | .readWrite => shell.openToRead number name
          | .write => shell.openToWrite number false name
          | .append => shell.openToWrite number true name
          | .duplicate => shell.duplicate number name
        if made then redirectAll rounds rest shell else (false, shell)

/-- Run a command that cannot change the shell around it, with what it does at
its end. -/
def runAlone : (rounds : Nat) → (tested : Bool) → Command → Shell → Shell
  | 0, _, _, shell => { shell with flow := .stuck }
  | rounds + 1, tested, body, shell =>
      atEnd rounds (runCommand rounds tested body shell)

/-- What a shell does at its end. -/
def atEnd : (rounds : Nat) → Shell → Shell
  | 0, shell => { shell with flow := .stuck }
  | rounds + 1, shell =>
      match shell.flow, shell.traps.find? fun entry => entry.1 == "EXIT" with
      | .killed _, _ | .stuck, _ | _, none => shell
      | _, some entry =>
          let ended :=
            runText rounds false entry.2.toList
              { shell with
                traps := shell.traps.filter fun other => other.1 != "EXIT"
                flow := .going
                within := none }
          if ended.flow == .exiting then ended
          else ended.withStatus shell.status

/-- Run the text of a script in a shell. -/
def runText : (rounds : Nat) → (tested : Bool) → List Char → Shell → Shell
  | 0, _, _, shell => { shell with flow := .stuck }
  | rounds + 1, tested, chars, shell =>
      let line := shell.line
      let ran := runLines rounds tested (shell.readerOf chars) false shell
      { ran with line := line, reached := shell.reached }

/-- Run the lines of a script; `ran` says that some were run. -/
def runLines : (rounds : Nat) → (tested : Bool) → ScriptReader → (ran : Bool) →
    Shell → Shell
  | 0, _, _, _, shell => { shell with flow := .stuck }
  | rounds + 1, tested, reader, ran, shell =>
      match reader.next? with
      | .error fault =>
          { shell with line := fault.line }.fatal
            ("Syntax error: " ++ fault.fault.message)
      | .ok (none, _) => if ran then shell else shell.withStatus 0
      | .ok (some command, reader) =>
          let shell := runCommand rounds tested command (shell.withTables reader)
          if shell.isGoing then
            let isIdle :=
              match command with
              | .nothing => true
              | _ => false
            runLines rounds tested { reader with documents := [] }
              (ran || !isIdle) shell
          else shell

/-- Run a command. -/
def runCommand : (rounds : Nat) → (tested : Bool) → Command → Shell → Shell
  | 0, _, _, shell => { shell with flow := .stuck }
  | rounds + 1, tested, command, shell =>
      if !shell.isGoing then shell
      else
        match command with
        | .nothing => shell
        | .simple line assignments words redirections =>
            runSimple rounds tested assignments words redirections
              { shell with line := line }
        | .redirected line body redirections =>
            let before := { shell with line := line }
            let (made, shell) := redirectAll rounds redirections before
            let ran :=
              if made then runCommand rounds tested body shell
              else if shell.isGoing then shell.withStatus 2
              else shell
            ran.reconnected before
        | .subshell body =>
            (shell.rejoin (runAlone rounds tested body shell.own)).settled tested
        | .background body =>
            shell.beside
              (runBeside rounds body
                ({ shell.own with around := Shell.forProcess shell.around }.connect
                  0 .nowhere))
        | .negated body =>
            let ran := runCommand rounds true body shell
            if ran.isGoing then ran.withStatus (if ran.status = 0 then 1 else 0)
            else ran
        | .pipe left right =>
            (runPipe rounds tested left right shell).settled tested
        | .both first second =>
            let ran := runCommand rounds true first shell
            if ran.isGoing && ran.status = 0 then
              runCommand rounds tested second ran
            else ran
        | .either first second =>
            let ran := runCommand rounds true first shell
            if ran.isGoing && ran.status ≠ 0 then
              runCommand rounds tested second ran
            else ran
        | .sequence first second =>
            runCommand rounds tested second
              (runCommand rounds tested first shell)
        | .conditional test yes no =>
            let ran := runCommand rounds true test shell
            if !ran.isGoing then ran
            else if ran.status = 0 then runCommand rounds tested yes ran
            else
              match no with
              | .nothing => ran.withStatus 0
              | _ => runCommand rounds tested no ran
        | .loop wanted test body =>
            let ran :=
              runLoop rounds wanted test body tested 0
                { shell with loops := shell.loops + 1 }
            { ran with loops := shell.loops }
        | .each line name words body =>
            let (fields, shell) :=
              expandWords rounds (some false) words { shell with line := line }
            if !shell.isGoing then shell
            else
              let ran :=
                runEach rounds name fields body tested
                  { shell with
                    loops := shell.loops + 1
                    status := if fields.isEmpty then 0 else shell.status }
              { ran with loops := shell.loops }
        | .choice line subject branches =>
            let (text, shell) :=
              expandText rounds subject { shell with line := line }
            if !shell.isGoing then shell
            else runBranches rounds tested text.toList branches shell
        | .define line name body =>
            let others :=
              shell.functions.filter fun entry => entry.1 != name
            { shell with
              functions := (name, (line, body)) :: others
              status := 0 }

/-- Run a command beside those that follow, which do not wait for it.  Its
redirections hold for its process. -/
def runBeside : (rounds : Nat) → Command → Shell → Shell
  | 0, _, shell => { shell with flow := .stuck }
  | rounds + 1, body, shell =>
      let redirected (line : Nat) (redirections : List Redirection)
          (body : Command) : Shell :=
        let (made, shell) :=
          redirectAll rounds redirections { shell with line := line }
        if made then runBeside rounds body shell
        else if shell.isGoing then shell.withStatus 2
        else shell
      match body with
      | .redirected line body redirections => redirected line redirections body
      | .subshell body => runBeside rounds body shell
      | .simple line assignments words (first :: rest) =>
          if shell.isFunctionCall words then runAlone rounds false body shell
          else
            redirected line (first :: rest)
              (.simple line assignments words [])
      | _ => runAlone rounds false body shell

/-- Run two commands at the same time, where the second reads what the first
writes. -/
def runPipe : (rounds : Nat) → (tested : Bool) → (left right : Command) →
    Shell → Shell
  | 0, _, _, _, shell => { shell with flow := .stuck }
  | rounds + 1, tested, left, right, shell =>
      let start := shell.around
      let (pipe, around) := start.capture
      let writer :=
        runAlone rounds tested left
          ({ shell.own with around := Shell.forProcess around }.connect 1 pipe)
      let isEndless := writer.flow == .stuck
      let between := shell.rejoin writer
      if !between.isGoing && !isEndless then between
      else
        let written := writer.around.caught pipe
        let ends :=
          if isEndless then none else some writer.around.time
        let (input, around) :=
          { writer.around with
            time := start.time
            process := start.process
            effort := Shell.effortAfter start.effort writer }.supply
            { parts := written, ends := writer.around.closing pipe ends }
        let reader :=
          runAlone rounds tested right
            ({ shell.own with around := around }.connect 0 input)
        let joined := (shell.rejoin reader).reconnected shell
        if !joined.isGoing then joined
        else
          let ends := Shell.writerEnd written ends reader.around.time
          let stopped :=
            match ends with
            | some time =>
                { joined with
                  around := joined.around.cutOff writer.around.process time }
            | none => joined
          stopped.await
            (laterTime ends (some reader.around.time))

/-- Run a loop; `status` is that of its last turn. -/
def runLoop : (rounds : Nat) → (wanted : Bool) → (test body : Command) →
    (tested : Bool) → (status : Nat) → Shell → Shell
  | 0, _, _, _, _, _, shell => { shell with flow := .stuck }
  | rounds + 1, wanted, test, body, tested, status, shell =>
      let shell := runCommand rounds true test shell
      match shell.flow with
      | .going =>
          if (shell.status == 0) == wanted then
            let (goesOn, shell) := (runCommand rounds tested body shell).afterTurn
            if goesOn then
              runLoop rounds wanted test body tested shell.status shell
            else shell
          else shell.withStatus status
      | _ =>
          let (goesOn, shell) := shell.afterTurn
          if goesOn then runLoop rounds wanted test body tested status shell
          else shell

/-- Run a command for each of some values of a variable. -/
def runEach : (rounds : Nat) → (name : String) → List String →
    (body : Command) → (tested : Bool) → Shell → Shell
  | 0, _, _, _, _, shell => { shell with flow := .stuck }
  | _ + 1, _, [], _, _, shell => shell
  | rounds + 1, name, value :: rest, body, tested, shell =>
      let shell := shell.assign name value
      let (goesOn, shell) := (runCommand rounds tested body shell).afterTurn
      if goesOn then runEach rounds name rest body tested shell else shell

/-- Run the first branch of which a pattern accepts a text. -/
def runBranches : (rounds : Nat) → (tested : Bool) → (text : List Char) →
    List (List Word × Command) → Shell → Shell
  | 0, _, _, _, shell => { shell with flow := .stuck }
  | _ + 1, _, _, [], shell => shell.withStatus 0
  | rounds + 1, tested, text, (patterns, body) :: rest, shell =>
      let (found, shell) := acceptsAny rounds text patterns shell
      if !shell.isGoing then shell
      else if found then
        match body with
        | .nothing => shell.withStatus 0
        | _ => runCommand rounds tested body shell
      else runBranches rounds tested text rest shell

/-- Whether one of some patterns accepts a text. -/
def acceptsAny : (rounds : Nat) → (text : List Char) → List Word → Shell →
    Bool × Shell
  | 0, _, _, shell => (false, { shell with flow := .stuck })
  | _ + 1, _, [], shell => (false, shell)
  | rounds + 1, text, word :: rest, shell =>
      let (field, shell) := expandField rounds (shell.withHome word) shell
      if !shell.isGoing then (false, shell)
      else if (Pattern.ofMarked field).accepts text then (true, shell)
      else acceptsAny rounds text rest shell

/-- Run a command of words. -/
def runSimple : (rounds : Nat) → (tested : Bool) → List (String × Word) →
    List Word → List Redirection → Shell → Shell
  | 0, _, _, _, _, shell => { shell with flow := .stuck }
  | rounds + 1, tested, assignments, words, redirections, shell =>
      let (fields, shell) :=
        expandWords rounds none words { shell with lastOutput := 0 }
      if !shell.isGoing then shell
      else
        let shell := shell.spent (Shell.effortOf fields)
        if !shell.isGoing then shell
        else
          let before := shell
          let (made, shell) := redirectAll rounds redirections shell
          if !shell.isGoing then shell.reconnected before
          else if !made then
            let isSpecial := fields.head?.any specialUtilities.contains
            let failed := (shell.reconnected before).withStatus 2
            if isSpecial then { failed with flow := .exiting }
            else failed.settled tested
          else
            match fields with
            | [] =>
                let (assigned, shell) :=
                  assignAll rounds false assignments shell
                let ran :=
                  (if assigned.isEmpty then shell else shell.traced assigned [])
                    |>.reconnected before
                if ran.isGoing then
                  (ran.withStatus ran.lastOutput).settled tested
                else ran
            | name :: arguments =>
                let ran := runNamed rounds tested assignments name arguments shell
                if name = "exec" && arguments.isEmpty then ran
                else (ran.reconnected before).settled tested

/-- Run a function or a utility by its name, after assignments that hold for it
only unless it is special. -/
def runNamed : (rounds : Nat) → (tested : Bool) → List (String × Word) →
    (name : String) → (arguments : List String) → Shell → Shell
  | 0, _, _, _, _, shell => { shell with flow := .stuck }
  | rounds + 1, tested, assignments, name, arguments, shell =>
      let isSpecial := specialUtilities.contains name
      let old := assignments.map fun entry => (entry.1, shell.binding? entry.1)
      let (assigned, shell) :=
        assignAll rounds (!isSpecial) assignments shell
      if !shell.isGoing then shell
      else
        let shell := shell.traced assigned (name :: arguments)
        if isSpecial then runBuiltin rounds tested name arguments shell
        else
          let ran :=
            match shell.functions.find? fun entry => entry.1 == name with
            | some entry =>
                runFunction rounds tested entry.2.2 arguments shell
            | none => runUtility rounds tested name arguments shell
          ran.restored old

/-- Run a utility of the shell or a program. -/
def runUtility : (rounds : Nat) → (tested : Bool) → (name : String) →
    (arguments : List String) → Shell → Shell
  | 0, _, _, _, shell => { shell with flow := .stuck }
  | rounds + 1, tested, name, arguments, shell =>
      if isBuiltin name then runBuiltin rounds tested name arguments shell
      else runProgram rounds name arguments shell

/-- Run a function. -/
def runFunction : (rounds : Nat) → (tested : Bool) → (body : Command) →
    (arguments : List String) → Shell → Shell
  | 0, _, _, _, shell => { shell with flow := .stuck }
  | rounds + 1, tested, body, arguments, shell =>
      if 1000 ≤ shell.depth then
        shell.fatal "Maximum function recursion depth (1000) reached"
      else
        let ran :=
          runCommand rounds tested body
            { shell with
              arguments := arguments
              saved := [] :: shell.saved
              loops := 0
              depth := shell.depth + 1 }
        let ran := ran.restored (ran.saved.headD [])
        { ran with
          arguments := shell.arguments
          saved := shell.saved
          loops := shell.loops
          depth := shell.depth
          flow := if ran.flow == .returning then .going else ran.flow }

/-- Run a utility of the shell. -/
def runBuiltin : (rounds : Nat) → (tested : Bool) → (name : String) →
    (arguments : List String) → Shell → Shell
  | 0, _, _, _, shell => { shell with flow := .stuck }
  | rounds + 1, tested, name, arguments, shell =>
      match name with
      | "eval" =>
          let text := (" ".intercalate arguments).toList
          let ran :=
            runText rounds tested text { shell with within := some name }
          { ran with within := shell.within }
      | "." => runFileHere rounds arguments shell
      | "exec" =>
          match arguments with
          | [] => shell.withStatus 0
          | program :: rest =>
              match shell.program? program with
              | none =>
                  (shell.warnAs (some name) (program ++ ": not found")).stopped
                    127
              | some _ =>
                  let ran := runProgram rounds program rest { shell with traps := [] }
                  if ran.isGoing then { ran with flow := .exiting } else ran
      | "command" =>
          match arguments with
          | "-v" :: names =>
              shell.describe Shell.meaning? (fun _ => none) (names.take 1)
          | "-V" :: names =>
              shell.describe Shell.description?
                (fun name => some (name ++ ": not found")) (names.take 1)
          | _ =>
              match arguments.dropWhile fun word => word = "-p" || word = "--" with
              | [] => shell.withStatus 0
              | utility :: rest =>
                  let ran := runUtility rounds tested utility rest shell
                  if ran.flow == .exiting && utility ≠ "exit" &&
                      utility ≠ "exec" && utility ≠ "eval" && utility ≠ "." then
                    { ran with flow := .going }
                  else ran
      | "type" =>
          shell.describe Shell.description?
            (fun name => some (name ++ ": not found")) arguments
      | "kill" =>
          let ran := (shell.builtin? name arguments).getD shell
          match ran.flow with
          | .killed number =>
              match ran.traps.find? fun entry =>
                  signalNumber? entry.1 = some number && number ≠ 9 with
              | some entry =>
                  let shell := shell.withStatus 0
                  if entry.2.isEmpty then shell
                  else
                    let ended := runText rounds false entry.2.toList shell
                    if ended.isGoing then ended.withStatus 0 else ended
              | none => ran
          | _ => ran
      | _ => (shell.builtin? name arguments).getD (shell.withStatus 127)

/-- Run the script in a file as a part of this one. -/
def runFileHere : (rounds : Nat) → (arguments : List String) → Shell → Shell
  | 0, _, shell => { shell with flow := .stuck }
  | rounds + 1, arguments, shell =>
      match arguments with
      | [] => shell.fatalIn "." "filename argument required"
      | name :: _ =>
          let path :=
            if name.contains '/' then some name
            else
              (Text.pieces (· == ':') ((shell.valueOf? "PATH").getD "")).findSome?
                fun directory =>
                  let path := directory ++ "/" ++ name
                  if (shell.file? path).isSome then some path else none
          match path with
          | none => shell.fatalIn "." (name ++ ": not found")
          | some path =>
              match shell.file? path with
              | none =>
                  shell.fatalIn "." ("cannot open " ++ path ++ ": No such file")
              | some file =>
                  let ran :=
                    runText rounds false file.content.octets
                      { shell with within := some path }
                  { ran with
                    within := shell.within
                    flow := if ran.flow == .returning then .going else ran.flow }

/-- Run a program, which is one of the system or a script. -/
def runProgram : (rounds : Nat) → (name : String) →
    (arguments : List String) → Shell → Shell
  | 0, _, _, shell => { shell with flow := .stuck }
  | rounds + 1, name, arguments, shell =>
      match shell.program? name with
      | none => (shell.warn (name ++ ": not found")).withStatus 127
      | some (.locked _) =>
          (shell.warn (name ++ ": Permission denied")).withStatus 127
      | some (.system _) =>
          let last := (Shell.splitName name).2
          match last with
          | "sh" | "bash" | "dash" => runShell rounds last arguments shell
          | "xargs" => runDistributed rounds arguments shell
          | "find" => runSearch rounds arguments shell
          | "which" =>
              let found (name : String) : Option String :=
                ((shell.searched? name).filter fun place => !place.isLocked).map
                  fun place => Shell.placeText place name
              let shown :=
                arguments.foldl
                  (fun (shell : Shell) name =>
                    ((found name).map shell.say).getD shell) shell
              shown.withStatus
                (if arguments.all fun name => (found name).isSome then 0 else 1)
          | _ =>
              if launchers.contains last then
                runLaunch rounds last arguments shell
              else if isBuiltin last then
                (shell.builtin? last arguments).getD (shell.withStatus 127)
              else (shell.utility? last arguments).getD (shell.withStatus 127)
      | some (.file path) =>
          match shell.file? path with
          | some file =>
              if file.executable then
                finished rounds shell
                  (runText rounds false file.content.octets
                    (shell.child path arguments))
              else (shell.warn (name ++ ": Permission denied")).withStatus 126
          | none =>
              if shell.isDirectory path then
                (shell.warn (name ++ ": Permission denied")).withStatus 126
              else (shell.warn (name ++ ": not found")).withStatus 127

/-- The shell after a shell that it started has run its script. -/
def finished : (rounds : Nat) → (shell ran : Shell) → Shell
  | 0, shell, _ => { shell with flow := .stuck }
  | rounds + 1, shell, ran =>
      let ended := atEnd rounds ran
      match ended.flow with
      | .killed number =>
          let joined := { shell with around := ended.around, status := 128 + number }
          match signalDescription? number with
          | some text => joined.complain text
          | none => joined
      | _ => shell.rejoin ended

/-- Run another shell. -/
def runShell : (rounds : Nat) → (name : String) → (arguments : List String) →
    Shell → Shell
  | 0, _, _, shell => { shell with flow := .stuck }
  | rounds + 1, name, arguments, shell =>
      match Invocation.ofArguments? {} arguments with
      | none =>
          shell.trouble 2 (name ++ ": 0: Illegal option " ++ arguments.headD "")
      | some invocation =>
          let started (label : String) (arguments : List String)
              (text : List Char) (shell : Shell) : Shell :=
            finished rounds shell
              (runText rounds false text
                { shell.child label arguments with
                  switches := invocation.switches })
          match invocation.isText, invocation.rest with
          | true, text :: label :: arguments =>
              started label arguments text.toList shell
          | true, [text] => started name [] text.toList shell
          | true, [] =>
              shell.trouble 2 (name ++ ": 0: -c requires an argument")
          | false, "-" :: arguments =>
              started name arguments shell.input shell.readAll
          | false, [] => started name [] shell.input shell.readAll
          | false, path :: arguments =>
              match shell.file? path with
              | some file => started path arguments file.content.octets shell
              | none =>
                  shell.trouble 2
                    (name ++ ": 0: cannot open " ++ path ++ ": No such file")

/-- Run a program in the setting that another program makes for it. -/
def runLaunch : (rounds : Nat) → (utility : String) →
    (arguments : List String) → Shell → Shell
  | 0, _, _, shell => { shell with flow := .stuck }
  | rounds + 1, utility, arguments, shell =>
      match Launch.ofArguments utility arguments with
      | .error complaint => shell.trouble (Launch.failing utility) complaint
      | .ok launch =>
          let inside := shell.launched launch
          match launch.directory.filter fun name => !shell.isDirectory name,
              launch.command with
          | some name, _ =>
              shell.trouble 125
                (s!"env: cannot change directory to " ++ quotedName name ++ ": " ++
                  shell.obstacleText name)
          | none, [] =>
              let texts :=
                if utility = "nice" then ["0\n"]
                else
                  inside.exported.map fun entry =>
                    entry.1 ++ "=" ++ entry.2 ++ launch.ending
              (texts.foldl
                (fun (shell : Shell) text => shell.write 1 text.toList)
                shell).withStatus 0
          | none, name :: rest =>
              match inside.refusal? name with
              | some (status, reason) =>
                  shell.trouble status (Launch.refusal utility name reason)
              | none =>
                  if launch.limit = 0 then
                    (runProgram rounds name rest inside).settingOf shell
                  else
                    let ran :=
                      runProgram rounds name rest
                        { inside with around := Shell.forProcess shell.around }
                    (shell.stoppedAt (ran.settingOf shell)
                      (shell.around.time + launch.limit) launch.lateStatus)

/-- Run the commands that an input asks for. -/
def runDistributed : (rounds : Nat) → (arguments : List String) → Shell → Shell
  | 0, _, shell => { shell with flow := .stuck }
  | rounds + 1, arguments, shell =>
      match Distribution.ofArguments arguments with
      | .error fault =>
          shell.trouble 1 ("xargs: " ++ fault.message ++ hintFor "xargs")
      | .ok found =>
          match found.commands? shell.input with
          | .error complaint => shell.readAll.trouble 1 complaint
          | .ok commands =>
              let ran :=
                runRepeatedly rounds found.traces commands
                  ((shell.readAll.withStatus 0).connect 0 .nowhere)
              { ran with channels := shell.channels }

/-- Search for files and do with them what is asked for. -/
def runSearch : (rounds : Nat) → (arguments : List String) → Shell → Shell
  | 0, _, shell => { shell with flow := .stuck }
  | rounds + 1, arguments, shell =>
      match shell.searched arguments with
      | .error complaint => shell.trouble 1 complaint
      | .ok (complaints, acts) =>
          let ran := runActs rounds acts [] (shell.withStatus 0)
          if ran.isGoing then
            complaints.foldl
              (fun (shell : Shell) complaint => shell.trouble 1 complaint) ran
          else ran

/-- Do what a search asks for; the names that are gathered for a command come
last. -/
def runActs : (rounds : Nat) → List SearchAct →
    (gathered : List (List String × List String)) → Shell → Shell
  | 0, _, _, shell => { shell with flow := .stuck }
  | _ + 1, [], [], shell => shell
  | rounds + 1, [], (words, names) :: rest, shell =>
      let ran := runFound rounds (words ++ names) shell
      let status := if ran.status = 0 then shell.status else 1
      if ran.isGoing then runActs rounds [] rest (ran.withStatus status) else ran
  | rounds + 1, act :: acts, gathered, shell =>
      match act with
      | .say text => runActs rounds acts gathered (shell.write 1 text.toList)
      | .delete name location =>
          let shell :=
            if (namesIn shell.around.files location).isEmpty then
              shell.withFiles (shell.around.files.removeUnder location)
            else
              shell.trouble 1
                ("find: cannot delete " ++ quotedName name ++
                  ": Directory not empty")
          runActs rounds acts gathered shell
      | .run words =>
          let ran := runFound rounds words shell
          if ran.isGoing then
            runActs rounds acts gathered (ran.withStatus shell.status)
          else ran
      | .gather words name =>
          let gathered :=
            if gathered.any fun entry => entry.1 == words then
              gathered.map fun entry =>
                if entry.1 == words then (words, entry.2 ++ [name]) else entry
            else gathered ++ [(words, [name])]
          runActs rounds acts gathered shell

/-- Run a command for what a search found. -/
def runFound : (rounds : Nat) → List String → Shell → Shell
  | 0, _, shell => { shell with flow := .stuck }
  | _ + 1, [], shell => shell
  | rounds + 1, name :: arguments, shell =>
      match shell.refusal? name with
      | some (_, reason) =>
          shell.trouble 1 ("find: " ++ quotedName name ++ ": " ++ reason)
      | none => runProgram rounds name arguments (shell.spent 1)

/-- Run programs one after the other, up to one that cannot be run or asks to
stop. -/
def runRepeatedly : (rounds : Nat) → (traces : Bool) → List (List String) →
    Shell → Shell
  | 0, _, _, shell => { shell with flow := .stuck }
  | _ + 1, _, [], shell => shell
  | rounds + 1, traces, [] :: rest, shell =>
      runRepeatedly rounds traces rest shell
  | rounds + 1, traces, (name :: arguments) :: rest, shell =>
      let before := shell.status
      let shell :=
        if traces then shell.complain (" ".intercalate (name :: arguments))
        else shell
      match shell.refusal? name with
      | some (status, reason) =>
          shell.trouble status (s!"xargs: {name}: {reason}")
      | none =>
          let ran := runProgram rounds name arguments (shell.spent 1)
          if !ran.isGoing then ran
          else if ran.status = 255 then
            ran.trouble 124
              (s!"xargs: {name}: exited with status 255; aborting")
          else
            runRepeatedly rounds traces rest
              (ran.withStatus (if ran.status = 0 then before else 123))

end

end PackageLayers.Program

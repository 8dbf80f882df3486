/-
Purpose: The utilities that are part of a shell.
Main exports: Shell.builtin?, builtinNames
-/
import PackageLayers.Program.Condition
import PackageLayers.Program.Printf
import PackageLayers.Sorting

namespace PackageLayers.Program

/-!
These utilities read or change the state of the shell itself, or write a text;
none of them runs commands.  A fault of a special utility ends the script, one of
another utility is its status.
-/

/-- The utilities that are part of a shell and not special. -/
def plainBuiltins : List String :=
  ["true", "false", "echo", "printf", "test", "[", "cd", "pwd", "read", "type",
    "command", "getopts", "wait", "kill", "umask", "hash", "jobs", "ulimit"]

/-- The letters of the options of a utility, if it looks for options. -/
def optionLetters? (name : String) : Option (List Char) :=
  match name with
  | "export" | "readonly" => some ['p']
  | "unset" => some ['v', 'f']
  | "cd" | "pwd" => some ['L', 'P']
  | "read" => some ['r', 'p']
  | "umask" => some ['S']
  | "command" => some ['p', 'v', 'V']
  | "trap" | "wait" | "." | "printf" | "jobs" => some []
  | _ => none

/-- The letters of one argument after its dash, and the arguments that follow; a
letter of a value takes the rest of the argument or the next one.  The first letter
that is no option if there is one. -/
def optionCluster (letters valued : List Char) : List Char → List String →
    Except Char (List Char × List String)
  | [], rest => .ok ([], rest)
  | c :: more, rest =>
      if !letters.contains c then .error c
      else if valued.contains c then
        .ok ([c], if more.isEmpty then rest.drop 1 else rest)
      else
        (optionCluster letters valued more rest).map fun (flags, rest) =>
          (c :: flags, rest)

/-- The options in front of arguments, and the other arguments; the first letter
that is no option if there is one. -/
def leadingOptions (letters valued : List Char) :
    (rounds : Nat) → List String → Except Char (List Char × List String)
  | rounds + 1, argument :: rest =>
      match argument.toList with
      | '-' :: first :: more =>
          if argument = "--" then .ok ([], rest)
          else do
            let (flags, rest) ← optionCluster letters valued (first :: more) rest
            let (others, rest) ← leadingOptions letters valued rounds rest
            pure (flags ++ others, rest)
      | _ => .ok ([], argument :: rest)
  | _, rest => .ok ([], rest)

/-- Whether a utility is part of a shell. -/
def isBuiltin (name : String) : Bool :=
  specialUtilities.contains name || plainBuiltins.contains name

/-- A text in single quotes. -/
def inSingleQuotes (text : String) : String :=
  "'" ++ "'\"'\"'".intercalate (Text.pieces (· == '\'') text) ++ "'"

/-- A number without a sign that an argument writes. -/
def plainNumber? (text : String) : Option Nat :=
  if !text.isEmpty && text.toList.all Char.isDigit then
    let value := Text.decimal text.toList
    if value < Text.wordCount 31 then some value else none
  else none

/-- An argument as a name and what stands behind an equals sign. -/
def nameAndValue (text : String) : String × Option String :=
  let name := text.toList.takeWhile (· ≠ '=')
  match text.toList.drop name.length with
  | _ :: value => (String.ofList name, some (String.ofList value))
  | [] => (text, none)

/-- The number of a signal that an argument names. -/
def signalNumber? (text : String) : Option Nat :=
  let name := (Text.stripPrefix? "SIG" text).getD text
  match signals.find? fun entry => entry.1 == name with
  | some entry => some entry.2
  | none => (plainNumber? text).filter fun number => number < 65

/-- The line of an input up to its end: its characters, each with a mark whether
it is plain, what follows, and whether the line has an end. -/
def inputLine (raw : Bool) :
    List Char → List (Char × Bool) × List Char × Bool
  | [] => ([], [], false)
  | '\n' :: rest => ([], rest, true)
  | '\\' :: c :: rest =>
      if raw then
        let (line, after, ended) := inputLine raw (c :: rest)
        (('\\', true) :: line, after, ended)
      else
        let (line, after, ended) := inputLine raw rest
        (if c = '\n' then line else (c, false) :: line, after, ended)
  | c :: rest =>
      let (line, after, ended) := inputLine raw rest
      (if c = '\\' && !raw then line else (c, true) :: line, after, ended)

/-- A line without the separators between its first field and what follows: all
blanks, and one other separator among them. -/
def afterSeparators (separators : List Char) (line : List (Char × Bool)) :
    List (Char × Bool) :=
  let isBlank (entry : Char × Bool) : Bool :=
    entry.2 && separators.contains entry.1 && " \t\n".toList.contains entry.1
  let rest := line.dropWhile isBlank
  match rest with
  | (c, true) :: after =>
      if separators.contains c then after.dropWhile isBlank else rest
  | _ => rest

/-- A line cut into as many fields as there are names; the last has all that is
left. -/
def readFields (separators : List Char) :
    (names : List String) → List (Char × Bool) → List (String × String)
  | [], _ => []
  | name :: names, line =>
      let isSeparator (entry : Char × Bool) : Bool :=
        entry.2 && separators.contains entry.1
      let isBlank (entry : Char × Bool) : Bool :=
        isSeparator entry && " \t\n".toList.contains entry.1
      let text (part : List (Char × Bool)) : String :=
        String.ofList (part.map Prod.fst)
      let line := line.dropWhile isBlank
      let first := line.takeWhile fun entry => !isSeparator entry
      let rest := afterSeparators separators (line.drop first.length)
      if names.isEmpty then
        if rest.isEmpty then [(name, text first)]
        else [(name, text (line.reverse.dropWhile isBlank).reverse)]
      else (name, text first) :: readFields separators names rest

namespace Shell

/-- A fault of a utility that is its status. -/
def failed (shell : Shell) (utility text : String) : Shell :=
  (shell.warnAs (some utility) text).withStatus 2

/-- A fault that ends the script. -/
def fatal (shell : Shell) (text : String) : Shell :=
  (shell.warn text).stopped 2

/-- A fault of a utility that ends the script. -/
def fatalIn (shell : Shell) (utility text : String) : Shell :=
  (shell.warnAs (some utility) text).stopped 2

/-- Read a line of the input into variables. -/
def readLine (shell : Shell) (raw : Bool) (names : List String) : Shell :=
  match names.find? fun name => !isName name with
  | some name => shell.failed "read" (name ++ ": bad variable name")
  | none =>
      if names.isEmpty then shell.failed "read" "arg count"
      else
        let (line, rest, ended) := inputLine raw shell.input
        let filled :=
          (readFields shell.separators names line).foldl
            (fun (shell : Shell) entry =>
              match shell.assign? entry.1 entry.2 with
              | some shell => shell
              | none => shell.fatal (entry.1 ++ ": is read only"))
            (if ended then (shell.readUpTo rest).withStatus 0
              else shell.readAll.withStatus 1)
        filled

/-- The shell with a variable that programs are told of, or that is fixed. -/
def declare (shell : Shell) (utility : String) (exports : Bool) :
    List String → Shell
  | [] => shell.withStatus 0
  | argument :: rest =>
      let (name, value) := nameAndValue argument
      if !isName name then
        shell.fatalIn utility (name ++ ": bad variable name")
      else
        let old := (shell.binding? name).getD {}
        if old.fixed && value.isSome then
          shell.fatalIn utility (name ++ ": is read only")
        else
          let binding : Binding :=
            { value := value.or old.value
              exported := old.exported || exports
              fixed := old.fixed || !exports }
          declare (shell.bind name (some binding)) utility exports rest

/-- List the variables that satisfy a test, each as a declaration. -/
def declarations (shell : Shell) (utility : String) (test : Binding → Bool) :
    Shell :=
  let names :=
    sortBy (fun (first second : String) => decide (first ≤ second))
      ((shell.bindings.filter fun entry => test entry.2).map Prod.fst)
  let shown (name : String) : String :=
    match shell.valueOf? name with
    | some value => utility ++ name ++ "=" ++ inSingleQuotes value
    | none => utility ++ name
  (names.foldl (fun (shell : Shell) name => shell.say (shown name)) shell)
    |>.withStatus 0

/-- Variables that hold for one call of a function. -/
def declareLocal (shell : Shell) : List String → Shell
  | [] => shell.withStatus 0
  | argument :: rest =>
      match shell.saved with
      | [] => shell.fatalIn "local" "not in a function"
      | frame :: frames =>
          let (name, value) := nameAndValue argument
          if !isName name then
            shell.fatalIn "local" (name ++ ": bad variable name")
          else
            let old := shell.binding? name
            let frame :=
              if frame.any fun entry => entry.1 == name then frame
              else (name, old) :: frame
            let shell := { shell with saved := frame :: frames }
            match value with
            | none => declareLocal shell rest
            | some value =>
                match shell.assign? name value with
                | some shell => declareLocal shell rest
                | none => shell.fatal (name ++ ": is read only")

/-- Forget variables or functions. -/
def forget (shell : Shell) (functions : Bool) : List String → Shell
  | [] => shell.withStatus 0
  | name :: rest =>
      if functions then
        let kept := shell.functions.filter fun entry => entry.1 != name
        forget { shell with functions := kept } functions rest
      else if !isName name then
        shell.fatalIn "unset" (name ++ ": bad variable name")
      else if ((shell.binding? name).getD {}).fixed then
        shell.fatalIn "unset" (name ++ ": is read only")
      else forget (shell.bind name none) functions rest

/-- A switch by its letter. -/
def switch? (switches : Switches) (on : Bool) : Char → Option Switches
  | 'e' => some { switches with exitsOnFailure := on }
  | 'u' => some { switches with refusesUnset := on }
  | 'f' => some { switches with keepsPatterns := on }
  | 'a' => some { switches with exportsAll := on }
  | 'x' => some { switches with traces := on }
  | c => if "bCEhImnsvV".toList.contains c then some switches else none

/-- A switch by its name. -/
def namedSwitch? (switches : Switches) (on : Bool) (name : String) :
    Option Switches :=
  match name with
  | "errexit" => switch? switches on 'e'
  | "nounset" => switch? switches on 'u'
  | "noglob" => switch? switches on 'f'
  | "allexport" => switch? switches on 'a'
  | "xtrace" => switch? switches on 'x'
  | _ =>
      if ["ignoreeof", "interactive", "monitor", "noexec", "stdin", "verbose",
          "vi", "emacs", "noclobber", "notify", "nolog", "debug"].contains name
      then some switches
      else none

/-- Switches turned on or off by letters, of which `o` takes a name from the
arguments; the fault if there is no such switch. -/
def turned (on : Bool) : List Char → Switches → List String →
    Except String (Switches × List String)
  | [], switches, rest => .ok (switches, rest)
  | letter :: more, switches, rest =>
      if letter = 'o' then
        match rest with
        | [] => turned on more switches []
        | name :: rest =>
            match namedSwitch? switches on name with
            | some switches => turned on more switches rest
            | none => .error ("Illegal option -o " ++ name)
      else
        match switch? switches on letter with
        | some switches => turned on more switches rest
        | none => .error ("Illegal option -" ++ letter.toString)

/-- Turn switches on or off, and replace the arguments by what follows. -/
def set (shell : Shell) : (rounds : Nat) → List String → Shell
  | 0, _ => shell
  | _ + 1, [] => shell.withStatus 0
  | rounds + 1, argument :: rest =>
      let replaced (arguments : List String) : Shell :=
        { shell with arguments := arguments, status := 0 }
      let switched (on : Bool) (letters : List Char) : Shell :=
        match turned on letters shell.switches rest with
        | .ok (switches, rest) =>
            set { shell with switches := switches } rounds rest
        | .error fault => shell.fatalIn "set" fault
      match argument.toList with
      | ['-', '-'] | ['-'] => replaced rest
      | '-' :: letters => switched true letters
      | '+' :: letters => switched false letters
      | _ => replaced (argument :: rest)

/-- Change the directory. -/
def changeDirectory (shell : Shell) (arguments : List String) : Shell :=
  let wanted :=
    match arguments with
    | [] => (shell.valueOf? "HOME").getD ""
    | "-" :: _ => (shell.valueOf? "OLDPWD").getD ""
    | name :: _ => name
  let location? : Option Location :=
    match shell.locate wanted, shell.path? wanted with
    | .ok location, _ =>
        if shell.around.files.isDirectory location then some location else none
    | .error _, some path =>
        if isSystemDirectory path.text then some path.steps else none
    | .error _, none => none
  match location? with
  | some location =>
      let here := (Location.path shell.directory).text
      let there := (Location.path location).text
      let exported (value : String) : Option Binding :=
        some { value := some value, exported := true }
      let octets (text : String) := String.ofList (Text.octets text)
      let moved :=
        ({ shell with directory := location }.bind "OLDPWD"
          (exported (octets here))).bind "PWD" (exported (octets there))
      (if arguments.head? = some "-" then moved.say (octets there) else moved)
        |>.withStatus 0
  | none =>
      if wanted.isEmpty then shell.withStatus 0
      else shell.failed "cd" ("can't cd to " ++ wanted)

/-- Set what is done at signals and at the end. -/
def setTraps (shell : Shell) (arguments : List String) : Shell :=
  match arguments with
  | [] =>
      (signals.foldl
        (fun (shell : Shell) signal =>
          match shell.traps.find? fun entry => entry.1 == signal.1 with
          | some entry =>
              shell.say
                ("trap -- " ++ inSingleQuotes entry.2 ++ " " ++ entry.1)
          | none => shell)
        shell).withStatus 0
  | first :: rest =>
      let (action, names) :=
        if rest.isEmpty || (plainNumber? first).isSome then
          (none, first :: rest)
        else if first = "-" then (none, rest)
        else (some first, rest)
      names.foldl
        (fun (shell : Shell) name =>
          match signalNumber? name with
          | none =>
              (shell.complain ("trap: " ++ name ++ ": bad trap")).withStatus 1
          | some number =>
              let label :=
                ((signals.find? fun entry => entry.2 == number).map
                  Prod.fst).getD name
              let others := shell.traps.filter fun entry => entry.1 != label
              { shell with
                traps := (action.map fun text => (label, text)).toList ++ others })
        (shell.withStatus 0)

/-- The process beside the script that a text names. -/
def job? (shell : Shell) (text : String) : Option Job :=
  shell.jobs.find? fun job => toString (processNumber job.process) == text

/-- The process beside the script that a text names, if it may still run. -/
def liveJob? (shell : Shell) (text : String) : Option Job :=
  (shell.job? text).filter fun job => job.ends.all (shell.around.time ≤ ·)

/-- Stop a process beside the script by a signal. -/
def stopJob (shell : Shell) (job : Job) (signal : Nat) : Shell :=
  let now := shell.around.time
  if harmlessSignals.contains signal || job.ends.any (· ≤ now) then shell
  else
    { shell with
      around := shell.around.cutOff job.process now
      jobs := shell.jobs.map fun other =>
        if other = job then { job with ends := some now, status := 128 + signal }
        else other }

/-- What is written about a process that a signal ended, after one has waited for
it. -/
def complaintOf? (job : Job) : Option String :=
  if 128 < job.status then signalDescription? (job.status - 128) else none

/-- Wait for the end of processes beside the script: those that are named, or
all. -/
def waitFor (shell : Shell) (targets : List String) : Shell :=
  let jobs :=
    if targets.isEmpty then shell.jobs else targets.filterMap shell.job?
  let status :=
    match targets.getLast? with
    | none => 0
    | some target => ((shell.job? target).map Job.status).getD 127
  let time :=
    jobs.foldl (fun time job => laterTime time job.ends)
      (some shell.around.time)
  let waited :=
    { shell.await time with
      jobs := shell.jobs.filter fun job => !jobs.contains job }
  if !waited.isGoing then waited
  else if targets.isEmpty then waited.withStatus 0
  else
    (jobs.filterMap complaintOf?).foldl Shell.complain
      (waited.withStatus status)

/-- Send a signal, which means something for the script itself and for the
processes beside it. -/
def sendSignal (shell : Shell) (arguments : List String) : Shell :=
  let usage :=
    "Usage: kill [-s sigspec | -signum | -sigspec] [pid | job]... or\n" ++
      "kill -l [exitstatus]"
  let (name, targets) :=
    match arguments with
    | "-s" :: name :: rest => (name, rest)
    | first :: rest =>
        match Text.stripPrefix? "-" first with
        | some name => (name, rest)
        | none => ("TERM", first :: rest)
    | [] => ("TERM", [])
  match signalNumber? name with
  | none =>
      shell.failed "kill"
        ("Illegal option -" ++ String.ofList (name.toList.take 1))
  | some number =>
      if targets.isEmpty then shell.failed "kill" usage
      else
        if targets.contains (toString shell.number) then
          let isTrapped :=
            shell.traps.any fun entry => signalNumber? entry.1 = some number
          if harmlessSignals.contains number && (number = 0 || !isTrapped) then
            shell.withStatus 0
          else if haltingSignals.contains number && (number = 19 || !isTrapped)
          then { shell with flow := .stuck }
          else { shell with flow := .killed number, status := 128 + number }
        else if (targets.filterMap shell.liveJob?).isEmpty then
          (shell.warnAs (some "kill") "No such process\n").withStatus 1
        else
          (targets.filterMap shell.liveJob?).foldl
            (fun (shell : Shell) job => shell.stopJob job number)
            (shell.withStatus 0)

/-- Take the next option from the arguments. -/
def nextOption (shell : Shell) (arguments : List String) : Shell :=
  match arguments with
  | letters :: name :: given =>
      let words := if given.isEmpty then shell.arguments else given
      let index := ((shell.valueOf? "OPTIND").bind plainNumber?).getD 1
      let set (shell : Shell) (name value : String) : Shell :=
        (shell.assign? name value).getD shell
      let silent := letters.startsWith ":"
      let ended (index : Nat) : Shell :=
        set
          (set
            ({ shell with clusterPlace := 0 }.withStatus 1) "OPTIND"
            (toString index))
          name "?"
      match words[index - 1]? with
      | none => ended index
      | some word =>
          let place := max shell.clusterPlace 1
          match word.toList.drop place with
          | [] => ended index
          | c :: more =>
              if word = "--" then ended (index + 1)
              else if !word.startsWith "-" then ended index
              else
                let moved (index place : Nat) (value : String) : Shell :=
                  set
                    (set
                      ({ shell with clusterPlace := place }.withStatus 0)
                      "OPTIND" (toString index))
                    name value
                let next (value : String) : Shell :=
                  if more.isEmpty then moved (index + 1) 0 value
                  else moved index (place + 1) value
                let after :=
                  (letters.toList.dropWhile fun letter =>
                    letter ≠ c || letter = ':').drop 1
                if c = ':' || !letters.toList.contains c then
                  if silent then set (next "?") "OPTARG" c.toString
                  else
                    ((next "?").bind "OPTARG" none).complain
                      ("Illegal option -" ++ c.toString)
                else if after.head? = some ':' then
                  if !more.isEmpty then
                    set (moved (index + 1) 0 c.toString) "OPTARG"
                      (String.ofList more)
                  else
                    match words[index]? with
                    | some value =>
                        set (moved (index + 2) 0 c.toString) "OPTARG" value
                    | none =>
                        if silent then
                          set (moved (index + 1) 0 ":") "OPTARG" c.toString
                        else
                          ((moved (index + 1) 0 "?").bind "OPTARG" none).complain
                            ("No arg for -" ++ c.toString ++ " option")
                else set (next c.toString) "OPTARG" ""
  | _ => shell.failed "getopts" "Usage: getopts optstring var [arg...]"

/-- Whether a condition holds, as a status. -/
def test (shell : Shell) (utility : String) (words : List String) : Shell :=
  match shell.holds words with
  | .ok true => shell.withStatus 0
  | .ok false => shell.withStatus 1
  | .error fault => shell.failed utility fault

/-- Write formatted arguments. -/
def printFormatted (shell : Shell) (arguments : List String) : Shell :=
  match arguments with
  | [] => shell.failed "printf" "usage: printf format [arg ...]"
  | format :: values =>
      let printed := printf format values
      let shell :=
        printed.complaints.foldl
          (fun (shell : Shell) text => shell.warnAs (some "printf") text) shell
      (shell.write 1 printed.out).withStatus printed.status

/-- Drop the first arguments. -/
def shift (shell : Shell) (arguments : List String) : Shell :=
  let count := (arguments.head?.map plainNumber?).getD (some 1)
  match count with
  | none => shell.fatalIn "shift" ("Illegal number: " ++ arguments.headD "")
  | some count =>
      if shell.arguments.length < count then
        shell.fatalIn "shift" "can't shift that many"
      else
        { shell with arguments := shell.arguments.drop count, status := 0 }

/-- Leave loops, or go on with their next turn. -/
def leaveLoops (shell : Shell) (utility : String) (arguments : List String)
    (flow : Nat → Flow) : Shell :=
  match (arguments.head?.map plainNumber?).getD (some 1) with
  | some (count + 1) =>
      let levels := min (count + 1) shell.loops
      let shell := shell.withStatus 0
      if levels = 0 then shell else { shell with flow := flow levels }
  | _ => shell.fatalIn utility ("Illegal number: " ++ arguments.headD "")

/-- End a script or a function with a status. -/
def finish (shell : Shell) (utility : String) (arguments : List String)
    (flow : Flow) : Shell :=
  match arguments with
  | [] => { shell with flow := flow }
  | text :: _ =>
      match plainNumber? text with
      | some status => { shell with flow := flow, status := status }
      | none => shell.fatalIn utility ("Illegal number: " ++ text)

/-- Run a utility that is part of a shell with the options and arguments that it
is given; none if there is no such utility. -/
def withOptions? (shell : Shell) (name : String) (flags : List Char)
    (arguments : List String) : Option Shell :=
  match name with
  | ":" | "true" | "times" | "hash" | "jobs" | "ulimit" =>
      some (shell.withStatus 0)
  | "false" => some (shell.withStatus 1)
  | "echo" => some ((shell.write 1 (echoText arguments)).withStatus 0)
  | "printf" => some (shell.printFormatted arguments)
  | "test" => some (shell.test name arguments)
  | "[" =>
      if arguments.getLast? = some "]" then
        some (shell.test name arguments.dropLast)
      else some (shell.failed name "missing ]")
  | "read" =>
      let names := if flags.contains 'p' then arguments.drop 1 else arguments
      some (shell.readLine (flags.contains 'r') names)
  | "cd" => some (shell.changeDirectory arguments)
  | "pwd" =>
      let here := (Location.path shell.directory).text
      some ((shell.say (String.ofList (Text.octets here))).withStatus 0)
  | "export" =>
      if arguments.isEmpty then
        some (shell.declarations "export " Binding.exported)
      else some (shell.declare name true arguments)
  | "readonly" =>
      if arguments.isEmpty then
        some (shell.declarations "readonly " Binding.fixed)
      else some (shell.declare name false arguments)
  | "local" => some (shell.declareLocal arguments)
  | "unset" => some (shell.forget (flags.getLast? = some 'f') arguments)
  | "set" =>
      if arguments.isEmpty then some (shell.declarations "" fun _ => true)
      else some (shell.set (arguments.length + 1) arguments)
  | "shift" => some (shell.shift arguments)
  | "exit" => some (shell.finish name arguments .exiting)
  | "return" => some (shell.finish name arguments .returning)
  | "break" => some (shell.leaveLoops name arguments .breaking)
  | "continue" => some (shell.leaveLoops name arguments .continuing)
  | "trap" => some (shell.setTraps arguments)
  | "getopts" => some (shell.nextOption arguments)
  | "umask" =>
      some
        ((if arguments.isEmpty then shell.say "0022" else shell).withStatus 0)
  | "kill" => some (shell.sendSignal arguments)
  | "wait" => some (shell.waitFor arguments)
  | _ => none

/-- Run a utility that is part of a shell; none if there is no such utility. -/
def builtin? (shell : Shell) (name : String) (arguments : List String) :
    Option Shell :=
  match optionLetters? name with
  | none => shell.withOptions? name [] arguments
  | some letters =>
      let valued := if name = "read" then ['p'] else []
      match leadingOptions letters valued arguments.length arguments with
      | .ok (flags, rest) => shell.withOptions? name flags rest
      | .error letter =>
          let fault := "Illegal option -" ++ letter.toString
          some
            (if specialUtilities.contains name then shell.fatalIn name fault
              else shell.failed name fault)

end Shell

end PackageLayers.Program

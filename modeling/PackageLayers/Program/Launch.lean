/-
Purpose: Where programs are found, and the settings that they are run in.
Main exports: Launch, Launch.ofArguments, launchers, Shell.program?, Shell.meaning?,
  Shell.child
-/
import PackageLayers.Program.Builtin
import PackageLayers.Program.Filtering
import PackageLayers.Program.Token

namespace PackageLayers.Program

/-! ### Settings -/

/-!
Some programs take options, then the name of another program and its arguments.  The
setting may have other variables, another directory, or a time at which the program
is stopped.
-/

/-- The programs that run another program. -/
def launchers : List String :=
  ["env", "nice", "nohup", "setsid", "stdbuf", "timeout"]

/-- The number of milliseconds that a time with an optional unit writes. -/
def milliseconds? (text : String) : Option Nat :=
  let chars := text.toList
  let (unit, digits) :=
    match chars.getLast? with
    | some 's' => (1, chars.dropLast)
    | some 'm' => (60, chars.dropLast)
    | some 'h' => (3600, chars.dropLast)
    | some 'd' => (86400, chars.dropLast)
    | _ => (1, chars)
  let whole := digits.takeWhile (· ≠ '.')
  let fraction := (digits.drop whole.length).drop 1
  if (whole ++ fraction).isEmpty || !(whole ++ fraction).all Char.isDigit then
    none
  else
    let thousandths := (fraction ++ ['0', '0', '0']).take 3
    some (unit * (1000 * Text.decimal whole + Text.decimal thousandths))

/-- A program to be run and the setting for it.  A time limit of zero is none. -/
structure Launch where
  clears : Bool := false
  removed : List String := []
  added : List (String × String) := []
  directory : Option String := none
  limit : Nat := 0
  lateStatus : Nat := 124
  ending : String := "\n"
  command : List String := []
deriving Repr, Inhabited, DecidableEq

namespace Launch

/-- The options of a program that runs another. -/
def table (utility : String) : OptionTable :=
  match utility with
  | "env" =>
      { flags := "i0v"
        valued := "uCS"
        long := [("ignore-environment", 'i'), ("unset", 'u'), ("chdir", 'C'),
          ("null", '0')]
        leads := true }
  | "timeout" =>
      { flags := "fpv"
        valued := "sk"
        long := [("foreground", 'f'), ("preserve-status", 'p'),
          ("signal", 's'), ("kill-after", 'k')]
        leads := true }
  | "nice" =>
      { valued := "n", long := [("adjustment", 'n')], leads := true }
  | "stdbuf" =>
      { valued := "ioe"
        long := [("input", 'i'), ("output", 'o'), ("error", 'e')]
        leads := true }
  | "setsid" =>
      { flags := "cfw"
        long := [("ctty", 'c'), ("fork", 'f'), ("wait", 'w')]
        leads := true }
  | _ => { leads := true }

/-- The status of a program that cannot run another. -/
def failing (utility : String) : Nat :=
  if utility = "setsid" then 1 else 125

/-- The assignments in front of a command, and the command. -/
def assignments : List String → List (String × String) × List String
  | word :: rest =>
      match Text.splitAt (· == '=') word.toList with
      | name :: value :: more =>
          let (later, command) := assignments rest
          ((String.ofList name,
            String.ofList (['='].intercalate (value :: more))) :: later, command)
      | _ => ([], word :: rest)
  | [] => ([], [])

/-- What the arguments of a program ask for, or what it says of them. -/
def ofArguments (utility : String) (arguments : List String) :
    Except String Launch :=
  let complain (text : String) : Except String Launch :=
    .error (utility ++ ": " ++ text ++ hintFor utility)
  match (table utility).read arguments with
  | .error fault => complain fault.message
  | .ok options =>
      match utility, options.operands with
      | "env", operands =>
          let operands := operands.dropWhile (· == "-")
          let (added, command) := assignments operands
          .ok
            { clears := options.has 'i' || options.operands.head? = some "-"
              removed := options.values 'u'
              added := added
              directory := options.value? 'C'
              ending := if options.has '0' then "\x00" else "\n"
              command := command }
      | "timeout", limit :: name :: rest =>
          match milliseconds? limit with
          | some limit =>
              let isKill :=
                ["KILL", "9", "SIGKILL"].contains ((options.value? 's').getD "")
              .ok
                { limit := limit
                  lateStatus :=
                    if isKill then 137 else if options.has 'p' then 143 else 124
                  command := name :: rest }
          | none => complain ("invalid time interval " ++ quotedName limit)
      | "timeout", _ => complain "missing operand"
      | "nice", [] => .ok {}
      | "setsid", [] => complain "no command specified"
      | _, [] => complain "missing operand"
      | _, command => .ok { command := command }

/-- What a program says when it cannot run another. -/
def refusal (utility name reason : String) : String :=
  match utility with
  | "env" | "nice" => s!"{utility}: " ++ quotedName name ++ ": " ++ reason
  | "setsid" => s!"setsid: failed to execute {name}: {reason}"
  | _ => s!"{utility}: failed to run command " ++ quotedName name ++ ": " ++ reason

end Launch

/-! ### Names -/

/-!
A name with a slash leads to a file.  Another is looked for in the directories of
a variable, of which some are those of the system's programs.
-/

/-- Where a program is found. -/
inductive Place where
  | system (directory : String)
  | file (name : String)
  | locked (name : String)
deriving Repr, Inhabited, DecidableEq

/-- Whether a file was found that cannot be run. -/
def Place.isLocked : Place → Bool
  | .locked _ => true
  | _ => false

namespace Shell

/-- Where a program of a name without a directory is found, or else a file of
that name which cannot be run. -/
def searched? (shell : Shell) (name : String) : Option Place :=
  let path := (shell.valueOf? "PATH").getD ""
  let places :=
    (Text.pieces (· == ':') path).filterMap fun directory =>
      if programDirectories.contains directory then
        if utilityNames.contains name then some (.system directory) else none
      else
        let path := (if directory.isEmpty then "." else directory) ++ "/" ++ name
        match shell.file? path with
        | some file =>
            some (if file.executable then .file path else .locked path)
        | none => none
  (places.find? fun place => !place.isLocked).or places.head?

/-- Where a program is found. -/
def program? (shell : Shell) (name : String) : Option Place :=
  if name.contains '/' then
    let (directory, last) := splitName name
    if programDirectories.contains (withoutSlashes directory) &&
        utilityNames.contains last then
      some (.system (withoutSlashes directory))
    else some (.file name)
  else shell.searched? name

/-- The path of a program. -/
def placeText (place : Place) (name : String) : String :=
  match place with
  | .system directory => directory ++ "/" ++ (splitName name).2
  | .file path | .locked path => path

/-- Why the program of a name cannot be run, and the status that tells so; none if
it can be run. -/
def refusal? (shell : Shell) (name : String) : Option (Nat × String) :=
  let denied := some (126, "Permission denied")
  match shell.program? name with
  | some (.system _) => none
  | some (.locked _) => denied
  | none => some (127, "No such file or directory")
  | some (.file path) =>
      match shell.file? path with
      | some file => if file.executable then none else denied
      | none =>
          if shell.isDirectory path then denied
          else some (127, shell.obstacleText path)

/-- What a name stands for, in short; none if it stands for nothing. -/
def meaning? (shell : Shell) (name : String) : Option String :=
  if Token.keywords.contains name || isBuiltin name ||
      shell.functions.any fun entry => entry.1 == name then
    some name
  else
    match shell.program? name with
    | some (.system directory) =>
        some (placeText (.system directory) name)
    | some (.file path) =>
        if (shell.file? path).any File.executable then some path else none
    | _ => none

/-- What a name stands for, in words; none if it stands for nothing. -/
def description? (shell : Shell) (name : String) : Option String :=
  if Token.keywords.contains name then some (name ++ " is a shell keyword")
  else if specialUtilities.contains name then
    some (name ++ " is a special shell builtin")
  else if shell.functions.any fun entry => entry.1 == name then
    some (name ++ " is a shell function")
  else if isBuiltin name then some (name ++ " is a shell builtin")
  else (shell.meaning? name).map fun path => name ++ " is " ++ path

/-- Write what names stand for. -/
def describe (shell : Shell) (describe? : Shell → String → Option String)
    (missing : String → Option String) (names : List String) : Shell :=
  names.foldl
    (fun (shell : Shell) name =>
      match describe? shell name with
      | some text => shell.say text
      | none =>
          ((missing name).elim shell fun text => shell.say text).withStatus 127)
    (shell.withStatus 0)

/-- The variables that every shell sets. -/
def defaultBindings : List (String × Binding) :=
  [("IFS", { value := some " \t\n" }), ("OPTIND", { value := some "1" }),
    ("PPID", { value := some "1" }), ("PS1", { value := some "# " }),
    ("PS2", { value := some "> " }), ("PS4", { value := some "+ " })]

/-- The shell of a script that another script starts: it has the variables that
programs are told of, and nothing else. -/
def child (shell : Shell) (name : String) (arguments : List String) : Shell :=
  { around := { shell.around with made := shell.around.made + 1 }
    name := name
    arguments := arguments
    number := shell.around.made + 3
    bindings :=
      defaultBindings ++
        shell.bindings.filter fun entry =>
          entry.2.exported && entry.2.value.isSome
    channels := shell.channels
    directory := shell.directory
    depth := shell.depth }

/-- The shell in the setting for a program. -/
def launched (shell : Shell) (launch : Launch) : Shell :=
  let kept :=
    if launch.clears then
      shell.bindings.filter fun entry => !entry.2.exported
    else shell.bindings
  let unset :=
    launch.removed.foldl (fun (shell : Shell) name => shell.bind name none)
      { shell with bindings := kept }
  let set :=
    launch.added.foldl
      (fun (shell : Shell) (name, value) =>
        shell.bind name (some { value := some value, exported := true }))
      unset
  let directory :=
    (launch.directory.bind fun name => (shell.locate name).toOption).getD
      shell.directory
  let set := { set with directory := directory }
  if (set.valueOf? "PATH").isSome then set
  else set.bind "PATH" (some { value := some "/bin:/usr/bin" })

/-- The shell with the setting that it had before. -/
def settingOf (shell before : Shell) : Shell :=
  { shell with bindings := before.bindings, directory := before.directory }

end Shell

end PackageLayers.Program

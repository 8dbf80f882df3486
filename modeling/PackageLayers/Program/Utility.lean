/-
Purpose: The programs of the system that scripts use.
Main exports: Shell.utility?
-/
import PackageLayers.Program.Launch
import PackageLayers.Program.Utility.Alteration

namespace PackageLayers.Program.Shell

/-!
These are the programs that a script finds without naming a directory: filters of
text, and utilities that look at files or change them.  Those that run other
programs are not among them.
-/

/-- Wait for some time, or for ever. -/
def sleep (shell : Shell) (arguments : List String) : Shell :=
  let endless := ["inf", "infinity"]
  let wrong? :=
    arguments.find? fun argument =>
      (milliseconds? argument).isNone && !endless.contains argument
  match arguments, wrong? with
  | [], _ => shell.missingOperand "sleep"
  | _, some wrong =>
      if wrong.startsWith "-" then
        shell.withOptions "sleep" 1 {} [wrong] fun _ => shell.withStatus 0
      else
        shell.trouble 1
          ("sleep: invalid time interval " ++ quotedName wrong ++ hintFor "sleep")
  | _, none =>
      let pause :=
        arguments.foldl
          (fun total argument => total + (milliseconds? argument).getD 0) 0
      if arguments.any endless.contains then { shell with flow := .stuck }
      else
        let rested := shell.idle (shell.around.time + pause)
        if rested.isGoing then rested.withStatus 0 else rested

/-- Write a line over and over. -/
def repeatForever (shell : Shell) (arguments : List String) : Shell :=
  let text :=
    if arguments.isEmpty then "y" else " ".intercalate arguments
  let line := text.toList ++ ['\n']
  let count := 200000 / line.length + 1
  { shell.write 1 ((List.replicate count line).flatten) with flow := .stuck }

/-- The variables that programs are told of, with their values. -/
def exported (shell : Shell) : List (String × String) :=
  shell.bindings.reverse.filterMap fun entry =>
    if entry.2.exported then entry.2.value.map fun value => (entry.1, value)
    else none

/-- Write the variables that programs are told of, or the values of some. -/
def printVariables (shell : Shell) (arguments : List String) : Shell :=
  shell.withOptions "printenv" 2 { flags := "0", leads := true } arguments
    fun options =>
      let known := shell.exported
      let ending := if options.has '0' then "\x00" else "\n"
      let texts :=
        if options.operands.isEmpty then
          known.map fun entry => entry.1 ++ "=" ++ entry.2
        else
          options.operands.filterMap fun name =>
            (known.find? fun entry => entry.1 == name).map Prod.snd
      let missing :=
        options.operands.any fun name =>
          !known.any fun entry => entry.1 == name
      (texts.foldl
        (fun (shell : Shell) text => shell.write 1 (text ++ ending).toList)
        shell).withStatus (if missing then 1 else 0)

/-- Write the name of the system. -/
def systemName (shell : Shell) (arguments : List String) : Shell :=
  shell.withOptions "uname" 1 { flags := "asnrvmpio" } arguments fun options =>
    let part (letter : Char) (text : String) : List String :=
      if options.has letter then [text] else []
    let parts :=
      part 's' "Linux" ++ part 'm' "x86_64" ++ part 'o' "GNU/Linux"
    let text := if parts.isEmpty then "Linux" else " ".intercalate parts
    (shell.say text).withStatus 0

/-- A program of the system that looks at files or changes them; none if there is no
such program. -/
def fileUtility? (name : String) : Option (Shell → List String → Shell) :=
  match name with
  | "ls" => some list
  | "mkdir" => some makeDirectories
  | "rm" => some removeAll
  | "rmdir" => some removeDirectories
  | "touch" => some touchAll
  | "cp" => some fun shell => shell.transferAll name false
  | "mv" => some fun shell => shell.transferAll name true
  | "chmod" => some changeModes
  | "mktemp" => some makeTemporary
  | "tee" => some tee
  | "basename" => some baseName
  | "dirname" => some directoryName
  | "realpath" => some fun shell => shell.resolve name false
  | "readlink" => some fun shell => shell.resolve name true
  | "sleep" => some sleep
  | "yes" => some repeatForever
  | "printenv" => some printVariables
  | "uname" => some systemName
  | _ => none

/-- Run a program of the system; none if there is no such program. -/
def utility? (shell : Shell) (name : String) (arguments : List String) :
    Option Shell :=
  match filter? name, fileUtility? name with
  | some filter, _ => some (shell.filtered filter arguments)
  | none, some work => some (work shell arguments)
  | none, none => none

end PackageLayers.Program.Shell

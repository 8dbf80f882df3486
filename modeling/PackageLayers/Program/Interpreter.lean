/-
Purpose: Programs that are shell scripts.
Main exports: Program.runScript, Program.scriptOf, Program.scriptAt, Programs.shell
-/
import PackageLayers.Program.Evaluation
import PackageLayers.Program.Run

namespace PackageLayers

namespace Program

/-!
Files that can be run and whose first line names a shell are programs: the shell reads
them as its script.  What they do is decided by their text, the files, and what they
are told.
-/

/-- The commands that a program may run before it counts as endless. -/
def greatestEffort : Nat :=
  300000

/-- The rounds that commands are run on. -/
def greatestRounds : Nat :=
  greatestEffort + 100000

/-- The variables that a program starts with. -/
def startBindings : List (String × Binding) :=
  [("PATH", { value := some "/usr/local/bin:/usr/bin:/bin", exported := true }),
    ("HOME", { value := some "/root", exported := true }),
    ("PWD", { value := some "/", exported := true })]

/-- The files with a directory for files that are not kept. -/
def withTemporary (files : Files) : Files :=
  if files.isDirectory ["tmp"] then files else files.put ["tmp"] .directory

/-- Run a script to its end. -/
def runScript (script : List Char) (switches : Switches) (files : Files)
    (stamp : Nat) (name : String) (arguments : List String)
    (input : List Char) : Run :=
  let (stream, around) :=
    Surroundings.supply
      { files := withTemporary files
        stamp := stamp
        effort := greatestEffort }
      { parts := [(0, input)] }
  let shell : Shell :=
    { around := around
      name := name
      arguments := arguments
      bindings := Shell.defaultBindings ++ startBindings
      channels := [(0, stream), (1, .output), (2, .errors)]
      switches := switches }
  let ended :=
    atEnd greatestRounds (runText greatestRounds false script shell)
  let around := ended.around
  let duration :=
    match ended.flow with
    | .stuck => none
    | _ => some around.time
  { output := Surroundings.parts (Surroundings.inOrder around.written)
    complaints :=
      (Surroundings.inOrder around.complaints).flatMap Portion.octets
    ending :=
      match ended.flow with
      | .killed number => .signal number
      | _ => .status (ended.status % 256)
    duration := duration
    outputEnd := around.closing .output duration
    complaintsEnd := around.closing .errors duration
    files := around.files
    past := around.past }

/-- The interpreters of shell scripts. -/
def shells : List String :=
  ["/bin/sh", "/bin/bash", "/bin/dash", "/usr/bin/sh", "/usr/bin/bash",
    "/usr/bin/dash", "/usr/bin/env sh", "/usr/bin/env bash"]

/-- The interpreter that a program's first line asks for. -/
def interpreter? (text : String) : Option String :=
  (Text.stripPrefix? "#!" text).map fun rest =>
    Text.trim (String.ofList (rest.toList.takeWhile (· ≠ '\n')))

/-- The switches that an interpreter is given, if it is one of shell scripts. -/
def switches? (interpreter : String) : Option Switches :=
  if shells.contains interpreter then some {}
  else
    let words := Text.pieces (fun c => c == ' ' || c == '\t') interpreter
    match words.getLast? with
    | some argument =>
        let shell := " ".intercalate words.dropLast
        if shells.contains shell && argument.startsWith "-" then
          (argument.toList.drop 1).foldlM
            (fun switches letter => Shell.switch? switches true letter)
            {}
        else none
    | none => none

/-- The script that a program file holds, and the switches that it runs with. -/
def scriptOf (file : File) :
    Except StartFault (List Char × Switches) :=
  if !file.executable then .error .notExecutable
  else
    let octets := file.content.octets
    match interpreter? (Text.ofOctetsLossy octets) with
    | none => .error .notProgram
    | some interpreter =>
        match switches? interpreter with
        | some switches => .ok (octets, switches)
        | none => .error .notFound

/-- The script of the program at a path. -/
def scriptAt (files : Files) (program : Path) :
    Except StartFault (List Char × Switches) :=
  match files.locate program with
  | .error .missing => .error .notFound
  | .error .notDirectory => .error .notDirectory
  | .ok location =>
      match files.file? location with
      | none => .error .notExecutable
      | some file => scriptOf file

end Program

namespace Programs

/-- The programs that are shell scripts, and no others. -/
def shell : Programs where
  start _ files stamp program arguments input :=
    let octets (text : String) : String := String.ofList (Text.octets text)
    (Program.scriptAt files program).map fun (script, switches) =>
      Program.runScript script switches files stamp (octets program.text)
        (arguments.map octets) (Text.octets input)

/-- Shell scripts leave nothing to chance. -/
theorem shell_isDeterministic : shell.IsDeterministic :=
  fun _ _ => rfl

end Programs

end PackageLayers

/-
Purpose: Filters as programs of a script.
Main exports: filter?, Shell.filtered, Shell.tee, Shell.withOptions
-/
import PackageLayers.Program.Field
import PackageLayers.Program.Filter.Arguments
import PackageLayers.Program.Filter.Characters
import PackageLayers.Program.Filter.Columns
import PackageLayers.Program.Filter.Grep
import PackageLayers.Program.Filter.Lines
import PackageLayers.Program.Filter.Order
import PackageLayers.Program.Filter.Sed

namespace PackageLayers.Program

/-!
A filter reads the input of the script, and what it writes goes to the output.
One that flows writes at the times at which its input comes.
-/

/-- A name in quotes, as the utilities write it. -/
def quotedName (name : String) : String :=
  "'" ++ name ++ "'"

/-- The filters by their names. -/
def filter? (name : String) : Option (Supply → List String → Outcome) :=
  match name with
  | "cat" => some Filter.cat
  | "head" => some Filter.head
  | "tail" => some Filter.tail
  | "wc" => some Filter.wc
  | "sort" => some Filter.sort
  | "uniq" => some Filter.uniq
  | "rev" => some Filter.rev
  | "tac" => some Filter.tac
  | "nl" => some Filter.nl
  | "cut" => some Filter.cut
  | "tr" => some Filter.tr
  | "paste" => some Filter.paste
  | "fold" => some Filter.fold
  | "grep" => some (Filter.grep false false)
  | "egrep" => some (Filter.grep true false)
  | "fgrep" => some (Filter.grep false true)
  | "sed" => some Filter.sed
  | "expr" => some fun _ => Filter.expr
  | "seq" => some fun _ => Filter.seq
  | _ => none

namespace Shell

/-- Go on after a problem that a utility has with a name. -/
def trouble (shell : Shell) (status : Nat) (text : String) : Shell :=
  (shell.complain text).withStatus status

/-- Run a utility with the options that its arguments are, or complain that they
are wrong. -/
def withOptions (shell : Shell) (utility : String) (failing : Nat)
    (table : OptionTable) (arguments : List String) (work : Options → Shell) :
    Shell :=
  match table.read arguments with
  | .ok options => work options
  | .error fault =>
      shell.trouble failing (utility ++ ": " ++ fault.message ++ hintFor utility)

/-- The names of the files at and under a name, in order. -/
def filesUnder (shell : Shell) : (rounds : Nat) → String → List String
  | 0, _ => []
  | rounds + 1, name =>
      if shell.isDirectory name then
        match shell.locate name with
        | .ok location =>
            (namesIn shell.around.files location).flatMap fun child =>
              let start := if name.endsWith "/" then name else name ++ "/"
              filesUnder shell rounds (start ++ String.ofList child)
        | .error _ => []
      else [name]

/-- The shell that has read what a filter demands of its input. -/
def reading (shell : Shell) (demand : Demand) : Shell :=
  let isFile := shell.source.isFile
  let read :=
    match demand.unneeded with
    | none => shell.readAll
    | some rest =>
        let shell := shell.readUpTo rest
        if demand.exact then shell else shell.takeReady
  if !demand.reads then shell
  else if isFile then shell.readUpTo demand.left
  else read

/-- Write what a filter makes of its input while the input comes: at each time
what it makes of all that came so far, without what was written before. -/
def flowing (make : List Char → List Char) (whole : List Char) :
    (shown : Nat) → (before : List Char) → List (Nat × List Char) → Shell → Shell
  | shown, _, [], shell => shell.readAll.write 1 (whole.drop shown)
  | shown, _, [(time, _)], shell =>
      ((shell.await (some time)).write 1 (whole.drop shown)).readAll
  | shown, before, (time, octets) :: rest, shell =>
      let octets := before ++ octets
      let out := make octets
      flowing make whole out.length octets rest
        ((shell.await (some time)).write 1 (out.drop shown))

/-- The shell after a filter ran. -/
def filtered (shell : Shell)
    (filter : Supply → List String → Outcome)
    (arguments : List String) : Shell :=
  let source := shell.source
  let run (input : List Char) : Outcome :=
    filter
      { input := input
        isFile := source.isFile
        filesUnder := shell.filesUnder (shell.around.files.entries.length + 2)
        readFile := shell.readable }
      arguments
  let outcome := run source.octets
  let stored :=
    outcome.stored.foldl
      (fun (shell : Shell) entry =>
        match shell.newLocation? entry.1 with
        | some location => shell.store location entry.2
        | none => shell)
      shell
  let say (shell : Shell) : Shell :=
    outcome.said.foldl
      (fun (shell : Shell) part => shell.write (if part.1 then 2 else 1) part.2)
      shell
  let isPlain := outcome.said.all fun part => !part.1
  let ended :=
    if outcome.flows && outcome.demand.reads && isPlain then
      flowing (fun octets => (run octets).out) outcome.out 0 [] source.parts
        stored
    else say (stored.reading outcome.demand)
  if outcome.isEndless then { ended with flow := .stuck }
  else if ended.isGoing then ended.withStatus outcome.status
  else ended

/-- Write the input to the output and to files. -/
def tee (shell : Shell) (arguments : List String) : Shell :=
  let table : OptionTable :=
    { flags := "aip"
      long := [("append", 'a'), ("ignore-interrupts", 'i')] }
  shell.withOptions "tee" 1 table arguments fun options =>
    let text := shell.input
    let shell :=
      (flowing (fun octets => octets) text 0 [] shell.source.parts
        (shell.withStatus 0))
    options.operands.foldl
      (fun (shell : Shell) name =>
        match name with
        | "/dev/null" => shell
        | "/dev/stderr" => shell.write 2 text
        | "/dev/stdout" => shell.write 1 text
        | _ =>
            match shell.newLocation? name with
            | some location =>
                let before :=
                  match shell.file? name with
                  | some file =>
                      if options.has 'a' then file.content.octets else []
                  | none => []
                if shell.isDirectory name then
                  shell.trouble 1 ("tee: " ++ name ++ ": Is a directory")
                else shell.store location (before ++ text)
            | none =>
                shell.trouble 1
                  ("tee: " ++ name ++ ": " ++ shell.obstacleText name))
      shell

end Shell

end PackageLayers.Program

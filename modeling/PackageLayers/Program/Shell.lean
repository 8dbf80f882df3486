/-
Purpose: The state of a running script.
Main exports: Stream, Surroundings, Binding, Flow, Shell, utilityNames,
  isSystemDirectory, isSystemProgram, isSystemFile
-/
import PackageLayers.Files.Change
import PackageLayers.Program.Command
import PackageLayers.Program.Run
import PackageLayers.Sorting

namespace PackageLayers.Program

/-!
All texts of a running script are octets.  What its commands share are the
surroundings: the files, what was written, what is left to be read, and the time,
which passes only while a script sleeps.  All else belongs to one shell; a part
of a script that runs on its own starts with a copy.

The programs of a pipe run at the same time.  Each has its own time: one after
the other is run from the same time on, and what the first wrote can be read by
the second from the time on at which it was written.  A program that writes to a
pipe which nobody reads any more is stopped.  A program may run forever; it is
given a number of commands, and when they are used up it is stuck.
-/

/-- Where a channel leads. -/
inductive Stream where
  | output
  | errors
  | nowhere
  | captured (place : Nat)
  | source (place : Nat)
  | file (location : Location)
deriving Repr, Inhabited, DecidableEq

/-- Octets that a process wrote at a time. -/
structure Portion where
  time : Nat
  process : Nat
  octets : List Char
deriving Repr, Inhabited, DecidableEq

/-- What is left to be read of a stream: octets with the times from which on
there are more of them, and the time of its end, if it ends.  A reader that stops
in the midst of a file leaves the rest of it; from a pipe it may have taken more
than it needed. -/
structure Source where
  parts : List (Nat × List Char)
  ends : Option Nat := some 0
  isFile : Bool := false
deriving Repr, Inhabited, DecidableEq

namespace Source

/-- All octets that are left. -/
def octets (source : Source) : List Char :=
  match source.parts with
  | [(_, octets)] => octets
  | parts => parts.flatMap Prod.snd

/-- The last octets of parts as parts, and the time from which on all octets
before them could be read. -/
def lastParts (size : Nat) : List (Nat × List Char) → Nat × List (Nat × List Char)
  | [] => (0, [])
  | (time, octets) :: rest =>
      let later := rest.foldl (fun total part => total + part.2.length) 0
      if later < size then
        let kept := octets.drop (octets.length + later - size)
        (if later + octets.length = size then 0 else time, (time, kept) :: rest)
      else
        let (next, parts) := lastParts size rest
        (max time next, parts)

/-- The source of which only a rest is left, and the time from which on all
before it could be read. -/
def upTo (source : Source) (rest : List Char) : Nat × Source :=
  match source.parts with
  | [(time, _)] =>
      (time, { source with parts := if rest.isEmpty then [] else [(time, rest)] })
  | parts =>
      let (time, parts) := lastParts rest.length parts
      (time, { source with parts := parts })

end Source

/-- A process that does not wait for the rest of the script holds a stream open
until its end, if it has one. -/
structure Hold where
  process : Nat
  stream : Stream
  ends : Option Nat
deriving Repr, Inhabited, DecidableEq

/-- What the commands of a script share.  What was written is kept last first;
`past` tells what the files were before a time, last first.  An `alarm` is a signal
that the script is sent at a time. -/
structure Surroundings where
  files : Files
  stamp : Nat
  time : Nat := 0
  process : Nat := 0
  effort : Nat
  written : List Portion := []
  complaints : List Portion := []
  captures : List (Nat × List Portion) := []
  sources : List (Nat × Source) := []
  holds : List Hold := []
  alarm : Option (Nat × Nat) := none
  past : List (Nat × Files) := []
  made : Nat := 0

namespace Surroundings

/-- A table with another value at a place. -/
def setAt {α : Type} (place : Nat) (value : α) :
    List (Nat × α) → List (Nat × α)
  | [] => []
  | (other, old) :: rest =>
      if other = place then (place, value) :: rest
      else (other, old) :: setAt place value rest

/-- The value at a place of a table. -/
def valueAt {α : Type} (place : Nat) (table : List (Nat × α)) : Option α :=
  (table.find? fun entry => entry.1 == place).map Prod.snd

/-- A file with octets put at its end. -/
def extended (files : Files) (stamp : Nat) (location : Location)
    (octets : List Char) : Files :=
  match files.file? location with
  | none => files
  | some file =>
      files.put location
        (.file
          { file with
            content := .ofOctets (file.content.octets ++ octets)
            modified := .ofMilliseconds stamp })

/-- Write octets to a stream. -/
def write (around : Surroundings) (stream : Stream) (octets : List Char) :
    Surroundings :=
  if octets.isEmpty then around
  else
    let portion : Portion := ⟨around.time, around.process, octets⟩
    match stream with
    | .output => { around with written := portion :: around.written }
    | .errors => { around with complaints := portion :: around.complaints }
    | .captured place =>
        let before := (valueAt place around.captures).getD []
        { around with
          captures := setAt place (portion :: before) around.captures }
    | .file location =>
        { around with
          files := extended around.files around.stamp location octets }
    | .nowhere | .source _ => around

/-- What is left to be read from a stream. -/
def sourceOf (around : Surroundings) : Stream → Source
  | .source place => (valueAt place around.sources).getD { parts := [] }
  | _ => { parts := [] }

/-- Leave only a part of a stream to be read. -/
def leave (around : Surroundings) (stream : Stream) (source : Source) :
    Surroundings :=
  match stream with
  | .source place =>
      { around with sources := setAt place source around.sources }
  | _ => around

/-- A new stream to be read. -/
def supply (around : Surroundings) (source : Source) : Stream × Surroundings :=
  let place := around.made
  (.source place,
    { around with
      sources := (place, source) :: around.sources
      made := place + 1 })

/-- A new stream that keeps what is written to it. -/
def capture (around : Surroundings) : Stream × Surroundings :=
  let place := around.made
  (.captured place,
    { around with
      captures := (place, []) :: around.captures
      made := place + 1 })

/-- The surroundings of a process that begins. -/
def newProcess (around : Surroundings) : Surroundings :=
  { around with process := around.made + 1, made := around.made + 1 }

/-- Portions, given last first, in the order of their times. -/
def inOrder (portions : List Portion) : List Portion :=
  sortBy (fun first second => decide (first.time ≤ second.time))
    portions.reverse

/-- The octets of portions, with those of one time as one part. -/
def parts (portions : List Portion) : List (Nat × List Char) :=
  portions.foldr
    (fun portion parts =>
      match parts with
      | (time, octets) :: later =>
          if time = portion.time then (time, portion.octets ++ octets) :: later
          else (portion.time, portion.octets) :: parts
      | [] => [(portion.time, portion.octets)])
    []

/-- All that was written to a stream which keeps it. -/
def caught (around : Surroundings) : Stream → List (Nat × List Char)
  | .captured place =>
      parts (inOrder ((valueAt place around.captures).getD []))
  | _ => []

/-- The time from which on no process holds a stream, after that of a process
that ends at some time itself, or never. -/
def closing (around : Surroundings) (stream : Stream) (ends : Option Nat) :
    Option Nat :=
  (around.holds.filter fun hold => hold.stream = stream).foldl
    (fun ends hold => laterTime ends hold.ends) ends

/-- The surroundings without what a process did after it was stopped. -/
def cutOff (around : Surroundings) (process time : Nat) : Surroundings :=
  let stays (portion : Portion) : Bool :=
    portion.process ≠ process || portion.time ≤ time
  { around with
    written := around.written.filter stays
    complaints := around.complaints.filter stays
    captures := around.captures.map fun entry => (entry.1, entry.2.filter stays)
    holds := around.holds.map fun hold =>
      if hold.process = process then
        { hold with ends := some ((hold.ends.map (min time)).getD time) }
      else hold }

/-- The surroundings without the streams that were made from a place on, but for
those that are still in use. -/
def forget (around : Surroundings) (place : Nat) (used : List (Nat × Stream)) :
    Surroundings :=
  let stays (other : Nat) (stream : Stream) :=
    other < place || used.any fun entry => entry.2 == stream
  { around with
    sources :=
      around.sources.filter fun entry => stays entry.1 (.source entry.1)
    captures :=
      around.captures.filter fun entry => stays entry.1 (.captured entry.1) }

/-- The surroundings at a time, if it is still to come. -/
def await (around : Surroundings) (time : Nat) : Surroundings :=
  if time ≤ around.time then around
  else
    { around with
      time := time
      past := (time, around.files) :: around.past }

end Surroundings

/-- A variable: its value, whether programs are told of it, and whether it is
fixed. -/
structure Binding where
  value : Option String := none
  exported : Bool := false
  fixed : Bool := false
deriving Repr, Inhabited, DecidableEq

/-- What becomes of the commands that follow. -/
inductive Flow where
  | going
  | breaking (levels : Nat)
  | continuing (levels : Nat)
  | returning
  | exiting
  | killed (signal : Nat)
  | stuck
deriving Repr, Inhabited, DecidableEq

/-- The switches of a shell that matter here. -/
structure Switches where
  exitsOnFailure : Bool := false
  refusesUnset : Bool := false
  keepsPatterns : Bool := false
  exportsAll : Bool := false
  traces : Bool := false
deriving Repr, Inhabited, DecidableEq

/-- A process beside the script: the time of its end, if it has one, and its
status. -/
structure Job where
  process : Nat
  ends : Option Nat
  status : Nat
deriving Repr, Inhabited, DecidableEq

/-- The number by which a script knows a process. -/
def processNumber (process : Nat) : Nat :=
  process + 2

/-- A running shell. -/
structure Shell where
  around : Surroundings
  name : String
  arguments : List String
  number : Nat := 2
  bindings : List (String × Binding) := []
  functions : List (String × (Nat × Command)) := []
  channels : List (Nat × Stream) := []
  directory : Location := []
  switches : Switches := {}
  traps : List (String × String) := []
  documents : List (Nat × Word) := []
  places : Nat := 0
  status : Nat := 0
  lastOutput : Nat := 0
  line : Nat := 1
  reached : Nat := 1
  loops : Nat := 0
  depth : Nat := 0
  jobs : List Job := []
  lastProcess : Option Nat := none
  clusterPlace : Nat := 0
  saved : List (List (String × Option Binding)) := []
  within : Option String := none
  flow : Flow := .going

namespace Shell

/-- The shell after a command with a status. -/
def withStatus (shell : Shell) (status : Nat) : Shell :=
  { shell with status := status }

/-- The shell whose commands are over. -/
def stopped (shell : Shell) (status : Nat) : Shell :=
  { shell with status := status, flow := .exiting }

/-- Whether the next command is to be run. -/
def isGoing (shell : Shell) : Bool :=
  shell.flow == .going

/-- The stream of a channel. -/
def channel (shell : Shell) (number : Nat) : Option Stream :=
  Surroundings.valueAt number shell.channels

/-- The shell with a channel that leads elsewhere. -/
def connect (shell : Shell) (number : Nat) (stream : Stream) : Shell :=
  { shell with
    channels :=
      (number, stream) ::
        shell.channels.filter fun entry => entry.1 != number }

/-- The shell without a channel. -/
def disconnect (shell : Shell) (number : Nat) : Shell :=
  { shell with
    channels := shell.channels.filter fun entry => entry.1 != number }

/-- Write octets to a channel. -/
def write (shell : Shell) (number : Nat) (octets : List Char) : Shell :=
  match shell.channel number with
  | some stream => { shell with around := shell.around.write stream octets }
  | none => shell

/-- Write a line to the output. -/
def say (shell : Shell) (text : String) : Shell :=
  shell.write 1 (text.toList ++ ['\n'])

/-- Write a line to the channel of errors. -/
def complain (shell : Shell) (text : String) : Shell :=
  shell.write 2 (text.toList ++ ['\n'])

/-- Complain in the name of the script, its present line and a utility. -/
def warnAs (shell : Shell) (utility : Option String) (text : String) : Shell :=
  let label := (utility.map fun name => name ++ ": ").getD ""
  shell.complain s!"{shell.name}: {shell.line}: {label}{text}"

/-- Complain in the name of the script and its present line. -/
def warn (shell : Shell) (text : String) : Shell :=
  shell.warnAs shell.within text

/-- What is left of the input. -/
def source (shell : Shell) : Source :=
  match shell.channel 0 with
  | some stream => shell.around.sourceOf stream
  | none => { parts := [] }

/-- What is left of the input, as octets. -/
def input (shell : Shell) : List Char :=
  shell.source.octets

/-- Leave only a part of the input to be read. -/
def leave (shell : Shell) (source : Source) : Shell :=
  match shell.channel 0 with
  | some stream => { shell with around := shell.around.leave stream source }
  | none => shell

/-- The shell at a time, if it is still to come, or when a signal ends it before
that; without a time it waits forever. -/
def await (shell : Shell) (time : Option Nat) : Shell :=
  let waited :=
    match time with
    | some time => { shell with around := shell.around.await time }
    | none => { shell with flow := .stuck }
  match shell.around.alarm with
  | some (limit, signal) =>
      if time.all (limit ≤ ·) then
        { shell with
          around := shell.around.await limit
          flow := .killed signal
          status := 128 + signal }
      else waited
  | none => waited

/-- The shell after a program that does nothing until a time.  A signal ends the
shell, but not the program. -/
def idle (shell : Shell) (time : Nat) : Shell :=
  let waited := shell.await (some time)
  if waited.isGoing then waited
  else
    let holds : List Hold :=
      shell.channels.map fun channel =>
        ⟨shell.around.process, channel.2, some time⟩
    { waited with
      around := { waited.around with holds := holds ++ waited.around.holds } }

/-- The shell that has read its input up to a rest. -/
def readUpTo (shell : Shell) (rest : List Char) : Shell :=
  let (time, source) := shell.source.upTo rest
  (shell.leave source).await (some time)

/-- The shell that has read all of its input. -/
def readAll (shell : Shell) : Shell :=
  let source := shell.source
  let shell := shell.leave { source with parts := [] }
  match shell.channel 0 with
  | some (.source _) => shell.await source.ends
  | _ => shell

/-- The shell that has taken from a pipe all that could be read so far. -/
def takeReady (shell : Shell) : Shell :=
  let source := shell.source
  if source.isFile then shell
  else
    shell.leave
      { source with
        parts := source.parts.filter fun part => shell.around.time < part.1 }

/-- The shell that goes on after a part of its script ran on its own. -/
def rejoin (shell part : Shell) : Shell :=
  { shell with
    around := part.around
    status := part.status % 256
    flow :=
      match part.flow with
      | .stuck | .killed _ => part.flow
      | _ => shell.flow }

/-- The binding of a variable. -/
def binding? (shell : Shell) (name : String) : Option Binding :=
  (shell.bindings.find? fun entry => entry.1 == name).map Prod.snd

/-- The value of a variable, if it has one. -/
def valueOf? (shell : Shell) (name : String) : Option String :=
  (shell.binding? name).bind Binding.value

/-- The shell with a variable bound anew, or unbound. -/
def bind (shell : Shell) (name : String) (binding : Option Binding) : Shell :=
  { shell with
    bindings :=
      (binding.map fun given => (name, given)).toList ++
        shell.bindings.filter fun entry => entry.1 != name }

/-- The shell with a variable set; `none` if it is fixed. -/
def assign? (shell : Shell) (name value : String) : Option Shell :=
  let old := (shell.binding? name).getD {}
  if old.fixed then none
  else
    some
      (shell.bind name
        (some
          { old with
            value := some value
            exported := old.exported || shell.switches.exportsAll }))

/-- The switches as letters. -/
def switchLetters (shell : Shell) : String :=
  let letter (on : Bool) (text : String) := if on then text else ""
  letter shell.switches.refusesUnset "u" ++
    letter shell.switches.exportsAll "a" ++
    letter shell.switches.traces "x" ++
    letter shell.switches.keepsPatterns "f" ++
    letter shell.switches.exitsOnFailure "e"

/-- The value of a parameter that is no list, if it has one. -/
def parameter? (shell : Shell) (name : String) : Option String :=
  match name with
  | "#" => some (toString shell.arguments.length)
  | "?" => some (toString shell.status)
  | "-" => some shell.switchLetters
  | "$" => some (toString shell.number)
  | "!" => shell.lastProcess.map fun process => toString (processNumber process)
  | "0" => some shell.name
  | _ =>
      match name.toNat? with
      | some place =>
          if place = 0 then some shell.name else shell.arguments[place - 1]?
      | none => shell.valueOf? name

/-- The characters that separate fields. -/
def separators (shell : Shell) : List Char :=
  match shell.valueOf? "IFS" with
  | some chars => chars.toList
  | none => [' ', '\t', '\n']

/-- The path that a name means here. -/
def path? (shell : Shell) (name : String) : Option Path :=
  (Text.ofOctets? name.toList).map fun text =>
    if (Path.mk text).isAbsolute then ⟨text⟩
    else ⟨(Location.path shell.directory).text ++ "/" ++ text⟩

/-- The location that a name leads to. -/
def locate (shell : Shell) (name : String) : Except Obstacle Location :=
  if name.isEmpty then .error .missing
  else
    match shell.path? name with
    | some path => shell.around.files.locate path
    | none => .error .missing

/-- The entry that a name leads to. -/
def entry? (shell : Shell) (name : String) : Option Entry :=
  match shell.locate name with
  | .ok location => shell.around.files.get? location
  | .error _ => none

/-- The file that a name leads to. -/
def file? (shell : Shell) (name : String) : Option File :=
  match shell.entry? name with
  | some (.file file) => some file
  | _ => none

/-- Whether a name leads to a directory. -/
def isDirectory (shell : Shell) (name : String) : Bool :=
  shell.entry? name == some .directory

/-- The name without slashes at its end. -/
def withoutSlashes (name : String) : String :=
  String.ofList (Text.dropTrailing (· == '/') name.toList)

/-- The directory part of a name and its last part. -/
def splitName (name : String) : String × String :=
  let chars := (withoutSlashes name).toList
  let last := (chars.reverse.takeWhile (· ≠ '/')).reverse
  let front := chars.take (chars.length - last.length)
  (if front.isEmpty then "." else String.ofList front, String.ofList last)

/-- The location at which a name is or may be made. -/
def newLocation? (shell : Shell) (name : String) : Option Location :=
  match shell.locate name with
  | .ok location => some location
  | .error _ =>
      let (parent, last) := splitName name
      match Text.ofOctets? last.toList, shell.locate parent with
      | some last, .ok location =>
          if last.isEmpty || last = "." || last = ".." ||
              !shell.around.files.isDirectory location then
            none
          else some (location ++ [last])
      | _, _ => none

/-- The system's description of why a name leads nowhere. -/
def obstacleText (shell : Shell) (name : String) : String :=
  match shell.locate name with
  | .error .notDirectory => "Not a directory"
  | _ => "No such file or directory"

/-- What a name gives to read, or the system's reason why it gives nothing. -/
def readable (shell : Shell) (name : String) :
    Except String (List Char) :=
  match shell.entry? name with
  | some (.file file) => .ok file.content.octets
  | some .directory => .error "Is a directory"
  | none =>
      if name = "/dev/null" then .ok []
      else if name = "/dev/stdin" then .ok shell.input
      else .error (shell.obstacleText name)

/-- The shell with an entry at a location. -/
def put (shell : Shell) (location : Location) (entry : Entry) : Shell :=
  { shell with
    around := { shell.around with files := shell.around.files.put location entry } }

/-- The shell with a file of some content, which stays executable if it was. -/
def store (shell : Shell) (location : Location) (octets : List Char) : Shell :=
  shell.put location
    (.file
      { content := .ofOctets octets
        modified := .ofMilliseconds shell.around.stamp
        executable := shell.around.files.isExecutable location })

end Shell

/-! ### Outside of the files

A script finds the programs of the system in two directories.  Of other things
outside of its files it is only known whether they are there.
-/

/-- The programs of the system. -/
def utilityNames : List String :=
  ["[", "basename", "bash", "cat", "chmod", "cp", "cut", "dash", "dirname",
    "echo", "egrep", "env", "expr", "false", "fgrep", "find", "fold", "grep",
    "head", "kill", "ls", "mkdir", "mktemp", "mv", "nice", "nl", "nohup",
    "paste", "printenv", "printf", "pwd", "readlink", "realpath", "rev", "rm",
    "rmdir", "sed", "seq", "setsid", "sh", "sleep", "sort", "stdbuf", "tac",
    "tail", "tee", "test", "timeout", "touch", "tr", "true", "uname", "uniq",
    "wc", "which", "xargs", "yes"]

/-- The directories of the system's programs. -/
def programDirectories : List String :=
  ["/usr/bin", "/bin"]

/-- Whether a name is that of a directory of the system. -/
def isSystemDirectory (name : String) : Bool :=
  ["/", "/dev", "/etc", "/root", "/tmp", "/usr", "/var"].contains name ||
    programDirectories.contains name

/-- Whether a name is that of a program of the system. -/
def isSystemProgram (name : String) : Bool :=
  programDirectories.any fun directory =>
    utilityNames.any fun utility => name == directory ++ "/" ++ utility

/-- Whether a name is that of a file of the system. -/
def isSystemFile (name : String) : Bool :=
  name == "/etc/passwd" || isSystemProgram name

end PackageLayers.Program

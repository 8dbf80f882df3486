/-
Purpose: The machine that a project lives on.
Main exports: World, World.tick, World.store, World.overwrite, World.place,
  World.makeDirectory, World.touch, World.start
-/
import PackageLayers.Failure
import PackageLayers.Program.Interpreter
import PackageLayers.Project.Timestamp

namespace PackageLayers

/-!
A world has files and two clocks.  `now` is the time of day, which decides when a
refresh is due.  `stamp` is the time that was last given to a file: it goes
forward by a second for every file that is written anew, so that two contents of
a file never share a time of change.

What is beyond the library is a parameter.  The `disk` may refuse any step of writing
a file; by default it refuses none.  The `programs` do what they do, by chance even; by
default they are shell scripts.  To run one may change files, but takes no time of day.
A program is told a time for what it changes that is later than every stamp, and
another one for every run.
-/

/-- A step of writing a file that the system refuses, and why. -/
structure WriteFault where
  step : WriteStep
  reason : String
deriving Repr, Inhabited, DecidableEq

/-- The machine that a project lives on. -/
structure World where
  files : Files
  stamp : Nat
  now : Nat
  runs : Nat := 0
  chance : Nat := 0
  disk : Path → Content → Option WriteFault := fun _ _ => none
  programs : Programs := .shell

namespace World

/-- Whether no step of writing a file is refused. -/
def IsWritable (world : World) : Prop :=
  ∀ path content, world.disk path content = none

/-- The world with the next stamp. -/
def tick (world : World) : World :=
  { world with stamp := world.stamp + 1000 }

/-- The moment that the time of day is. -/
def moment (world : World) : Timestamp :=
  Timestamp.ofMilliseconds world.now

/-- Why a content is not written to a path, if the disk refuses a step of that.  There
are permissions to be copied only if there is something at the path. -/
def refusal? (world : World) (path : Path) (content : Content) :
    Option FileFault :=
  (world.disk path content).bind fun fault =>
    if fault.step = .permissions && !world.files.hasEntry path then none
    else some (.refused fault.step path fault.reason)

/-- What becomes of a write of which a step may be refused: what is in the way of the
directories is met first, then the step, and last what is in the way of the file. -/
def unlessRefused (refusal : Option FileFault) :
    Except FileFault Files → Except FileFault Files
  | .error (.directoryNotMade directory) => .error (.directoryNotMade directory)
  | written =>
      match refusal with
      | some fault => .error fault
      | none => written

/-- The world with a content stored at a path under the present stamp. -/
def store (world : World) (path : Path) (content : Content) :
    Except FileFault World :=
  (unlessRefused (world.refusal? path content)
    (world.files.store path content world.stamp)).map fun files =>
      { world with files := files }

/-- The world with a text stored at a path under a new stamp. -/
def overwrite (world : World) (path : Path) (text : String) :
    Except FileFault World :=
  world.tick.store path (.text text)

/-- The world with what a path leads to, or would lead to, changed by hand.
Directories on the way are made; where a file is in the way, nothing happens. -/
def change (world : World) (path : Path)
    (replace : Option Entry → Option Entry) : World :=
  match world.files.withDirectories? (Files.directoryOf path), path.fileName? with
  | some (files, parent), some name =>
      let location := parent ++ [name]
      match replace (files.get? location) with
      | some entry => { world with files := files.put location entry }
      | none => { world with files := files }
  | _, _ => world

/-- The world with a file written by hand, at a time or under a new stamp.  A
file that can be run stays so. -/
def place (world : World) (path : Path) (content : Content)
    (executable : Bool) (modified : Option Nat) : World :=
  let world := world.tick
  let file (executable : Bool) : Entry :=
    .file
      { content := content
        modified := .ofMilliseconds (modified.getD world.stamp)
        executable := executable }
  world.change path fun
    | some .directory => none
    | some (.file old) => some (file (executable || old.executable))
    | none => some (file executable)

/-- The world with a directory made by hand. -/
def makeDirectory (world : World) (path : Path) : World :=
  world.change path fun
    | none => some .directory
    | some _ => none

/-- The world with another time of change of a file: a given one or a new
stamp. -/
def touch (world : World) (path : Path) (modified : Option Nat) : World :=
  let world := world.tick
  match world.files.fileOf? path with
  | none => world
  | some file =>
      world.change path fun _ =>
        some (.file
          { file with modified := .ofMilliseconds (modified.getD world.stamp) })

/-- The time of change of what the next program changes. -/
def programStamp (world : World) : Nat :=
  world.stamp + 100000000000 + world.runs

/-- Run the program at a path with arguments and an input. -/
def start (world : World) (program : Path) (arguments : List String)
    (input : String) : Except StartFault Program.Run :=
  world.programs.start world.chance world.files world.programStamp program arguments
    input

/-- The world after a run that was stopped at a time, if it lasted so long. -/
def after (world : World) (run : Program.Run) (time : Nat) : World :=
  { world with files := run.filesAt time, runs := world.runs + 1 }

end World

end PackageLayers

/-
Purpose: What programs do, as it is seen from outside.
Main exports: StartFault, Program.Ending, Program.Run, Programs,
  Programs.IsDeterministic
-/
import PackageLayers.Files.Basic
import PackageLayers.Path.Basic

namespace PackageLayers

/-!
Programs are no part of the library.  What is known of one is what it did until its
end when it was started: what it wrote and when, how it ended, how long it took, and
what the files were afterwards and before each of its pauses.  A program that is
stopped from outside has changed files only up to that time.

What programs do may be any function of the files and of what they are told, and of
chance, which stands for all else that may decide it.
-/

/-- Why a program cannot be started. -/
inductive StartFault where
  | notFound
  | notExecutable
  | notProgram
  | notDirectory
deriving Repr, Inhabited, DecidableEq

/-- The system's description of a fault. -/
def StartFault.message : StartFault → String
  | .notFound => "No such file or directory (os error 2)"
  | .notExecutable => "Permission denied (os error 13)"
  | .notProgram => "Exec format error (os error 8)"
  | .notDirectory => "Not a directory (os error 20)"

namespace Program

/-! ### Endings -/

/-- The signals and the numbers that they have; zero stands for the end. -/
def signals : List (String × Nat) :=
  [("EXIT", 0), ("HUP", 1), ("INT", 2), ("QUIT", 3), ("ILL", 4), ("TRAP", 5),
    ("ABRT", 6), ("BUS", 7), ("FPE", 8), ("KILL", 9), ("USR1", 10), ("SEGV", 11),
    ("USR2", 12), ("PIPE", 13), ("ALRM", 14), ("TERM", 15), ("STKFLT", 16),
    ("CHLD", 17), ("CONT", 18), ("STOP", 19), ("TSTP", 20), ("TTIN", 21),
    ("TTOU", 22), ("URG", 23), ("XCPU", 24), ("XFSZ", 25), ("VTALRM", 26),
    ("PROF", 27), ("WINCH", 28), ("IO", 29), ("PWR", 30), ("SYS", 31)]

/-- The signals that do nothing to a program which does not look for them. -/
def harmlessSignals : List Nat :=
  [0, 17, 18, 23, 28]

/-- The signals that hold a program up. -/
def haltingSignals : List Nat :=
  [19, 20, 21, 22]

/-- What a shell writes when a signal ends a program that it started. -/
def signalDescription? (signal : Nat) : Option String :=
  match signal with
  | 1 => some "Hangup"
  | 3 => some "Quit"
  | 4 => some "Illegal instruction"
  | 5 => some "Trace/breakpoint trap"
  | 6 => some "Aborted"
  | 7 => some "Bus error"
  | 8 => some "Floating point exception"
  | 9 => some "Killed"
  | 10 => some "User defined signal 1"
  | 11 => some "Segmentation fault"
  | 12 => some "User defined signal 2"
  | 14 => some "Alarm clock"
  | 15 => some "Terminated"
  | 16 => some "Stack fault"
  | 24 => some "CPU time limit exceeded"
  | 25 => some "File size limit exceeded"
  | 26 => some "Virtual timer expired"
  | 27 => some "Profiling timer expired"
  | 29 => some "I/O possible"
  | 30 => some "Power failure"
  | 31 => some "Bad system call"
  | _ => none

/-- How a program ended. -/
inductive Ending where
  | status (number : Nat)
  | signal (number : Nat)
deriving Repr, Inhabited, DecidableEq

namespace Ending

/-- Whether a program ended well. -/
def isSuccess (ending : Ending) : Bool :=
  ending == .status 0

/-- The system's description of an ending. -/
def text : Ending → String
  | .status number => s!"exit status: {number}"
  | .signal number =>
      match signals.find? fun entry => entry.2 == number with
      | some entry => s!"signal: {number} (SIG{entry.1})"
      | none => s!"signal: {number}"

end Ending

/-! ### Runs -/

/-- The later of two times, of which either may never come. -/
def laterTime : Option Nat → Option Nat → Option Nat
  | some first, some second => some (max first second)
  | _, _ => none

/-- What a program did.  A run without a duration has no end.  What it wrote to is
closed when the last of its processes ends that could write there, if it does. -/
structure Run where
  output : List (Nat × List Char)
  complaints : List Char
  ending : Ending
  duration : Option Nat
  outputEnd : Option Nat
  complaintsEnd : Option Nat
  files : Files
  past : List (Nat × Files)

namespace Run

/-- The lines of what was written, of which some characters are read, each with
the time of its end. -/
def linesAfter (pending : List Char) (closing : Option Nat) :
    List (Nat × List Char) → List (Nat × Content)
  | [] =>
      match closing with
      | some time =>
          if pending.isEmpty then [] else [(time, .ofOctets pending)]
      | none => []
  | (time, octets) :: rest =>
      let pieces := Text.splitAt (· == '\n') (pending ++ octets)
      (pieces.dropLast.map fun line => (time, .ofOctets line)) ++
        linesAfter (pieces.getLastD []) closing rest

/-- The lines of what a program wrote, each with the time of its end. -/
def lines (run : Run) : List (Nat × Content) :=
  linesAfter [] run.outputEnd run.output

/-- The time from which on nothing more can be read of what a program writes, and
it has ended. -/
def outputOver (run : Run) : Option Nat :=
  laterTime run.duration run.outputEnd

/-- The time from which on nothing more can be read of what a program writes and
complains of, and it has ended. -/
def allOver (run : Run) : Option Nat :=
  laterTime run.outputOver run.complaintsEnd

/-- All that a program wrote. -/
def content (run : Run) : Content :=
  .ofOctets (run.output.flatMap Prod.snd)

/-- What a program complained of. -/
def complaintText (run : Run) : String :=
  Text.ofOctetsLossy run.complaints

/-- The files when the program is stopped at a time. -/
def filesAt (run : Run) (time : Nat) : Files :=
  match run.past.reverse.find? fun entry => time ≤ entry.1 with
  | some entry => entry.2
  | none => run.files

end Run

end Program

/-! ### Programs -/

/-- What programs do: `start` tells what becomes of the program at a path that is
started in files with a time for what it changes, with arguments and an input. -/
structure Programs where
  start : (chance : Nat) → Files → (stamp : Nat) → Path → (arguments : List String) →
    (input : String) → Except StartFault Program.Run

namespace Programs

/-- Whether programs do the same whenever they are started in the same way. -/
def IsDeterministic (programs : Programs) : Prop :=
  ∀ chance other, programs.start chance = programs.start other

end Programs

end PackageLayers

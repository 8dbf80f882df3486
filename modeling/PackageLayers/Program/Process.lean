/-
Purpose: Processes of a script that run beside each other.
Main exports: Shell.forProcess, Shell.stoppedAt, Shell.beside, Shell.writerEnd
-/
import PackageLayers.Program.Shell

namespace PackageLayers.Program.Shell

/-!
What runs on its own is evaluated before what runs beside it, from the time at
which both start; what it wrote keeps its times.  It cannot change the variables
and channels of the rest, but shares its surroundings.  A process is given half of
the effort that is left, so that one that never ends leaves some for the others.
-/

/-- The shell with less effort left, or stuck. -/
def spent (shell : Shell) (effort : Nat) : Shell :=
  if shell.around.effort ≤ effort then { shell with flow := .stuck }
  else
    { shell with
      around :=
        { shell.around with effort := shell.around.effort - effort } }

/-- The effort that texts take: more than one for long ones, so that a script
whose texts grow does not grow them forever. -/
def effortOf (texts : List String) : Nat :=
  1 + (texts.map String.length).foldl (· + ·) 0 / 100

/-- The shell with the channels and the places of streams that there were
before. -/
def reconnected (shell before : Shell) : Shell :=
  { shell with
    channels := before.channels
    around := shell.around.forget before.around.made before.channels }

/-- The shell that a part of a script starts with which runs on its own. -/
def own (shell : Shell) : Shell :=
  { shell with traps := [] }

/-- The effort that is left of an amount after a process, of which it was given
half. -/
def effortAfter (effort : Nat) (ran : Shell) : Nat :=
  if ran.flow == .stuck then effort - effort / 2
  else effort - (effort / 2 - ran.around.effort)

/-- The surroundings for a process of its own, which is given half of the
effort. -/
def forProcess (around : Surroundings) : Surroundings :=
  { around.newProcess with effort := around.effort / 2 }

/-- The shell after a program that is stopped at a time if it takes so long; then
its status is `late`. -/
def stoppedAt (shell ran : Shell) (limit late : Nat) : Shell :=
  let effort := effortAfter shell.around.effort ran
  let around := ran.around
  if around.time < limit && ran.flow != .stuck then
    { ran with
      around := { around with process := shell.around.process, effort := effort } }
  else
    let files :=
      match around.past.reverse.find? fun entry => limit ≤ entry.1 with
      | some entry => entry.2
      | none => around.files
    { ran with
      flow := shell.flow
      status := late
      around :=
        { around.cutOff around.process limit with
          files := files
          time := limit
          process := shell.around.process
          effort := effort
          past := around.past.filter fun entry => entry.1 < limit } }

/-- The shell that goes on while a part of its script runs beside it. -/
def beside (shell part : Shell) : Shell :=
  let around := part.around
  let isStuck := part.flow == .stuck
  let ends := if isStuck then none else some around.time
  let holds : List Hold :=
    part.channels.map fun channel => ⟨around.process, channel.2, ends⟩
  let alarm :=
    match part.flow with
    | .killed signal => some (around.time, signal)
    | _ => none
  { shell with
    status := 0
    jobs := ⟨around.process, ends, part.status % 256⟩ :: shell.jobs
    lastProcess := some around.process
    around :=
      { around with
        time := shell.around.time
        process := shell.around.process
        effort := effortAfter shell.around.effort part
        holds := holds ++ around.holds
        alarm := shell.around.alarm.or alarm
        past := shell.around.past } }

/-- The time at which the writer of a pipe ends, if it does: by itself, or by
writing what its reader, which ended, does not read. -/
def writerEnd (written : List (Nat × List Char)) (ends : Option Nat)
    (readerEnd : Nat) : Option Nat :=
  let refused := written.find? fun part =>
    if ends.isSome then readerEnd < part.1 else readerEnd ≤ part.1
  match refused with
  | some part => some part.1
  | none =>
      match ends, written.getLast? with
      | none, some _ => some readerEnd
      | _, _ => ends

/-- Whether a loop goes on after a turn, and the shell then. -/
def afterTurn (shell : Shell) : Bool × Shell :=
  match shell.flow with
  | .going => (true, shell)
  | .breaking levels =>
      (false,
        { shell with
          flow := if levels ≤ 1 then .going else .breaking (levels - 1) })
  | .continuing levels =>
      if levels ≤ 1 then (true, { shell with flow := .going })
      else (false, { shell with flow := .continuing (levels - 1) })
  | _ => (false, shell)

end PackageLayers.Program.Shell

/-
Purpose: Editing lines by a script of addressed commands.
Main exports: Filter.sed
-/
import PackageLayers.Program.Filter.EditScript
import PackageLayers.Program.Filter.Lines

namespace PackageLayers.Program.Filter

/-!
Lines are read one by one into a space where the commands of a script change
them.  A script is run by going from place to place on a number of rounds.  If
the last line has no end, its end is written only before something else.
-/

/-- A running edit: the lines to come, the space and what is kept aside, the
commands whose range is open, with the line that ends it if that is known, and
what was written to files. -/
structure Edit where
  coming : List (List Char)
  lineEnd : Char := '\n'
  endsOpen : Bool := false
  place : Nat := 0
  space : List Char := []
  aside : List Char := []
  out : List (List Char) := []
  lacksEnd : Bool := false
  queued : List (List Char) := []
  files : List (String × List Char) := []
  ranges : List (Nat × Option Nat) := []
  lastRegex : Option Regex := none
  changed : Bool := false
  hasQuit : Bool := false
  status : Nat := 0
deriving Inhabited

/-- What to do after a command. -/
inductive EditFlow where
  | goOn
  | goTo (place : Nat)
  | dropCycle
  | restart
  | quit (silent : Bool)
deriving Repr, Inhabited

namespace Edit

/-- Write a text, after the end of a line that lacks it. -/
def emit (edit : Edit) (text : List Char) : Edit :=
  if text.isEmpty then edit
  else
    { edit with
      out := (if edit.lacksEnd then edit.lineEnd :: text else text) :: edit.out
      lacksEnd := false }

/-- Whether the present line has no end. -/
def isOpen (edit : Edit) : Bool :=
  edit.endsOpen && edit.coming.isEmpty

/-- Write a line. -/
def write (edit : Edit) (line : List Char) : Edit :=
  if edit.isOpen then
    { edit with
      out := (if edit.lacksEnd then edit.lineEnd :: line else line) :: edit.out
      lacksEnd := true }
  else edit.emit (line ++ [edit.lineEnd])

/-- Write a line to a file, which may be the output. -/
def writeTo (edit : Edit) (name : String) (line : List Char) : Edit :=
  if name = "/dev/stdout" then edit.write line
  else
    let line := if edit.isOpen then line else line ++ [edit.lineEnd]
    let old := ((edit.files.find? fun entry => entry.1 == name).map Prod.snd).getD []
    { edit with
      files :=
        (name, old ++ line) :: edit.files.filter fun entry => entry.1 != name }

/-- Write what was queued for the end of the cycle. -/
def flush (edit : Edit) : Edit :=
  edit.queued.reverse.foldl (fun (edit : Edit) text => edit.emit text)
    { edit with queued := [] }

/-- The expression that is meant: the given one, or the last that was used. -/
def regex (edit : Edit) (given : Option Regex) : Regex :=
  (given.or edit.lastRegex).getD .nothing

/-- Whether an address chooses the present line. -/
def isChosen (edit : Edit) : LineChoice → Bool
  | .number place => edit.place = place
  | .step first step =>
      if step = 0 then edit.place = first
      else first ≤ edit.place && (edit.place - first) % step = 0
  | .last => edit.coming.isEmpty
  | .regex given ignoreCase =>
      ((edit.regex given).search? ignoreCase edit.space).isSome
  | .offset _ | .multiple _ => false

/-- The edit with the expression of an address as the last that was used. -/
def noting (edit : Edit) : LineChoice → Edit
  | .regex (some regex) _ => { edit with lastRegex := some regex }
  | _ => edit

/-- The last line of a range that begins at the present line, if it is known. -/
def rangeEnd? (edit : Edit) : LineChoice → Option Nat
  | .number place => some place
  | .offset count => some (edit.place + count)
  | .multiple count =>
      some (if count = 0 then edit.place else (edit.place + count - 1) / count * count)
  | .last => if edit.coming.isEmpty then some edit.place else none
  | _ => none

/-- Whether a command is for the present line, where `index` is its place in the
script. -/
def isAddressed (edit : Edit) (index : Nat) (command : EditCommand) :
    Bool × Edit :=
  let close (edit : Edit) : Edit :=
    { edit with ranges := edit.ranges.filter fun range => range.1 ≠ index }
  let opened (edit : Edit) (finish : Option Nat) : Edit :=
    { edit with ranges := (index, finish) :: edit.ranges }
  let (found, edit) :=
    match command.addresses with
    | [only] => (edit.isChosen only, edit.noting only)
    | [first, second] =>
        match edit.ranges.find? fun range => range.1 = index with
        | some (_, some finish) =>
            if edit.place < finish then (true, edit)
            else (edit.place = finish, close edit)
        | some (_, none) =>
            (true,
              if edit.isChosen second then close (edit.noting second) else edit)
        | none =>
            if edit.isChosen first then
              let edit := edit.noting first
              match edit.rangeEnd? second with
              | some finish =>
                  (true,
                    if edit.place < finish then opened edit (some finish) else edit)
              | none => (true, opened edit none)
            else (false, edit)
    | _ => (true, edit)
  (found != command.inverted, edit)

/-- A text in the case that marks ask for, and the mark for one character that is
left. -/
def inCase (whole one : CaseMark) (text : List Char) : List Char × CaseMark :=
  let changed (mark : CaseMark) (c : Char) : Char :=
    match mark with
    | .upper | .upperOne => c.toUpper
    | .lower | .lowerOne => c.toLower
    | .asIs => c
  match text with
  | [] => ([], one)
  | first :: rest =>
      let lead := if one = .asIs then changed whole first else changed one first
      (lead :: rest.map (changed whole), .asIs)

/-- The text of a replacement for a match. -/
def replaced (found : Regex.Found) (parts : List Replacement) : List Char :=
  let content : Replacement → List Char
    | .text content => content
    | .whole => found.text
    | .group number =>
        if number = 0 then found.text
        else
          ((found.groups.find? fun entry => entry.1 == number).map
            Prod.snd).getD []
    | .mark _ => []
  let (_, _, out) :=
    parts.foldl
      (fun (whole, one, out) part =>
        match part with
        | .mark .upperOne => (whole, .upperOne, out)
        | .mark .lowerOne => (whole, .lowerOne, out)
        | .mark mark => (mark, .asIs, out)
        | part =>
            let (text, one) := inCase whole one (content part)
            (whole, one, text :: out))
      (CaseMark.asIs, CaseMark.asIs, [])
  out.reverse.flatten

/-- A space with matches replaced from the `nth` on, and whether any was.  An
empty match does not count right after another. -/
def substituted (regex : Regex) (ignoreCase : Bool)
    (replacement : List Replacement) (nth : Nat) (all : Bool) :
    (rounds : Nat) → (count : Nat) → (after : Option Nat) → Regex.Spot →
      List Char × Bool
  | 0, _, _, spot => (spot.rest, false)
  | rounds + 1, count, after, spot =>
      let accept (start finish : Regex.Spot) : Bool :=
        !(start.place = finish.place && after = some start.place)
      match regex.searchAt? ignoreCase accept spot with
      | none => (spot.rest, false)
      | some found =>
          let isWanted := count + 1 = nth || (all && nth ≤ count + 1)
          let shown :=
            if isWanted then replaced found replacement else found.text
          if isWanted && !all then
            (found.before ++ shown ++ found.after.rest, true)
          else
            let next : Regex.Spot := { found.after with groups := [] }
            if found.text.isEmpty then
              match next.rest with
              | [] => (found.before ++ shown, isWanted)
              | c :: rest =>
                  let (later, any) :=
                    substituted regex ignoreCase replacement nth all rounds
                      (count + 1) none (next.next c rest)
                  (found.before ++ shown ++ c :: later, isWanted || any)
            else
              let (later, any) :=
                substituted regex ignoreCase replacement nth all rounds
                  (count + 1) (some next.place) next
              (found.before ++ shown ++ later, isWanted || any)

/-- The characters up to the first line end. -/
def firstLine (space : List Char) : List Char :=
  space.takeWhile (· ≠ '\n')

/-- A character as it is written where none may be mistaken. -/
def plainly (c : Char) : List Char :=
  let octal (code : Nat) : List Char :=
    let digits := Nat.toDigits 8 code
    '\\' :: List.replicate (3 - digits.length) '0' ++ digits
  match c with
  | '\\' => ['\\', '\\']
  | '\x07' => ['\\', 'a']
  | '\x08' => ['\\', 'b']
  | '\x0c' => ['\\', 'f']
  | '\n' => ['\\', 'n']
  | '\r' => ['\\', 'r']
  | '\t' => ['\\', 't']
  | '\x0b' => ['\\', 'v']
  | c => if ' ' ≤ c && c.toNat < 127 then [c] else octal c.toNat

/-- Pieces of a text put into lines of a width, of which all but the last end with
a backslash. -/
def folded (width : Nat) (pieces : List (List Char)) : List Char :=
  let (_, out) :=
    pieces.foldl
      (fun (used, out) piece =>
        if width < used + piece.length then
          (piece.length, (['\\', '\n'] ++ piece) :: out)
        else (used + piece.length, piece :: out))
      (0, [])
  out.reverse.flatten

/-- The place of a label in a script; the end of the script for no name. -/
def placeOf (script : List EditCommand) (name : String) : Nat :=
  if name.isEmpty then script.length
  else script.findIdx fun command => command.action == .label name

/-- How a script is run: its commands, whether lines are not shown by themselves,
and what can be read from files. -/
structure Plan where
  script : List EditCommand
  silent : Bool
  look : String → List Char

/-- Carry out the command at a place. -/
def perform (plan : Plan) (index : Nat) (edit : Edit) (command : EditCommand) :
    Edit × EditFlow :=
  match command.action with
  | .substitute given replacement flags =>
      let regex := edit.regex given
      let (space, any) :=
        substituted regex flags.ignoreCase replacement flags.nth flags.all
          (edit.space.length + 2) 0 none ⟨0, none, edit.space, []⟩
      let edit := { edit with lastRegex := some regex }
      if any then
        let edit := { edit with space := space, changed := true }
        let edit := if flags.shows then edit.write edit.space else edit
        (flags.target.elim edit fun name => edit.writeTo name edit.space, .goOn)
      else (edit, .goOn)
  | .translate source target =>
      let swap (c : Char) : Char :=
        match source.idxOf? c with
        | some place => (target[place]?).getD c
        | none => c
      ({ edit with space := edit.space.map swap }, .goOn)
  | .delete => (edit, .dropCycle)
  | .deleteLine =>
      if edit.space.contains '\n' then
        ({ edit with space := edit.space.drop ((firstLine edit.space).length + 1) },
          .restart)
      else (edit, .dropCycle)
  | .print => (edit.write edit.space, .goOn)
  | .printLine => (edit.write (firstLine edit.space), .goOn)
  | .printPlainly =>
      (edit.emit (folded 69 (edit.space.map plainly) ++ ['$', '\n']), .goOn)
  | .next =>
      match edit.coming with
      | [] => ({ edit with hasQuit := true }, .quit false)
      | line :: rest =>
          let edit := (if plan.silent then edit else edit.write edit.space).flush
          ({ edit with space := line, coming := rest, place := edit.place + 1 },
            .goOn)
  | .join =>
      match edit.coming with
      | [] => ({ edit with hasQuit := true }, .quit false)
      | line :: rest =>
          let edit := edit.flush
          ({ edit with
              space := edit.space ++ edit.lineEnd :: line
              coming := rest
              place := edit.place + 1 },
            .goOn)
  | .keep append =>
      ({ edit with
          aside := if append then edit.aside ++ edit.lineEnd :: edit.space
            else edit.space },
        .goOn)
  | .recall append =>
      ({ edit with
          space := if append then edit.space ++ edit.lineEnd :: edit.aside
            else edit.aside },
        .goOn)
  | .exchange =>
      ({ edit with space := edit.aside, aside := edit.space }, .goOn)
  | .clear => ({ edit with space := [] }, .goOn)
  | .quit status silent =>
      ({ edit with status := status, hasQuit := true }, .quit silent)
  | .number => (edit.emit (toString edit.place ++ "\n").toList, .goOn)
  | .fileName => (edit.emit ['-', '\n'], .goOn)
  | .textAfter text => ({ edit with queued := text :: edit.queued }, .goOn)
  | .textBefore text => (edit.emit text, .goOn)
  | .change text =>
      let isOpen := edit.ranges.any fun range => range.1 = index
      (if isOpen && !command.inverted then edit else edit.emit text, .dropCycle)
  | .readFile name =>
      ({ edit with queued := plan.look name :: edit.queued }, .goOn)
  | .writeFile name => (edit.writeTo name edit.space, .goOn)
  | .openBlock _ | .closeBlock | .label _ => (edit, .goOn)
  | .branch name => (edit, .goTo (placeOf plan.script name))
  | .branchIfChanged name =>
      if edit.changed then
        ({ edit with changed := false }, .goTo (placeOf plan.script name))
      else (edit, .goOn)
  | .branchIfUnchanged name =>
      if edit.changed then ({ edit with changed := false }, .goOn)
      else (edit, .goTo (placeOf plan.script name))

/-- Run a script from a place to the end of a cycle, and then the cycles of the
lines that come. -/
def cycles (plan : Plan) : (rounds : Nat) → (place : Nat) → Edit → Edit
  | 0, _, edit => edit
  | rounds + 1, place, edit =>
      let finish (edit : Edit) (shows : Bool) : Edit :=
        (if shows && !plan.silent then edit.write edit.space else edit).flush
      let next (edit : Edit) : Edit :=
        match edit.coming with
        | [] => edit
        | line :: rest =>
            cycles plan rounds 0
              { edit with
                space := line
                coming := rest
                place := edit.place + 1
                changed := false }
      match plan.script[place]? with
      | none => next (finish edit true)
      | some command =>
          let (isFor, edit) := edit.isAddressed place command
          if !isFor then
            match command.action with
            | .openBlock afterEnd => cycles plan rounds afterEnd edit
            | _ => cycles plan rounds (place + 1) edit
          else
            match perform plan place edit command with
            | (edit, .goOn) => cycles plan rounds (place + 1) edit
            | (edit, .goTo other) => cycles plan rounds other edit
            | (edit, .dropCycle) => next (finish edit false)
            | (edit, .restart) => cycles plan rounds 0 edit.flush
            | (edit, .quit quiet) => finish edit !quiet

/-- The names of the files that a script writes. -/
def targets (script : List EditCommand) : List String :=
  script.filterMap fun command =>
    match command.action with
    | .writeFile name => some name
    | .substitute _ _ flags => flags.target
    | _ => none

/-- The ranges that are open before the first line. -/
def firstRanges (script : List EditCommand) : List (Nat × Option Nat) :=
  script.zipIdx.filterMap fun (command, index) =>
    match command.addresses with
    | [.number 0, _] => some (index, none)
    | _ => none

end Edit

/-- What a script makes of a text, whose lines have an end. -/
def edited (plan : Edit.Plan) (lineEnd : Char) (text : List Char) : Outcome :=
  let empty :=
    ((Edit.targets plan.script).filter (· ≠ "/dev/stdout")).map
      fun name => (name, [])
  let pieces := Text.splitAt (· == lineEnd) text
  let isOpen := text.getLast?.any (· ≠ lineEnd)
  let lines := if isOpen then pieces else pieces.dropLast
  match lines with
  | [] => { demand := {}, stored := empty }
  | line :: rest =>
      let rounds := 4 * (plan.script.length + 2) * (rest.length + 2) + 10000
      let ended := Edit.cycles plan rounds 0
        { coming := rest
          lineEnd := lineEnd
          endsOpen := isOpen
          space := line
          place := 1
          files := empty
          ranges := Edit.firstRanges plan.script }
      { said := [(false, ended.out.reverse.flatten)]
        status := ended.status
        stored := ended.files
        demand :=
          if ended.hasQuit then .before (afterLines ended.place text) false
          else {} }

/-- The first complaint about files that cannot be edited. -/
def sedComplaint (inPlace : Bool) (name reason : String) : String :=
  if reason = "Is a directory" then
    if inPlace then s!"sed: couldn't edit {name}: not a regular file"
    else s!"sed: read error on {name}: {reason}"
  else s!"sed: can't read {name}: {reason}"

/-- Texts one after the other, each with an end of its last line but the last. -/
def joinedTexts (lineEnd : Char) : List (List Char) → List Char
  | [] => []
  | [text] => text
  | text :: rest =>
      (if text.getLast?.any (· ≠ lineEnd) then text ++ [lineEnd] else text) ++
        joinedTexts lineEnd rest

/-- Edit lines. -/
def sed (supply : Supply) (arguments : List String) : Outcome :=
  let table : OptionTable :=
    { flags := "nErsuzD"
      valued := "efl"
      optional := "i"
      long := [("quiet", 'n'), ("silent", 'n'), ("regexp-extended", 'E'),
        ("expression", 'e'), ("file", 'f'), ("in-place", 'i'), ("separate", 's'),
        ("unbuffered", 'u'), ("null-data", 'z'), ("posix", 'D'),
        ("line-length", 'l')] }
  withOptions "sed" 1 table arguments fun options =>
    let extended := options.has 'E' || options.has 'r'
    let fromFile (name : String) : Except String String :=
      match supply.readFile name with
      | .ok text => .ok (String.ofList (Text.dropTrailing (· == '\n') text))
      | .error reason => .error s!"couldn't open file {name}: {reason}"
    let given : List (Except String String) := options.flags.filterMap fun flag =>
      if flag.1 = 'e' then some (.ok flag.2)
      else if flag.1 = 'f' then some (fromFile flag.2)
      else none
    let (scripts, names) : List (Except String String) × List String :=
      match given, options.operands with
      | [], script :: names => ([.ok script], names)
      | given, names => (given, names)
    let script := do
      let expressions ← scripts.mapM id
      let commands ← editScript extended expressions
      pure (expressions, commands)
    match script with
    | .error text => .failure 1 ("sed: " ++ text)
    | .ok (expressions, commands) =>
        let isQuiet := (expressions.headD "").startsWith "#n\n"
        let look (name : String) : List Char :=
          if name = "/dev/stdin" then supply.input
          else ((supply.readFile name).toOption).getD []
        let plan : Edit.Plan := ⟨commands, options.has 'n' || isQuiet, look⟩
        let lineEnd := if options.has 'z' then '\x00' else '\n'
        let inPlace := options.has 'i'
        let texts := supply.texts names
        let complaints := texts.filterMap fun entry =>
          match entry.2 with
          | .ok _ => none
          | .error reason =>
              some (sedComplaint inPlace entry.1 reason,
                if reason = "Is a directory" then 4 else 2)
        let readable := texts.filterMap fun entry =>
          entry.2.toOption.map fun text => (entry.1, text)
        let failed := complaints.foldl
          (fun (outcome : Outcome) (text, status) =>
            outcome.followedBy (.failure status text))
          {}
        let outcome :=
          if inPlace then
            let suffix := (options.value? 'i').getD ""
            readable.foldl
              (fun (outcome : Outcome) entry =>
                let part := edited plan lineEnd entry.2
                let backup :=
                  if suffix.isEmpty then [] else [(entry.1 ++ suffix, entry.2)]
                outcome.followedBy
                  { part with
                    said := []
                    stored := backup ++ (entry.1, part.out) :: part.stored })
              {}
          else if options.has 's' then
            readable.foldl
              (fun (outcome : Outcome) entry =>
                outcome.followedBy (edited plan lineEnd entry.2))
              {}
          else edited plan lineEnd (joinedTexts lineEnd (readable.map Prod.snd))
        let demand :=
          if (demandOf names).reads && !inPlace then outcome.demand else .nothing
        { failed.followedBy outcome with
          demand := demand
          flows := options.has 'u' && demand.unneeded.isNone }

end PackageLayers.Program.Filter

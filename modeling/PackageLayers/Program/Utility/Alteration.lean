/-
Purpose: Utilities that make, remove, copy and change files.
Main exports: Shell.makeDirectories, Shell.removeAll, Shell.removeDirectories,
  Shell.touchAll, Shell.transferAll, Shell.changeModes, Shell.makeTemporary
-/
import PackageLayers.Program.Utility.Listing

namespace PackageLayers.Program.Shell

/-!
Each of these utilities goes through its operands; what cannot be done with one of
them is said, and the others still have their turn.  Permissions but for the one to
run a file do not exist, and neither do links.
-/

/-- The shell with other files. -/
def withFiles (shell : Shell) (files : Files) : Shell :=
  { shell with around := { shell.around with files := files } }

/-- Say what was done, if that is wanted. -/
def tell (shell : Shell) (options : Options) (text : String) : Shell :=
  if options.has 'v' then shell.say text else shell

/-- The names of the directories on the way to a name, and the name. -/
def stepsTo (name : String) : List String :=
  let steps :=
    (Text.pieces (· == '/') name).filter fun step => !step.isEmpty
  let start := if name.startsWith "/" then "/" else ""
  (List.range steps.length).map fun count =>
    start ++ "/".intercalate (steps.take (count + 1))

/-- Make a directory, and with `p` also those on the way. -/
def makeDirectory (options : Options) (shell : Shell) (name : String) : Shell :=
  let refused (name reason : String) : Shell :=
    shell.trouble 1
      ("mkdir: cannot create directory " ++ quotedName name ++ ": " ++ reason)
  let made (name : String) : String :=
    "mkdir: created directory " ++ quotedName name
  if options.has 'p' then
    match (shell.path? name).bind shell.around.files.withDirectories? with
    | some (files, _) =>
        ((stepsTo name).filter fun step => (shell.entry? step).isNone).foldl
          (fun (shell : Shell) step => shell.tell options (made step))
          (shell.withFiles files)
    | none =>
        let wrong :=
          (stepsTo name).find? fun step => (shell.file? step).isSome
        if wrong = some name then refused name "File exists"
        else refused (wrong.getD name) "Not a directory"
  else if (shell.entry? name).isSome then refused name "File exists"
  else
    match shell.newLocation? name with
    | some location => (shell.put location .directory).tell options (made name)
    | none => refused name (shell.obstacleText name)

/-- Make directories. -/
def makeDirectories (shell : Shell) (arguments : List String) : Shell :=
  let table : OptionTable :=
    { flags := "pv"
      valued := "m"
      long := [("parents", 'p'), ("verbose", 'v'), ("mode", 'm')] }
  shell.withOptions "mkdir" 1 table arguments fun options =>
    if options.operands.isEmpty then shell.missingOperand "mkdir"
    else options.operands.foldl (makeDirectory options) (shell.withStatus 0)

/-- The names of all that is at and under a name, what is inside first. -/
def namesUnder (shell : Shell) : (rounds : Nat) → String → List String
  | 0, _ => []
  | rounds + 1, name =>
      (if shell.isDirectory name then
        (shell.listed true name).flatMap fun child =>
          namesUnder shell rounds (inDirectory name child)
      else []) ++ [name]

/-- Remove a file, or a directory with all that is in it, or an empty one. -/
def removeName (options : Options) (shell : Shell) (name : String) : Shell :=
  let refused (reason : String) : Shell :=
    shell.trouble 1 ("rm: cannot remove " ++ quotedName name ++ ": " ++ reason)
  let last := (splitName name).2
  let gone (name : String) : String :=
    if shell.isDirectory name then "removed directory " ++ quotedName name
    else "removed " ++ quotedName name
  let removeAt (location : Location) : Shell :=
    let names :=
      if options.has 'v' then
        shell.namesUnder (shell.around.files.entries.length + 1) name
      else []
    names.foldl (fun (shell : Shell) name => shell.say (gone name))
      (shell.withFiles (shell.around.files.removeUnder location))
  match shell.locate name with
  | .error _ =>
      if options.has 'f' then shell else refused (shell.obstacleText name)
  | .ok location =>
      let all := options.has 'r' || options.has 'R'
      let isDirectory := shell.around.files.isDirectory location
      if isDirectory && all && (last = "." || last = "..") then
        shell.trouble 1
          ("rm: refusing to remove '.' or '..' directory: skipping " ++
            quotedName name)
      else if !isDirectory || all then removeAt location
      else if !options.has 'd' then refused "Is a directory"
      else if !(namesIn shell.around.files location).isEmpty then
        refused "Directory not empty"
      else removeAt location

/-- Remove what names lead to. -/
def removeAll (shell : Shell) (arguments : List String) : Shell :=
  let table : OptionTable :=
    { flags := "rRfdviI"
      long := [("recursive", 'r'), ("force", 'f'), ("dir", 'd'),
        ("verbose", 'v')] }
  shell.withOptions "rm" 1 table arguments fun options =>
    if options.operands.isEmpty then
      if options.has 'f' then shell.withStatus 0
      else shell.missingOperand "rm"
    else options.operands.foldl (removeName options) (shell.withStatus 0)

/-- Remove an empty directory. -/
def removeDirectory (options : Options) (shell : Shell) (name : String) : Shell :=
  let refused (reason : String) : Shell :=
    shell.trouble 1
      ("rmdir: failed to remove " ++ quotedName name ++ ": " ++ reason)
  let shell := shell.tell options ("rmdir: removing directory, " ++ quotedName name)
  match shell.locate name with
  | .error _ => refused (shell.obstacleText name)
  | .ok location =>
      if !shell.around.files.isDirectory location then
        refused "Not a directory"
      else if !(namesIn shell.around.files location).isEmpty then
        if options.has 'i' then shell else refused "Directory not empty"
      else shell.withFiles (shell.around.files.removeUnder location)

/-- Remove empty directories, and with `p` also those that they are in. -/
def removeDirectories (shell : Shell) (arguments : List String) : Shell :=
  let table : OptionTable :=
    { flags := "pvi"
      long := [("parents", 'p'), ("verbose", 'v'),
        ("ignore-fail-on-non-empty", 'i')] }
  shell.withOptions "rmdir" 1 table arguments fun options =>
    let names :=
      options.operands.flatMap fun name =>
        if options.has 'p' then (stepsTo name).reverse else [name]
    if names.isEmpty then shell.missingOperand "rmdir"
    else names.foldl (removeDirectory options) (shell.withStatus 0)

/-- Make a file, or give it another time of change. -/
def touch (options : Options) (time : FileTime) (shell : Shell) (name : String) :
    Shell :=
  match shell.entry? name, shell.newLocation? name with
  | some .directory, _ => shell
  | some (.file file), some location =>
      shell.put location (.file { file with modified := time })
  | none, some location =>
      if options.has 'c' then shell
      else
        shell.put location (.file { content := .ofOctets [], modified := time })
  | _, none =>
      if options.has 'c' then shell
      else
        shell.trouble 1
          ("touch: cannot touch " ++ quotedName name ++ ": " ++
            shell.obstacleText name)

/-- The time that a number of seconds since 1970 is, with a sign and a fraction if
there are any. -/
def timeOfSeconds? (digits : List Char) : Option FileTime :=
  let (negative, digits) :=
    match digits with
    | '-' :: rest => (true, rest)
    | _ => (false, digits)
  let whole := digits.takeWhile (· ≠ '.')
  let fraction := (digits.drop whole.length).drop 1
  if whole.isEmpty || !(whole ++ fraction).all Char.isDigit then none
  else
    let billionths := (fraction ++ List.replicate 9 '0').take 9
    let time := 1000000000 * Text.decimal whole + Text.decimal billionths
    some (some (if negative then -Int.ofNat time else Int.ofNat time))

/-- Make files or give them another time of change: this time, that of another
file, or one in seconds. -/
def touchAll (shell : Shell) (arguments : List String) : Shell :=
  let table : OptionTable :=
    { flags := "acfmh"
      valued := "rdt"
      long := [("no-create", 'c'), ("reference", 'r'), ("date", 'd')] }
  shell.withOptions "touch" 1 table arguments fun options =>
    let now : FileTime := .ofMilliseconds shell.around.stamp
    let time : Except String FileTime :=
      match options.value? 'r', options.value? 'd' with
      | some name, _ =>
          match shell.file? name with
          | some file => .ok file.modified
          | none =>
              if shell.isDirectory name then .ok now
              else
                .error
                  ("touch: failed to get attributes of " ++ quotedName name ++
                    ": " ++ shell.obstacleText name)
      | none, some date =>
          match date.toList with
          | '@' :: digits =>
              match timeOfSeconds? digits with
              | some time => .ok time
              | none => .error ("touch: invalid date format " ++ quotedName date)
          | _ => .ok now
      | none, none => .ok now
    match time, options.operands with
    | .error complaint, _ => shell.trouble 1 complaint
    | .ok _, [] => shell.missingOperand "touch" "file "
    | .ok time, names =>
        names.foldl (touch options time) (shell.withStatus 0)

/-- The files with all that is at and under a location put under another.  A file
keeps its time of change if it is moved as it is; one that is copied over another
can be run if that could. -/
def copied (files : Files) (stamp : Option Nat) (source target : Location) :
    Files :=
  files.entries.foldl
    (fun files entry =>
      if source.isPrefixOf entry.1 then
        let moved := target ++ entry.1.drop source.length
        match entry.2, stamp with
        | .directory, _ => files.put moved .directory
        | .file file, none => files.put moved (.file file)
        | .file file, some stamp =>
            let executable :=
              match files.file? moved with
              | some old => old.executable
              | none => file.executable
            files.put moved
              (.file
                { file with
                  modified := .ofMilliseconds stamp
                  executable := executable })
      else files)
    files

/-- The name under which something is put for a target: in it if the target is a
directory. -/
def destination (shell : Shell) (options : Options) (name target : String) :
    String :=
  if shell.isDirectory target && !options.has 'T' then
    inDirectory target (splitName name).2
  else target

/-- Copy a name, or move it. -/
def transfer (options : Options) (utility : String) (moves : Bool)
    (target : String) (shell : Shell) (name : String) : Shell :=
  let refused (text : String) : Shell := shell.trouble 1 (utility ++ ": " ++ text)
  let all := moves || "rRa".toList.any options.has
  match shell.locate name with
  | .error _ =>
      refused
        ("cannot stat " ++ quotedName name ++ ": " ++ shell.obstacleText name)
  | .ok source =>
      let goal := shell.destination options name target
      let isDirectory := shell.around.files.isDirectory source
      if isDirectory && !all then
        refused ("-r not specified; omitting directory " ++ quotedName name)
      else
        match shell.newLocation? goal with
        | none =>
            let verb :=
              if moves then
                "cannot move " ++ quotedName name ++ " to " ++ quotedName goal
              else if isDirectory then
                "cannot create directory " ++ quotedName goal
              else "cannot create regular file " ++ quotedName goal
            refused (verb ++ ": " ++ shell.obstacleText goal)
        | some place =>
            if place = source && (!isDirectory || moves) then
              refused
                (quotedName name ++ " and " ++ quotedName goal ++
                  " are the same file")
            else if isDirectory && source.isPrefixOf place then
              refused
                ((if moves then "cannot move " ++ quotedName name ++
                  " to a subdirectory" else "cannot copy a directory, " ++
                    quotedName name ++ ", into") ++
                  (if moves then " of itself, " else " itself, ") ++
                  quotedName goal)
            else if !isDirectory && shell.isDirectory goal then
              refused
                ("cannot overwrite directory " ++ quotedName goal ++
                  (if moves then " with non-directory" else
                    " with non-directory " ++ quotedName name))
            else if isDirectory && (shell.file? goal).isSome then
              refused
                ("cannot overwrite non-directory " ++ quotedName goal ++
                  " with directory " ++ quotedName name)
            else if options.has 'n' && (shell.entry? goal).isSome then shell
            else
              let keeps := moves || options.has 'p' || options.has 'a'
              let stamp := if keeps then none else some shell.around.stamp
              let before :=
                if moves then shell.around.files.removeUnder place
                else shell.around.files
              let files := copied before stamp source place
              let files := if moves then files.removeUnder source else files
              let arrow := quotedName name ++ " -> " ++ quotedName goal
              (shell.withFiles files).tell options
                (if moves then "renamed " ++ arrow else arrow)

/-- Copy or move names to the last of them, or to a directory that an option
names. -/
def transferAll (shell : Shell) (utility : String) (moves : Bool)
    (arguments : List String) : Shell :=
  let table : OptionTable :=
    { flags := "rRafpnvuiTdPLlx"
      valued := "tS"
      long := [("recursive", 'r'), ("archive", 'a'), ("force", 'f'),
        ("no-clobber", 'n'), ("verbose", 'v'), ("update", 'u'),
        ("target-directory", 't'), ("no-target-directory", 'T'),
        ("preserve", 'p')] }
  shell.withOptions utility 1 table arguments fun options =>
    let refused (text : String) : Shell :=
      shell.trouble 1 (utility ++ ": " ++ text)
    let run (names : List String) (target : String) : Shell :=
      names.foldl (transfer options utility moves target) (shell.withStatus 0)
    match options.value? 't', options.operands with
    | _, [] => shell.missingOperand utility "file "
    | some target, names =>
        if shell.isDirectory target then run names target
        else
          refused
            ("target directory " ++ quotedName target ++ ": " ++
              if (shell.file? target).isSome then "Not a directory"
              else shell.obstacleText target)
    | none, [name] =>
        refused
          ("missing destination file operand after " ++ quotedName name ++
            hintFor utility)
    | none, names =>
        let target := names.getLastD ""
        if 2 < names.length && !shell.isDirectory target then
          refused
            ("target " ++ quotedName target ++ ": " ++
              if (shell.file? target).isSome then "Not a directory"
              else shell.obstacleText target)
        else run names.dropLast target

/-- Whether a part of a mode lets a file be run, if it could be run or not before;
none if the part is no mode. -/
def modePart? (before : Bool) (part : List Char) : Option Bool :=
  let who := part.takeWhile fun c => "ugoa".toList.contains c
  match part.drop who.length with
  | operator :: letters =>
      if !letters.all fun c => "rwxXst".toList.contains c then none
      else
        let runs :=
          letters.contains 'x' || letters.contains 'X' && before
        match operator with
        | '+' => some (before || runs)
        | '-' => some (before && !runs)
        | '=' => some runs
        | _ => none
  | [] => none

/-- Whether a mode lets a file be run, if it could be run or not before; none if
the text is no mode. -/
def runnable? (mode : String) (before : Bool) : Option Bool :=
  let chars := mode.toList
  if !chars.isEmpty && chars.all fun c => '0' ≤ c && c ≤ '7' then
    some ((chars.drop (chars.length - 3)).any fun c => c.toNat % 2 = 1)
  else (Text.splitAt (· == ',') chars).foldlM modePart? before

/-- Change whether files can be run. -/
def changeModes (shell : Shell) (arguments : List String) : Shell :=
  let isMode (argument : String) : Bool :=
    argument.startsWith "-" && (runnable? argument false).isSome
  let mode? := arguments.find? isMode
  let rest :=
    match mode? with
    | some mode => mode :: arguments.erase mode
    | none => arguments
  let (flags, operands) := rest.partition fun argument =>
    ["-R", "-f", "-v", "-c", "--"].contains argument
  match operands with
  | [] => shell.missingOperand "chmod"
  | [mode] =>
      shell.trouble 1
        ("chmod: missing operand after " ++ quotedName mode ++ hintFor "chmod")
  | mode :: names =>
      if (runnable? mode false).isNone then
        shell.trouble 1
          ("chmod: invalid mode: " ++ quotedName mode ++ hintFor "chmod")
      else
        let names :=
          if flags.contains "-R" then
            names.flatMap fun name =>
              shell.namesUnder (shell.around.files.entries.length + 1) name
          else names
        names.foldl
          (fun (shell : Shell) name =>
            match shell.entry? name, shell.newLocation? name with
            | some (.file file), some location =>
                let executable :=
                  (runnable? mode file.executable).getD file.executable
                shell.put location (.file { file with executable := executable })
            | some .directory, _ => shell
            | _, _ =>
                if flags.contains "-f" then shell.withStatus 1
                else
                  shell.trouble 1
                    ("chmod: cannot access " ++ quotedName name ++ ": " ++
                      shell.obstacleText name))
          (shell.withStatus 0)

/-- The name of a new file or directory for a template that ends in letters `X`
and a suffix. -/
def temporaryName (made : Nat) (template suffix : String) : String :=
  let start := Text.dropTrailing (· == 'X') template.toList
  let digits := (toString (1000000000 + made)).toList
  let room := template.length - start.length
  String.ofList (start ++ digits.drop (digits.length - room)) ++ suffix

/-- Make a file or directory of a new name. -/
def makeTemporary (shell : Shell) (arguments : List String) : Shell :=
  let table : OptionTable :=
    { flags := "dqut"
      valued := "ps"
      long := [("directory", 'd'), ("quiet", 'q'), ("dry-run", 'u'),
        ("suffix", 's'), ("tmpdir", 'p')] }
  let arguments := arguments.map fun argument =>
    if argument = "--tmpdir" then "-t" else argument
  shell.withOptions "mktemp" 1 table arguments fun options =>
    let template := options.operands.headD "tmp.XXXXXXXXXX"
    let suffix := (options.value? 's').getD ""
    let marks :=
      template.length - (Text.dropTrailing (· == 'X') template.toList).length
    let room := ((shell.valueOf? "TMPDIR").filter fun name => !name.isEmpty).getD "/tmp"
    let isInRoom := options.operands.isEmpty || options.has 't'
    let name := temporaryName shell.around.made template suffix
    let name :=
      match options.value? 'p' with
      | some directory => inDirectory directory name
      | none => if isInRoom then inDirectory room name else name
    let kind := if options.has 'd' then "directory" else "file"
    if marks < 3 then
      shell.trouble 1
        ("mktemp: too few X's in template " ++ quotedName template)
    else
      match shell.newLocation? name with
      | some location =>
          let around := { shell.around with made := shell.around.made + 1 }
          let shell := { shell with around := around }
          let shell :=
            if options.has 'u' then shell
            else if options.has 'd' then shell.put location .directory
            else shell.store location []
          (shell.say name).withStatus 0
      | none =>
          if options.has 'q' then shell.withStatus 1
          else
            shell.trouble 1
              ("mktemp: failed to create " ++ kind ++ " via template " ++
                quotedName template ++ ": " ++ shell.obstacleText name)

end PackageLayers.Program.Shell

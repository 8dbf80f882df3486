/-
Purpose: Utilities that show names and what they lead to.
Main exports: Shell.list, Shell.baseName, Shell.directoryName, Shell.resolve
-/
import PackageLayers.Path.Clean
import PackageLayers.Path.Relative
import PackageLayers.Program.Filtering

namespace PackageLayers.Program.Shell

/-!
These utilities write names, one in a line, in the order of their octets.  What
they say of a name that leads nowhere depends on the utility.
-/

/-- Ask for an operand where there is none. -/
def missingOperand (shell : Shell) (utility : String) (kind : String := "") :
    Shell :=
  shell.trouble 1 (s!"{utility}: missing {kind}operand" ++ hintFor utility)

/-- Complain of an operand too many. -/
def extraOperand (shell : Shell) (utility operand : String) : Shell :=
  shell.trouble 1
    (s!"{utility}: extra operand " ++ quotedName operand ++ hintFor utility)

/-- The names in a directory that are listed; `all` adds those that begin with a
dot. -/
def listed (shell : Shell) (all : Bool) (name : String) : List String :=
  match shell.locate name with
  | .ok location =>
      ((namesIn shell.around.files location).filter fun name =>
        all || name.head? ≠ some '.').map String.ofList
  | .error _ => []

/-- The name of something in a directory. -/
def inDirectory (directory name : String) : String :=
  if directory.endsWith "/" then directory ++ name else directory ++ "/" ++ name

/-- The mark that tells what kind of thing a name is. -/
def kindMark (shell : Shell) (options : Options) (name : String) : String :=
  if !(options.has 'F' || options.has 'p') then ""
  else if shell.isDirectory name then "/"
  else if options.has 'F' && ((shell.file? name).any File.executable) then "*"
  else ""

/-- Names in the order in which they are listed: by name, by size or by time, or
the other way round; `path` gives what a name means. -/
def ordered (shell : Shell) (options : Options) (path : String → String)
    (names : List String) : List String :=
  let measure (name : String) : Int :=
    match shell.file? (path name) with
    | some file =>
        if options.has 'S' then file.content.octets.length
        else file.modified.getD 0
    | none => 0
  let byName := sortBy (fun (a b : String) => decide (a ≤ b)) names
  let sorted :=
    if options.has 'S' || options.has 't' then
      sortBy (fun a b => decide (measure b ≤ measure a)) byName
    else byName
  if options.has 'r' then sorted.reverse else sorted

/-- The lines that show names. -/
def shownNames (options : Options) (names : List String) : List String :=
  if options.has 'm' then
    if names.isEmpty then [] else [", ".intercalate names]
  else names

/-- What a directory is shown as, under its name if that is wanted, and what the
directories in it are shown as. -/
def listing (shell : Shell) (options : Options) (titled : Bool) :
    (rounds : Nat) → String → List (List String)
  | 0, _ => []
  | rounds + 1, name =>
      let all := options.has 'a' || options.has 'A'
      let dots := if options.has 'a' then [".", ".."] else []
      let inside :=
        shell.ordered options (inDirectory name) (dots ++ shell.listed all name)
      let marked :=
        inside.map fun entry =>
          entry ++ shell.kindMark options (inDirectory name entry)
      let title := if titled then [name ++ ":"] else []
      let below :=
        if options.has 'R' then
          (inside.filter fun entry =>
            entry ≠ "." && entry ≠ ".." &&
              shell.isDirectory (inDirectory name entry)).flatMap
            fun entry => listing shell options titled rounds (inDirectory name entry)
        else []
      (title ++ shownNames options marked) :: below

/-- List names and what is in directories. -/
def list (shell : Shell) (arguments : List String) : Shell :=
  let table : OptionTable :=
    { flags := "1aACdFlmprRtSUqxkhsin"
      long := [("all", 'a'), ("almost-all", 'A'), ("directory", 'd'),
        ("recursive", 'R'), ("reverse", 'r'), ("classify", 'F')] }
  shell.withOptions "ls" 2 table arguments fun options =>
    let operands := if options.operands.isEmpty then ["."] else options.operands
    let names := shell.ordered options (fun name => name) operands
    let missing := names.filter fun name => (shell.entry? name).isNone
    let isPlain (name : String) : Bool :=
      (shell.entry? name).isSome &&
        (options.has 'd' || !shell.isDirectory name)
    let plain :=
      (names.filter isPlain).map fun name => name ++ shell.kindMark options name
    let directories :=
      names.filter fun name => (shell.entry? name).isSome && !isPlain name
    let shell :=
      missing.foldl
        (fun (shell : Shell) name =>
          shell.complain
            ("ls: cannot access " ++ quotedName name ++ ": " ++
              shell.obstacleText name))
        shell
    let titled := 1 < operands.length || options.has 'R'
    let rounds := shell.around.files.entries.length + 1
    let blocks :=
      (if plain.isEmpty then [] else [shownNames options plain]) ++
        directories.flatMap (shell.listing options titled rounds)
    let lines := [""].intercalate blocks
    (lines.foldl (fun (shell : Shell) line => shell.say line) shell).withStatus
      (if missing.isEmpty then 0 else 2)

/-- The last part of a name, without a suffix. -/
def lastPart (name suffix : String) : String :=
  let last := (splitName name).2
  let last :=
    if last.isEmpty then (if name.isEmpty then "" else "/") else last
  match Text.stripSuffix? suffix last with
  | some short => if short.isEmpty then last else short
  | none => last

/-- A name without its last part. -/
def frontPart (name : String) : String :=
  let (front, last) := splitName name
  if last.isEmpty && !name.isEmpty then "/"
  else
    let short := withoutSlashes front
    if short.isEmpty then "/" else short

/-- Write a name; it ends with a zero octet if that is wanted. -/
def sayName (shell : Shell) (options : Options) (name : String) : Shell :=
  if options.has 'z' then shell.write 1 (name.toList ++ ['\x00'])
  else shell.say name

/-- Write the last part of names. -/
def baseName (shell : Shell) (arguments : List String) : Shell :=
  let table : OptionTable :=
    { flags := "az"
      valued := "s"
      long := [("multiple", 'a'), ("suffix", 's'), ("zero", 'z')] }
  shell.withOptions "basename" 1 table arguments fun options =>
    let suffix := (options.value? 's').getD ""
    let say (shell : Shell) (name : String) : Shell :=
      shell.sayName options (lastPart name suffix)
    match options.operands with
    | [] => shell.missingOperand "basename"
    | [name] => say (shell.withStatus 0) name
    | name :: second :: rest =>
        if options.has 'a' || options.has 's' then
          (name :: second :: rest).foldl say (shell.withStatus 0)
        else
          match rest with
          | [] =>
              (shell.sayName options (lastPart name second)).withStatus 0
          | extra :: _ => shell.extraOperand "basename" extra

/-- Write names without their last part. -/
def directoryName (shell : Shell) (arguments : List String) : Shell :=
  let table : OptionTable := { flags := "z", long := [("zero", 'z')] }
  shell.withOptions "dirname" 1 table arguments fun options =>
    if options.operands.isEmpty then shell.missingOperand "dirname"
    else
      options.operands.foldl
        (fun (shell : Shell) name => shell.sayName options (frontPart name))
        (shell.withStatus 0)

/-- The path that a name is resolved to.  All of it has to be there, or all but
its last part, or nothing. -/
def resolved? (shell : Shell) (options : Options) (name : String) :
    Option Path :=
  if name.isEmpty then none
  else if options.has 'm' then (shell.path? name).map Path.clean
  else if options.has 'e' then (shell.locate name).toOption.map Location.path
  else (shell.newLocation? name).map Location.path

/-- Write the absolute paths of names. -/
def resolve (shell : Shell) (utility : String) (silent : Bool)
    (arguments : List String) : Shell :=
  let table : OptionTable :=
    { flags := "femsqzLPn"
      valued := "R"
      long := [("canonicalize", 'f'), ("canonicalize-existing", 'e'),
        ("canonicalize-missing", 'm'), ("strip", 's'), ("no-symlinks", 's'),
        ("quiet", 'q'), ("zero", 'z'), ("no-newline", 'n'),
        ("relative-to", 'R')] }
  shell.withOptions utility 1 table arguments fun options =>
    let complain (shell : Shell) (name : String) : Shell :=
      if silent || options.has 'q' then shell.withStatus 1
      else
        shell.trouble 1 (utility ++ ": " ++ name ++ ": " ++ shell.obstacleText name)
    let shown (path : Path) : String :=
      match (options.value? 'R').bind (shell.resolved? options) with
      | some base => path.relativeTo base
      | none => path.text
    if options.operands.isEmpty then shell.missingOperand utility
    else if utility = "readlink" && !("fem".toList.any options.has) then
      shell.withStatus 1
    else
      options.operands.foldl
        (fun (shell : Shell) name =>
          match shell.resolved? options name with
          | some path =>
              let text := String.ofList (Text.octets (shown path))
              if options.has 'n' && utility = "readlink" then
                shell.write 1 text.toList
              else shell.sayName options text
          | none => complain shell name)
        (shell.withStatus 0)

end PackageLayers.Program.Shell

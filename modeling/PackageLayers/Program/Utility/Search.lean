/-
Purpose: Search for files by an expression.
Main exports: Search, SearchAct, Shell.searched
-/
import PackageLayers.Program.Utility.Listing

namespace PackageLayers.Program

/-!
A search visits directories and what is in them.  At every entry an expression is
evaluated, from left to right and no further than needed; it tells what is done
with the entry.  The acts are gathered first and carried out afterwards.
-/

/-- The expression of a search. -/
inductive Search where
  | constant (value : Bool)
  | name (folds : Bool) (pattern : String)
  | path (folds : Bool) (pattern : String)
  | directory (wanted : Bool)
  | empty
  | executable
  | size (order : Ordering) (unit count : Nat)
  | newer (time : FileTime)
  | prune
  | print (ending : String)
  | format (text : String)
  | run (each : Bool) (words : List String)
  | delete
  | negation (part : Search)
  | both (left right : Search)
  | either (left right : Search)
deriving Repr, Inhabited

/-- Something that is done with an entry. -/
inductive SearchAct where
  | say (text : String)
  | run (words : List String)
  | gather (words : List String) (name : String)
  | delete (name : String) (location : Location)
deriving Repr, Inhabited

namespace Search

/-- Whether an expression has an act; the names are written without one. -/
def acts : Search → Bool
  | .print _ | .format _ | .run _ _ | .delete => true
  | .negation part => part.acts
  | .both left right | .either left right => left.acts || right.acts
  | _ => false

/-- Whether an expression removes what it finds, so that directories come after
what is in them. -/
def removes : Search → Bool
  | .delete => true
  | .negation part => part.removes
  | .both left right | .either left right => left.removes || right.removes
  | _ => false

/-- An entry that is visited: its name, the name that the search began with, its
location and how deep it is. -/
structure Visit where
  name : String
  root : String
  location : Location
  depth : Nat

/-- A format with its letters replaced for an entry. -/
def formatted (files : Files) (visit : Visit) : List Char → List Char
  | '%' :: letter :: rest =>
      let size :=
        match files.file? visit.location with
        | some file => file.content.octets.length
        | none => 4096
      let (front, last) := Shell.splitName visit.name
      let text :=
        match letter with
        | 'p' => visit.name
        | 'f' => if last.isEmpty then visit.name else last
        | 'h' => Shell.withoutSlashes front
        | 'P' =>
            let rest := (Text.stripPrefix? visit.root visit.name).getD ""
            String.ofList (rest.toList.dropWhile (· == '/'))
        | 's' => toString size
        | 'd' => toString visit.depth
        | 'y' => if files.isDirectory visit.location then "d" else "f"
        | '%' => "%"
        | _ => String.ofList ['%', letter]
      text.toList ++ formatted files visit rest
  | '\\' :: letter :: rest =>
      let c :=
        match letter with
        | 'n' => '\n'
        | 't' => '\t'
        | '0' => '\x00'
        | _ => letter
      c :: formatted files visit rest
  | c :: rest => c :: formatted files visit rest
  | [] => []

/-- What an entry makes of an expression: whether it holds, what is done, and
whether what is in the entry is left out. -/
def evaluate (files : Files) (visit : Visit) :
    Search → Bool × List SearchAct × Bool
  | .constant value => (value, [], false)
  | .name folds pattern =>
      let last := (Shell.splitName visit.name).2
      let last := if last.isEmpty then visit.name else last
      (matchesText folds pattern last, [], false)
  | .path folds pattern => (matchesText folds pattern visit.name, [], false)
  | .directory wanted =>
      (files.isDirectory visit.location == wanted, [], false)
  | .empty =>
      let isEmpty :=
        match files.file? visit.location with
        | some file => file.content.octets.isEmpty
        | none => (namesIn files visit.location).isEmpty
      (isEmpty, [], false)
  | .executable =>
      (files.isDirectory visit.location || files.isExecutable visit.location,
        [], false)
  | .size order unit count =>
      match files.file? visit.location with
      | some file =>
          let units := (file.content.octets.length + unit - 1) / unit
          (compare units count == order, [], false)
      | none => (false, [], false)
  | .newer time =>
      ((files.file? visit.location).any fun file => file.modified.isAfter time,
        [], false)
  | .prune => (true, [], true)
  | .print ending => (true, [.say (visit.name ++ ending)], false)
  | .format text =>
      (true, [.say (String.ofList (formatted files visit text.toList))], false)
  | .run each words =>
      let named := words.map fun word => visit.name.intercalate (word.splitOn "\x7b\x7d")
      (true, [if each then .run named else .gather words visit.name], false)
  | .delete =>
      (true, if visit.name = "." then [] else [.delete visit.name visit.location],
        false)
  | .negation part =>
      let (holds, acts, prunes) := evaluate files visit part
      (!holds, acts, prunes)
  | .both left right =>
      let (first, acts, prunes) := evaluate files visit left
      if first then
        let (second, further, also) := evaluate files visit right
        (second, acts ++ further, prunes || also)
      else (false, acts, prunes)
  | .either left right =>
      let (first, acts, prunes) := evaluate files visit left
      if first then (true, acts, prunes)
      else
        let (second, further, also) := evaluate files visit right
        (second, acts ++ further, prunes || also)
where
  /-- Whether a pattern accepts a text, with or without regard to case. -/
  matchesText (folds : Bool) (pattern text : String) : Bool :=
    if folds then
      (Pattern.ofText pattern.toLower).accepts text.toLower.toList
    else (Pattern.ofText pattern).accepts text.toList

/-- What is done at and under a visited entry; `deep` puts an entry after what is
in it. -/
def visitAll (files : Files) (search : Search) (deep : Bool) (least : Nat)
    (greatest : Option Nat) : (rounds : Nat) → Visit → List SearchAct
  | 0, _ => []
  | rounds + 1, visit =>
      let (_, acts, prunes) :=
        if visit.depth < least then (false, [], false)
        else search.evaluate files visit
      let below :=
        if prunes && !deep || greatest.any fun most => most ≤ visit.depth then []
        else
          (namesIn files visit.location).flatMap fun child =>
            match Text.ofOctets? child with
            | some step =>
                visitAll files search deep least greatest rounds
                  { visit with
                    name := Shell.inDirectory visit.name (String.ofList child)
                    location := visit.location ++ [step]
                    depth := visit.depth + 1 }
            | none => []
      if deep then below ++ acts else acts ++ below

end Search

namespace Shell

/-- A complaint about a word in an expression. -/
def searchFault (text word : String) : String :=
  s!"find: {text} \x60{word}'"

/-- The words of a command up to its end, whether it is run for each entry, and
what follows. -/
def searchCommand (words : List String) :
    List String → Option (Bool × List String × List String)
  | ";" :: rest => if words.isEmpty then none else some (true, words, rest)
  | "+" :: rest =>
      if words.getLast? = some "\x7b\x7d" && 1 < words.length then
        some (false, words.dropLast, rest)
      else searchCommand (words ++ ["+"]) rest
  | word :: rest => searchCommand (words ++ [word]) rest
  | [] => none

/-- The size that a word asks for. -/
def searchSize? (word : String) : Option Search :=
  let (order, chars) : Ordering × List Char :=
    match word.toList with
    | '+' :: rest => (.gt, rest)
    | '-' :: rest => (.lt, rest)
    | chars => (.eq, chars)
  let digits := chars.takeWhile Char.isDigit
  let unit : Option Nat :=
    match String.ofList (chars.drop digits.length) with
    | "c" => some 1
    | "w" => some 2
    | "" | "b" => some 512
    | "k" => some 1024
    | "M" => some 1048576
    | "G" => some 1073741824
    | _ => none
  if digits.isEmpty then none
  else unit.map fun unit => .size order unit (Text.decimal digits)

/-- One test or act of an expression that takes a value. -/
def searchWith (shell : Shell) (word value : String) : Except String Search :=
  match word with
  | "-name" => .ok (.name false value)
  | "-iname" => .ok (.name true value)
  | "-path" | "-wholename" => .ok (.path false value)
  | "-ipath" => .ok (.path true value)
  | "-printf" => .ok (.format value)
  | "-type" =>
      match value with
      | "d" => .ok (.directory true)
      | "f" => .ok (.directory false)
      | "f,d" | "d,f" => .ok (.constant true)
      | "l" | "p" | "s" | "b" | "c" => .ok (.constant false)
      | _ => .error s!"find: Unknown argument to -type: {value.take 1}"
  | "-size" =>
      match searchSize? value with
      | some search => .ok search
      | none => .error s!"find: Invalid argument \x60{value}' to -size"
  | _ =>
      match shell.file? value with
      | some file => .ok (.newer file.modified)
      | none =>
          if shell.isDirectory value then
            .ok (.newer (.ofMilliseconds shell.around.stamp))
          else
            .error
              ("find: " ++ quotedName value ++ ": " ++ shell.obstacleText value)

mutual

/-- Expressions of which one has to hold. -/
def searchEither (shell : Shell) :
    (rounds : Nat) → List String → Except String (Search × List String)
  | 0, _ => .error "find: too many arguments"
  | rounds + 1, words => do
      let (left, rest) ← searchBoth shell rounds words
      match rest with
      | "-o" :: rest | "-or" :: rest => do
          let (right, rest) ← searchEither shell rounds rest
          pure (.either left right, rest)
      | _ => pure (left, rest)

/-- Expressions that all have to hold. -/
def searchBoth (shell : Shell) :
    (rounds : Nat) → List String → Except String (Search × List String)
  | 0, _ => .error "find: too many arguments"
  | rounds + 1, words => do
      let (left, rest) ← searchOne shell rounds words
      match rest with
      | [] | "-o" :: _ | "-or" :: _ | ")" :: _ => pure (left, rest)
      | "-a" :: rest | "-and" :: rest => do
          let (right, rest) ← searchBoth shell rounds rest
          pure (.both left right, rest)
      | _ => do
          let (right, rest) ← searchBoth shell rounds rest
          pure (.both left right, rest)

/-- One part of an expression. -/
def searchOne (shell : Shell) :
    (rounds : Nat) → List String → Except String (Search × List String)
  | 0, _ => .error "find: too many arguments"
  | _ + 1, [] => .error "find: expected an expression"
  | rounds + 1, word :: rest =>
      match word with
      | "!" | "-not" => do
          let (part, rest) ← searchOne shell rounds rest
          pure (.negation part, rest)
      | "(" => do
          let (part, rest) ← searchEither shell rounds rest
          match rest with
          | ")" :: rest => pure (part, rest)
          | _ =>
              throw
                ("find: invalid expression; I was expecting to find a ')' " ++
                  "somewhere but did not see one.")
      | "-empty" => pure (.empty, rest)
      | "-executable" => pure (.executable, rest)
      | "-readable" | "-writable" | "-true" | "-depth" | "-noleaf" | "-xdev"
      | "-mount" | "-follow" => pure (.constant true, rest)
      | "-false" => pure (.constant false, rest)
      | "-prune" => pure (.prune, rest)
      | "-print" => pure (.print "\n", rest)
      | "-print0" => pure (.print "\x00", rest)
      | "-delete" => pure (.delete, rest)
      | "-exec" | "-execdir" | "-ok" =>
          match searchCommand [] rest with
          | some (each, words, rest) => pure (.run each words, rest)
          | none => throw (searchFault "missing argument to" word)
      | "-mindepth" | "-maxdepth" =>
          match rest with
          | value :: rest =>
              if value.toList.all Char.isDigit then pure (.constant true, rest)
              else
                throw
                  (s!"find: Expected a positive decimal integer argument to {word}"
                    ++ ", but got " ++ quotedName value)
          | [] => throw (searchFault "missing argument to" word)
      | "-name" | "-iname" | "-path" | "-wholename" | "-ipath" | "-printf"
      | "-type" | "-size" | "-newer" =>
          match rest with
          | value :: rest => do
              let search ← shell.searchWith word value
              pure (search, rest)
          | [] => throw (searchFault "missing argument to" word)
      | _ =>
          if word.startsWith "-" then
            throw (searchFault "unknown predicate" word)
          else throw (searchFault "paths must precede expression:" word)

end

/-- The value that follows an option. -/
def valueAfter (option : String) : List String → Option String
  | word :: value :: rest =>
      if word = option then some value else valueAfter option (value :: rest)
  | _ => none

/-- What the arguments of a search ask to be done, and the complaints about names
that lead nowhere; or a complaint about the arguments. -/
def searched (shell : Shell) (arguments : List String) :
    Except String (List String × List SearchAct) :=
  let arguments := arguments.dropWhile fun word =>
    ["-L", "-H", "-P"].contains word
  let isName (word : String) : Bool :=
    !word.startsWith "-" && word ≠ "!" && word ≠ "("
  let names := arguments.takeWhile isName
  let words := arguments.drop names.length
  let read : Except String (Search × List String) :=
    if words.isEmpty then .ok (.constant true, [])
    else shell.searchEither (3 * words.length + 3) words
  match read with
  | .error complaint => .error complaint
  | .ok (_, extra :: _) =>
      .error (searchFault "paths must precede expression:" extra)
  | .ok (search, []) =>
      let whole := if search.acts then search else .both search (.print "\n")
      let depth (option : String) : Option Nat :=
        (valueAfter option words).map fun value => Text.decimal value.toList
      let deep := words.contains "-depth" || whole.removes
      let files := shell.around.files
      let names := if names.isEmpty then ["."] else names
      let found := names.map fun name =>
        match shell.locate name with
        | .ok location =>
            ([],
              whole.visitAll files deep ((depth "-mindepth").getD 0)
                (depth "-maxdepth") (files.entries.length + 2)
                { name := name, root := name, location := location, depth := 0 })
        | .error _ =>
            (["find: " ++ quotedName name ++ ": " ++ shell.obstacleText name], [])
      .ok (found.flatMap Prod.fst, found.flatMap Prod.snd)

end Shell

end PackageLayers.Program

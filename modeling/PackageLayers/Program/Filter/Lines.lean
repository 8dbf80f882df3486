/-
Purpose: Filters that choose and count lines.
Main exports: Filter.head, Filter.tail, Filter.wc, Filter.uniq, Filter.rev,
  Filter.tac, Filter.nl
-/
import PackageLayers.Program.Filter.Basic

namespace PackageLayers.Program.Filter

/-!
Lines end with a line feed; a last line without one is a line too.
-/

/-- The first lines of a text, with their ends. -/
def firstLines : (count : Nat) → List Char → List Char
  | 0, _ => []
  | count + 1, chars =>
      match chars.dropWhile (· ≠ '\n') with
      | [] => chars
      | _ :: rest => chars.takeWhile (· ≠ '\n') ++ '\n' :: firstLines count rest

/-- The number of lines of a text. -/
def lineCount (text : List Char) : Nat :=
  (textLines text).length

/-- A text after some of its lines. -/
def afterLines : (count : Nat) → List Char → List Char
  | 0, chars => chars
  | count + 1, chars =>
      afterLines count ((chars.dropWhile (· ≠ '\n')).drop 1)

/-- A count with the old form in which it is an option of its own, such as
`-3`. -/
def withOldCount (letter : String) : List String → List String
  | first :: rest =>
      match first.toList with
      | '-' :: c :: more =>
          if c.isDigit then letter :: String.ofList (c :: more) :: rest
          else first :: rest
      | _ => first :: rest
  | [] => []

/-- The parts of several files, each under its name if that is wanted. -/
def headed (supply : Supply) (options : Options) (filter : String)
    (work : List Char → List Char) : Outcome :=
  let names := options.operands
  let complain (name reason : String) :=
    if reason = "Is a directory" then
      s!"{filter}: error reading '{name}': {reason}"
    else s!"{filter}: cannot open '{name}' for reading: {reason}"
  let isTitled :=
    !options.has 'q' && (1 < names.length || options.has 'v')
  let title (name : String) :=
    let shown := if name = "-" then "standard input" else name
    if isTitled then s!"==> {shown} <==\n".toList else []
  let outcomes := (supply.texts names).map fun entry =>
    match entry.2 with
    | .ok text => (true, Outcome.wrote (title entry.1 ++ work text))
    | .error reason => (false, Outcome.failure 1 (complain entry.1 reason))
  let (_, outcome) :=
    outcomes.foldl
      (fun (later, outcome) (wrote, part) =>
        let gap : Outcome :=
          if later && isTitled && wrote then .wrote ['\n'] else {}
        (later || wrote, (outcome.followedBy gap).followedBy part))
      (false, ({} : Outcome))
  { outcome with demand := demandOf names }

/-- A count with a sign in front that an argument writes. -/
def signedCount (sign : Char) (text : String) : Bool × Option Nat :=
  match text.toList with
  | c :: rest =>
      if c = sign then (true, sizeOf? (String.ofList rest))
      else (false, sizeOf? text)
  | [] => (false, none)

/-- What is read by a filter that takes the first `given` of `size` units of a
text, or all but the last ones. -/
def startDemand (size : Nat) (negative : Bool) (given : Nat) (rest : List Char)
    (exact : Bool) : Demand :=
  if negative then { left := rest }
  else if given = 0 then .nothing
  else if size < given then {}
  else .before rest exact

/-- The start of texts. -/
def head (supply : Supply) (arguments : List String) : Outcome :=
  let table : OptionTable :=
    { flags := "qvz"
      valued := "nc"
      long := [("lines", 'n'), ("bytes", 'c'), ("quiet", 'q'), ("silent", 'q'),
        ("verbose", 'v')] }
  withOptions "head" 1 table (withOldCount "-n" arguments) fun options =>
    let cut (size : Nat) (negative : Bool) (given : Nat) :=
      if negative then size - given else given
    let withDemand (demand : Demand) (outcome : Outcome) : Outcome :=
      if outcome.demand.reads then { outcome with demand := demand }
      else outcome
    let input := supply.input
    match options.value? 'c' with
    | some bytes =>
        match signedCount '-' bytes with
        | (negative, some count) =>
            let size := input.length
            let rest := input.drop (cut size negative count)
            withDemand (startDemand size negative count rest true)
              (headed supply options "head" fun text =>
                text.take (cut text.length negative count))
        | _ => .failure 1 s!"head: invalid number of bytes: '{bytes}'"
    | none =>
        let given := (options.value? 'n').getD "10"
        match signedCount '-' given with
        | (negative, some count) =>
            let size := lineCount input - (if endsOpen input then 1 else 0)
            let rest := afterLines (cut (lineCount input) negative count) input
            withDemand (startDemand size negative count rest false)
              (headed supply options "head" fun text =>
                firstLines (cut (lineCount text) negative count) text)
        | _ => .failure 1 s!"head: invalid number of lines: '{given}'"

/-- The end of texts; a count with a plus is the first line or octet to take. -/
def tail (supply : Supply) (arguments : List String) : Outcome :=
  let table : OptionTable :=
    { flags := "qvzfF"
      valued := "ncs"
      long := [("lines", 'n'), ("bytes", 'c'), ("quiet", 'q'), ("silent", 'q'),
        ("verbose", 'v'), ("follow", 'f')] }
  withOptions "tail" 1 table (withOldCount "-n" arguments) fun options =>
    let count (text : String) : Bool × Option Nat :=
      let (onward, count) := signedCount '+' text
      if onward then (true, count) else (false, (signedCount '-' text).2)
    let skipped (size : Nat) (onward : Bool) (given : Nat) :=
      if onward then given - 1 else size - given
    let outcome :=
      match options.value? 'c' with
      | some bytes =>
          match count bytes with
          | (onward, some given) =>
              headed supply options "tail" fun text =>
                text.drop (skipped text.length onward given)
          | _ => .failure 1 s!"tail: invalid number of bytes: '{bytes}'"
      | none =>
          let lines := (options.value? 'n').getD "10"
          match count lines with
          | (onward, some given) =>
              headed supply options "tail" fun text =>
                afterLines (skipped (lineCount text) onward given) text
          | _ => .failure 1 s!"tail: invalid number of lines: '{lines}'"
    let follows := options.has 'f' || options.has 'F'
    let canFollow := (supply.texts options.operands).any fun entry =>
      entry.2.toOption.isSome
    { outcome with
      isEndless := follows && canFollow && !options.operands.isEmpty }

/-- Whether a character separates words. -/
def isGap (c : Char) : Bool :=
  " \t\n\x0b\x0c\r".toList.contains c

/-- The words of a text. -/
def wordsOf (text : List Char) : List (List Char) :=
  (Text.splitAt isGap text).filter fun word => !word.isEmpty

/-- A text with blanks in front up to a width. -/
def padStart (width : Nat) (text : String) : String :=
  String.ofList (List.replicate (width - text.length) ' ') ++ text

/-- The width of a line, in which tabs lead to places that are multiples of
eight. -/
def lineWidth (line : List Char) : Nat :=
  line.foldl
    (fun width c =>
      if c = '\t' then (width / 8 + 1) * 8
      else if ' ' ≤ c && c.toNat < 127 then width + 1
      else width)
    0

/-- The numbers that are asked for: of lines, words, octets, and the greatest
width of a line. -/
def counts (options : Options) (text : List Char) : List Nat :=
  let all := !("lwcmL".toList.any options.has)
  let wants (letter : Char) : Bool := all || options.has letter
  (if wants 'l' then [text.count '\n'] else []) ++
    (if wants 'w' then [(wordsOf text).length] else []) ++
    (if options.has 'm' then [text.length] else []) ++
    (if wants 'c' then [text.length] else []) ++
    (if options.has 'L' then
      [((textLines text).map lineWidth).foldl max 0]
    else [])

/-- The sums of columns of numbers. -/
def columnSums (rows : List (List Nat)) : List Nat :=
  rows.foldl
    (fun sums row => (List.range row.length).map fun place =>
      (sums[place]?).getD 0 + (row[place]?).getD 0)
    []

/-- Count lines, words and octets. -/
def wc (supply : Supply) (arguments : List String) : Outcome :=
  let table : OptionTable :=
    { flags := "lwcmL"
      long := [("lines", 'l'), ("words", 'w'), ("bytes", 'c'), ("chars", 'm'),
        ("max-line-length", 'L')] }
  withOptions "wc" 1 table arguments fun options =>
    let names := options.operands
    let texts := supply.texts names
    let rows := texts.map fun entry =>
      match entry.2 with
      | .ok text => counts options text
      | .error _ => counts options []
    let size := texts.foldl
      (fun size entry => size + ((entry.2.toOption.map List.length).getD 0)) 0
    let several := 1 < texts.length
    let readsPipe := (demandOf names).reads && !supply.isFile
    let width :=
      if !several && (counts options []).length = 1 then 1
      else if readsPipe || texts.any fun entry => entry.2.toOption.isNone then 7
      else (toString size).length
    let row (name : String) (numbers : List Nat) : List Char :=
      (" ".intercalate (numbers.map fun number =>
        padStart width (toString number)) ++
          (if name.isEmpty then "" else " " ++ name) ++ "\n").toList
    let shown (name : String) := if names.isEmpty then "" else name
    let outcome := texts.foldl
      (fun (outcome : Outcome) entry =>
        outcome.followedBy
          (match entry.2 with
          | .ok text => .wrote (row (shown entry.1) (counts options text))
          | .error reason =>
              let complaint :=
                Outcome.failure 1 (plainComplaint "wc" entry.1 reason)
              if reason = "Is a directory" then
                complaint.followedBy (.wrote (row entry.1 (counts options [])))
              else complaint))
      {}
    let total : Outcome :=
      if several then .wrote (row "total" (columnSums rows)) else {}
    { outcome.followedBy total with demand := demandOf names }

/-- Lines in groups of equal neighbours, with the size of each group. -/
def grouped (same : List Char → List Char → Bool) :
    List (List Char) → List (Nat × List (List Char))
  | [] => []
  | line :: rest =>
      match grouped same rest with
      | (count, other :: more) :: groups =>
          if same line other then (count + 1, line :: other :: more) :: groups
          else (1, [line]) :: (count, other :: more) :: groups
      | groups => (1, [line]) :: groups

/-- A line after some of its fields, each with the blanks in front of it. -/
def afterFields : (count : Nat) → List Char → List Char
  | 0, line => line
  | count + 1, line =>
      let isBlank (c : Char) : Bool := c = ' ' || c = '\t'
      afterFields count
        ((line.dropWhile isBlank).dropWhile fun c => !isBlank c)

/-- Drop or count lines that repeat the line before. -/
def uniq (supply : Supply) (arguments : List String) : Outcome :=
  let table : OptionTable :=
    { flags := "cdDuiz"
      valued := "fsw"
      long := [("count", 'c'), ("repeated", 'd'), ("all-repeated", 'D'),
        ("unique", 'u'), ("ignore-case", 'i'), ("skip-fields", 'f'),
        ("skip-chars", 's'), ("check-chars", 'w')] }
  withOptions "uniq" 1 table arguments fun options =>
    let number (letter : Char) : Option Nat :=
      (options.value? letter).map fun text => Text.decimal text.toList
    let key (line : List Char) : List Char :=
      let line := afterFields ((number 'f').getD 0) line
      let line := line.drop ((number 's').getD 0)
      let line := (number 'w').elim line line.take
      if options.has 'i' then line.map Char.toLower else line
    let shown (group : Nat × List (List Char)) : List (List Char) :=
      let first := group.2.take 1
      if options.has 'D' then if 1 < group.1 then group.2 else []
      else if options.has 'd' && group.1 = 1 || options.has 'u' && 1 < group.1
      then []
      else if options.has 'c' then
        first.map fun line =>
          (padStart 7 (toString group.1)).toList ++ ' ' :: line
      else first
    let read :=
      supply.joined (options.operands.take 1) 1 (plainComplaint "uniq")
        fun text =>
          joinLines
            ((grouped (fun left right => key left == key right)
              (textLines text)).flatMap shown)
    match options.operands with
    | [] | [_] => read
    | [_, name] => { read.withOut [] with stored := [(name, read.out)] }
    | _ :: _ :: extra :: _ =>
        .failure 1 (s!"uniq: extra operand '{extra}'" ++ hintFor "uniq")

/-- Every line backwards. -/
def rev (supply : Supply) (arguments : List String) : Outcome :=
  withOptions "rev" 1 {} arguments fun options =>
    let complain (name reason : String) := s!"rev: cannot open {name}: {reason}"
    supply.joined options.operands 1 complain fun text =>
      joinLinesLike (endsOpen text) ((textLines text).map List.reverse)

/-- The lines from last to first. -/
def tac (supply : Supply) (arguments : List String) : Outcome :=
  withOptions "tac" 1 { flags := "b" } arguments fun options =>
    let complain (name reason : String) :=
      s!"tac: failed to open '{name}' for reading: {reason}"
    let reversed (text : List Char) : List Char :=
      if endsOpen text then
        let lines := (textLines text).reverse
        (lines.take 1).flatten ++ joinLines (lines.drop 1)
      else joinLines (textLines text).reverse
    let read :=
      supply.each options.operands 1 complain fun _ text => .wrote (reversed text)
    read.withOut read.out

/-- Lines with numbers in front. -/
def nl (supply : Supply) (arguments : List String) : Outcome :=
  let table : OptionTable :=
    { valued := "bnwsvi"
      long := [("body-numbering", 'b'), ("number-format", 'n'),
        ("number-width", 'w'), ("number-separator", 's'),
        ("starting-line-number", 'v'), ("line-increment", 'i')] }
  withOptions "nl" 1 table arguments fun options =>
    let size (letter : Char) (default : Nat) : Nat :=
      ((options.value? letter).bind sizeOf?).getD default
    let width := size 'w' 6
    let mark := ((options.value? 's').getD "\t").toList
    let style := (options.value? 'b').getD "t"
    let numbered (number : Nat) : List Char :=
      let text := toString number
      let room := width - text.length
      match options.value? 'n' with
      | some "ln" => text.toList ++ List.replicate room ' '
      | some "rz" => List.replicate room '0' ++ text.toList
      | _ => List.replicate room ' ' ++ text.toList
    supply.joined options.operands 1 (plainComplaint "nl") fun text =>
      let (_, lines) :=
        (textLines text).foldl
          (fun (number, lines) line =>
            if style = "a" || style = "t" && !line.isEmpty then
              (number + size 'i' 1, (numbered number ++ mark ++ line) :: lines)
            else
              (number, (List.replicate (width + mark.length) ' ' ++ line) :: lines))
          (size 'v' 1, [])
      joinLines lines.reverse

end PackageLayers.Program.Filter

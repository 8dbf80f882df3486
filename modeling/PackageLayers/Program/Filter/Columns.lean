/-
Purpose: Filters that choose and join columns of lines.
Main exports: Filter.cut, Filter.paste, Filter.fold, Filter.cat
-/
import PackageLayers.Program.Filter.Lines

namespace PackageLayers.Program.Filter

/-!
A list of places such as `1,3-5,7-` names fields or characters of a line, counted
from one.
-/

/-- A part of a list of places: from one to another, of which the second may be
missing. -/
def placesOf (part : List Char) : Option (Nat × Option Nat) :=
  match Text.splitAt (· == '-') part with
  | [only] => (String.ofList only).toNat?.map fun place => (place, some place)
  | [first, last] =>
      let start :=
        if first.isEmpty then some 1 else (String.ofList first).toNat?
      if first.isEmpty && last.isEmpty then none
      else if last.isEmpty then start.map fun start => (start, none)
      else do
        let start ← start
        let finish ← (String.ofList last).toNat?
        pure (start, some finish)
  | _ => none

/-- Whether a place is in a list of places. -/
def isListed (list : List (Nat × Option Nat)) (place : Nat) : Bool :=
  list.any fun part => part.1 ≤ place && part.2.all fun last => place ≤ last

/-- What stands at the places of a list. -/
def chosen {α : Type} (wants : Nat → Bool) (items : List α) : List α :=
  (items.zipIdx 1).filterMap fun (item, place) =>
    if wants place then some item else none

/-- What is wrong with a list of places. -/
def placesComplaint (fields : Bool) (text : String) : String :=
  let parts := Text.splitAt (· == ',') text.toList
  let noun := if fields then "fields" else "byte/character positions"
  let isDecreasing (part : List Char) : Bool :=
    match placesOf part with
    | some (first, some last) => last < first
    | _ => false
  if parts.any fun part => part = ['-'] then "invalid range with no endpoint: -"
  else if parts.any fun part => (placesOf part).any fun place => place.1 = 0 then
    noun ++ " are numbered from 1"
  else if parts.any isDecreasing then "invalid decreasing range"
  else if fields then s!"invalid field value '{text}'"
  else s!"invalid byte/character position '{text}'"

/-- Choose fields or characters of lines. -/
def cut (supply : Supply) (arguments : List String) : Outcome :=
  let table : OptionTable :=
    { flags := "nsz"
      valued := "bcdfOC"
      long := [("bytes", 'b'), ("characters", 'c'), ("delimiter", 'd'),
        ("fields", 'f'), ("only-delimited", 's'), ("output-delimiter", 'O'),
        ("complement", 'n')] }
  let refused (text : String) : Outcome :=
    .failure 1 ("cut: " ++ text ++ hintFor "cut")
  let complements := arguments.contains "--complement"
  withOptions "cut" 1 table arguments fun options =>
    let delimiter := (options.value? 'd').getD "\t"
    let mark := delimiter.toList.headD '\t'
    let fields := options.value? 'f'
    let places := (options.value? 'c').or (options.value? 'b')
    let joint := ((options.value? 'O').getD delimiter).toList
    match fields.or places with
    | none =>
        refused "you must specify a list of bytes, characters, or fields"
    | some text =>
        let list := (Text.splitAt (· == ',') text.toList).mapM placesOf
        let isSound (list : List (Nat × Option Nat)) : Bool :=
          list.all fun part => 0 < part.1 && part.2.all (part.1 ≤ ·)
        match list.filter isSound with
        | none => refused (placesComplaint fields.isSome text)
        | some list =>
            let wants (place : Nat) : Bool :=
              isListed list place != complements
            let pick (line : List Char) : Option (List Char) :=
              if fields.isNone then some (chosen wants line)
              else if line.contains mark then
                some (joint.intercalate
                  (chosen wants (Text.splitAt (· == mark) line)))
              else if options.has 's' then none
              else some line
            if 1 < delimiter.length then
              refused "the delimiter must be a single character"
            else if fields.isSome && places.isSome then
              refused "only one type of list may be specified"
            else if fields.isNone && (options.value? 'd').isSome then
              refused
                "an input delimiter may be specified only when operating on fields"
            else
              supply.each options.operands 1 (plainComplaint "cut") fun _ text =>
                .wrote (joinLines ((textLines text).filterMap pick))

/-- Marks with escapes replaced; an escaped zero is no character. -/
def marksOf : List Char → List (List Char)
  | '\\' :: 'n' :: rest => ['\n'] :: marksOf rest
  | '\\' :: 't' :: rest => ['\t'] :: marksOf rest
  | '\\' :: '0' :: rest => [] :: marksOf rest
  | '\\' :: c :: rest => [c] :: marksOf rest
  | c :: rest => [c] :: marksOf rest
  | [] => []

/-- Items joined by marks, which are taken in turn. -/
def joinedBy (marks : List (List Char)) (items : List (List Char)) : List Char :=
  let mark (place : Nat) : List Char :=
    if marks.isEmpty then [] else (marks[place % marks.length]?).getD []
  (items.zipIdx).flatMap fun (item, place) =>
    if place = 0 then item else mark (place - 1) ++ item

/-- The lines that a place in a list of `count` places is given, where all of
them take lines in turn. -/
def everyOther (count place : Nat) (lines : List (List Char)) :
    List (List Char) :=
  (lines.zipIdx).filterMap fun (line, number) =>
    if number % count = place then some line else none

/-- Lines of several texts side by side, or the lines of each in one. -/
def paste (supply : Supply) (arguments : List String) : Outcome :=
  let table : OptionTable :=
    { flags := "sz"
      valued := "d"
      long := [("delimiters", 'd'), ("serial", 's')] }
  withOptions "paste" 1 table arguments fun options =>
    let marks := marksOf ((options.value? 'd').getD "\t").toList
    let names := if options.operands.isEmpty then ["-"] else options.operands
    let shares := names.count "-"
    let serial := options.has 's'
    let texts := (supply.texts names).zipIdx
    let column (entry : (String × Except String (List Char)) × Nat) :
        List (List Char) :=
      let (name, text) := entry.1
      if name = "-" && !serial then
        everyOther shares ((names.take entry.2).count "-")
          (textLines supply.input)
      else
        match text with
        | .ok text => textLines text
        | .error _ => []
    let columns := texts.map column
    let faults := texts.filterMap fun entry =>
      match entry.1.2 with
      | .ok _ => none
      | .error reason => some (plainComplaint "paste" entry.1.1 reason)
    let out :=
      if serial then
        joinLines (columns.map fun column => joinedBy marks column)
      else
        let height := columns.foldl (fun height column => max height column.length) 0
        joinLines ((List.range height).map fun row =>
          joinedBy marks (columns.map fun column => (column[row]?).getD []))
    match faults with
    | fault :: _ => { Outcome.failure 1 fault with demand := demandOf names }
    | [] => { Outcome.wrote out with demand := demandOf names }

/-- A line cut into pieces of a width; with `atBlanks` a piece ends after its last
blank, if it has one. -/
def piecesOf (width : Nat) (atBlanks : Bool) :
    (rounds : Nat) → List Char → List (List Char)
  | 0, _ => []
  | rounds + 1, line =>
      if line.length ≤ width then [line]
      else
        let piece := line.take width
        let kept := Text.dropTrailing (· ≠ ' ') piece
        let piece := if atBlanks && !kept.isEmpty then kept else piece
        piece :: piecesOf width atBlanks rounds (line.drop piece.length)

/-- Lines broken at a width. -/
def fold (supply : Supply) (arguments : List String) : Outcome :=
  let table : OptionTable :=
    { flags := "bs"
      valued := "w"
      long := [("bytes", 'b'), ("spaces", 's'), ("width", 'w')] }
  withOptions "fold" 1 table arguments fun options =>
    let given := (options.value? 'w').getD "80"
    match given.toNat? with
    | some (width + 1) =>
        supply.each options.operands 1 (plainComplaint "fold") fun _ text =>
          .wrote
            (joinLinesLike (endsOpen text)
              ((textLines text).flatMap fun line =>
                piecesOf (width + 1) (options.has 's') (line.length + 1) line))
    | _ => .failure 1 s!"fold: invalid number of columns: '{given}'"

/-- A character as it is shown where all are to be seen. -/
def visible (c : Char) : List Char :=
  let low (code : Nat) : List Char :=
    if code < 32 then ['^', Char.ofNat (code + 64)]
    else if code = 127 then ['^', '?']
    else [Char.ofNat code]
  if c = '\n' || c = '\t' then [c]
  else if c.toNat < 128 then low c.toNat
  else 'M' :: '-' :: low (c.toNat - 128)

/-- Lines with one empty line in place of several in a row. -/
def withoutRepeatedBlanks : List (List Char) → List (List Char)
  | first :: second :: rest =>
      let later := withoutRepeatedBlanks (second :: rest)
      if first.isEmpty && second.isEmpty then later else first :: later
  | lines => lines

/-- Texts one after the other, with what is asked for to be shown. -/
def cat (supply : Supply) (arguments : List String) : Outcome :=
  let table : OptionTable :=
    { flags := "AbeEnstTuv"
      long := [("show-all", 'A'), ("number-nonblank", 'b'), ("show-ends", 'E'),
        ("number", 'n'), ("squeeze-blank", 's'), ("show-tabs", 'T'),
        ("show-nonprinting", 'v')] }
  withOptions "cat" 1 table arguments fun options =>
    let has (letters : List Char) : Bool := letters.any options.has
    let shown (line : List Char) : List Char :=
      let line :=
        if has ['v', 'e', 't', 'A'] then line.flatMap visible else line
      if has ['T', 't', 'A'] then
        line.flatMap fun c => if c = '\t' then ['^', 'I'] else [c]
      else line
    let lineEnd : List Char := if has ['E', 'e', 'A'] then ['$'] else []
    let number (place : Nat) : List Char :=
      (padStart 6 (toString place)).toList ++ ['\t']
    let edited (text : List Char) : List Char :=
      let isOpen := endsOpen text
      let lines := textLines text
      let lines := if has ['s'] then withoutRepeatedBlanks lines else lines
      let last := lines.length - 1
      let (_, _, out) :=
        lines.foldl
          (fun (place, count, out) line =>
            let isCounted :=
              has ['b'] && !line.isEmpty || has ['n'] && !has ['b']
            let lead := if isCounted then number (count + 1) else []
            let tail := if isOpen && place = last then [] else lineEnd ++ ['\n']
            (place + 1, if isCounted then count + 1 else count,
              (lead ++ shown line ++ tail) :: out))
          (0, 0, [])
      out.reverse.flatten
    let outcome :=
      if options.flags.any fun flag => flag.1 ≠ 'u' then
        supply.joined options.operands 1 (plainComplaint "cat") edited
      else
        supply.each options.operands 1 (plainComplaint "cat") fun _ text =>
          .wrote text
    { outcome with flows := true }

end PackageLayers.Program.Filter

/-
Purpose: Choosing lines by regular expressions.
Main exports: Filter.grep
-/
import PackageLayers.Program.Filter.Lines
import PackageLayers.Program.Regex

namespace PackageLayers.Program.Filter

/-!
A line is chosen if one of several expressions matches in it.  The status is zero
if a line was chosen, one if none was, and two if something could not be read.
-/

/-- How lines are chosen. -/
structure LineTest where
  regexes : List Regex
  ignoreCase : Bool
  wholeLine : Bool
  wholeWord : Bool
  inverted : Bool

namespace LineTest

/-- Whether a match is where it may be. -/
def accepts (test : LineTest) (start finish : Regex.Spot) : Bool :=
  (!test.wholeLine || (start.place = 0 && finish.rest.isEmpty)) &&
    (!test.wholeWord ||
      (!start.previous.any Regex.isWordChar &&
        !finish.rest.head?.any Regex.isWordChar))

/-- The first match at or after a place; of several that start there the
longest. -/
def find? (test : LineTest) (spot : Regex.Spot) : Option Regex.Found :=
  test.regexes.foldl
    (fun best regex =>
      match regex.searchAt? test.ignoreCase test.accepts spot, best with
      | none, _ => best
      | some found, none => some found
      | some found, some other =>
          if found.before.length < other.before.length ||
              (found.before.length = other.before.length &&
                other.text.length < found.text.length) then some found
          else some other)
    none

/-- Whether a line is chosen. -/
def chooses (test : LineTest) (line : List Char) : Bool :=
  (test.find? ⟨0, none, line, []⟩).isSome != test.inverted

/-- The texts of all matches in a line that are not empty. -/
def matchesIn (test : LineTest) : (rounds : Nat) → Regex.Spot → List (List Char)
  | 0, _ => []
  | rounds + 1, spot =>
      match test.find? spot with
      | none => []
      | some found =>
          if found.text.isEmpty then
            match found.after.rest with
            | [] => []
            | c :: rest => test.matchesIn rounds (found.after.next c rest)
          else
            found.text ::
              test.matchesIn rounds { found.after with groups := [] }

end LineTest

/-- The options that are known. -/
def grepTable : OptionTable :=
  { flags := "EFGPivwxclLqsonhHyazrRbTU"
    valued := "emABCfID"
    optional := "K"
    long := [("extended-regexp", 'E'), ("fixed-strings", 'F'),
      ("basic-regexp", 'G'), ("perl-regexp", 'P'), ("ignore-case", 'i'),
      ("invert-match", 'v'), ("word-regexp", 'w'), ("line-regexp", 'x'),
      ("count", 'c'), ("files-with-matches", 'l'), ("files-without-match", 'L'),
      ("quiet", 'q'), ("silent", 'q'), ("no-messages", 's'),
      ("only-matching", 'o'), ("line-number", 'n'), ("no-filename", 'h'),
      ("with-filename", 'H'), ("regexp", 'e'), ("file", 'f'),
      ("max-count", 'm'), ("after-context", 'A'), ("before-context", 'B'),
      ("context", 'C'), ("recursive", 'r'), ("text", 'a'), ("color", 'K'),
      ("colour", 'K'), ("line-buffered", 'U')] }

/-- An option of digits only, such as `-3`, is a number of lines around. -/
def withContextCount (arguments : List String) : List String :=
  arguments.flatMap fun argument =>
    match argument.toList with
    | '-' :: c :: more =>
        if (c :: more).all Char.isDigit then ["-C", String.ofList (c :: more)]
        else [argument]
    | _ => [argument]

/-- The lines of patterns, and the names of what is searched. -/
def grepPatterns (supply : Supply) (options : Options) :
    Option (Except String (List (List Char)) × List String) :=
  let linesOf (text : String) := Text.splitAt (· == '\n') text.toList
  let fromFile (name : String) : Except String (List (List Char)) :=
    if name = "-" then .ok (textLines supply.input)
    else
      match supply.readFile name with
      | .ok text => .ok (textLines text)
      | .error reason => .error (plainComplaint "grep" name reason)
  let files := options.values 'f'
  match options.values 'e', options.operands with
  | [], [] => if files.isEmpty then none else some (.ok [], [])
  | [], first :: rest =>
      if files.isEmpty then some (.ok (linesOf first), rest)
      else some ((files.mapM fromFile).map List.flatten, first :: rest)
  | given, rest =>
      some
        ((files.mapM fromFile).map fun more =>
          given.flatMap linesOf ++ more.flatten, rest)

/-- How many lines before and after a chosen one are shown too. -/
def contextOf (options : Options) : Nat × Nat :=
  let number (letter : Char) : Option Nat :=
    (options.value? letter).map fun text => Text.decimal text.toList
  let both := (number 'C').getD 0
  ((number 'B').getD both, (number 'A').getD both)

/-- The greatest number of lines to choose. -/
def mostOf (options : Options) : Option Nat :=
  (options.value? 'm').bind String.toNat?

/-- What is shown of lines of which some are chosen, with the lines around them.
A line of dashes stands where lines are left out. -/
def shownLines (options : Options) (row : Bool → Nat → List Char → List Char)
    (chosen : List Nat) (lines : List (List Char × Nat)) : List Char :=
  let (before, after) := contextOf options
  let isNear (place : Nat) : Bool :=
    chosen.any fun other => place ≤ other + after && other ≤ place + before
  let shown := lines.filter fun line => isNear line.2
  let (_, out) :=
    shown.foldl
      (fun (last, out) (line, place) =>
        let gap :=
          if 0 < before + after && last ≠ 0 && last + 1 < place then
            ['-', '-', '\n']
          else []
        (place, (gap ++ row (chosen.contains place) place line ++ ['\n']) :: out))
      (0, [])
  out.reverse.flatten

/-- What is shown of a text, and how many of its lines are chosen. -/
def grepText (options : Options) (test : LineTest) (label : String)
    (text : List Char) : List Char × Nat :=
  let lines := (textLines text).zipIdx 1
  let chosen := lines.filter fun line => test.chooses line.1
  let chosen := (mostOf options).elim chosen chosen.take
  let lead (mark : Char) (place : Nat) : List Char :=
    (if label.isEmpty then [] else label.toList ++ [mark]) ++
      (if options.has 'n' then (toString place).toList ++ [mark] else [])
  let out :=
    if options.has 'q' || options.has 'l' || options.has 'L' then []
    else if options.has 'c' then
      (if label.isEmpty then "" else label ++ ":").toList ++
        (toString chosen.length ++ "\n").toList
    else if options.has 'o' then
      if test.inverted then []
      else
        chosen.flatMap fun (line, place) =>
          joinLines ((test.matchesIn (line.length + 1) ⟨0, none, line, []⟩).map
            fun found => lead ':' place ++ found)
    else if contextOf options = (0, 0) then
      joinLines (chosen.map fun (line, place) => lead ':' place ++ line)
    else
      shownLines options
        (fun isChosen place line =>
          lead (if isChosen then ':' else '-') place ++ line)
        (chosen.map Prod.snd) lines
  (out, chosen.length)

/-- What is read of a text until the lines that are asked for are chosen. -/
def grepDemand (options : Options) (test : LineTest) (text : List Char) :
    Demand :=
  let isShort := options.has 'q' || options.has 'l' || options.has 'L'
  let most := if isShort then some 1 else mostOf options
  let places :=
    (((textLines text).zipIdx 1).filter fun line => test.chooses line.1).map
      Prod.snd
  match most with
  | some (count + 1) =>
      match places[count]? with
      | some place =>
          let rest := afterLines place text
          { unneeded := some rest, left := if isShort then [] else rest }
      | none => {}
  | some 0 => .nothing
  | none => {}

/-- The outcome of searching one text. -/
def grepOne (options : Options) (test : LineTest) (labelled : Bool)
    (name : String) (text : Except String (List Char)) : Outcome × Nat :=
  let shown := if name = "-" then "(standard input)" else name
  match text with
  | .ok text =>
      let (out, count) :=
        grepText options test (if labelled then shown else "") text
      let listed :=
        (options.has 'l' && 0 < count) || (options.has 'L' && count = 0)
      (.wrote (if listed then (shown ++ "\n").toList else out), count)
  | .error reason =>
      if options.has 's' then ({}, 0)
      else (.failure 0 (plainComplaint "grep" name reason), 0)

/-- Choose lines. -/
def grep (extended fixed : Bool) (supply : Supply) (arguments : List String) :
    Outcome :=
  let usage :=
    "Usage: grep [OPTION]... PATTERNS [FILE]..." ++ hintFor "grep"
  match grepTable.read (withContextCount arguments) with
  | .error fault => .failure 2 ("grep: " ++ fault.message ++ "\n" ++ usage)
  | .ok options =>
      match grepPatterns supply options with
      | none => .failure 2 usage
      | some (.error text, _) => .failure 2 text
      | some (.ok patterns, names) =>
          let isExtended := extended || options.has 'E' || options.has 'P'
          let compile (pattern : List Char) : Option Regex :=
            if fixed || options.has 'F' then some (Regex.ofChars pattern)
            else Regex.ofText? isExtended pattern
          match patterns.find? fun pattern => (compile pattern).isNone with
          | some wrong =>
              .failure 2 ("grep: " ++ Regex.faultOf isExtended wrong)
          | none =>
              let regexes := patterns.filterMap compile
              let test : LineTest :=
                { regexes := regexes
                  ignoreCase := options.has 'i' || options.has 'y'
                  wholeLine := options.has 'x'
                  wholeWord := options.has 'w'
                  inverted := options.has 'v' }
              let deep := options.has 'r' || options.has 'R'
              let places :=
                if deep then
                  (if names.isEmpty then ["."] else names).flatMap
                    supply.filesUnder
                else names
              let labelled :=
                (1 < places.length || options.has 'H' || deep) &&
                  !options.has 'h'
              let texts :=
                if deep && places.isEmpty then [] else supply.texts places
              let parts := texts.map fun entry =>
                grepOne options test labelled entry.1 entry.2
              let found := parts.any fun part => 0 < part.2
              let failed := texts.any fun entry => entry.2.toOption.isNone
              let whole := parts.foldl
                (fun (outcome : Outcome) part => outcome.followedBy part.1) {}
              { whole with
                status :=
                  if options.has 'q' && found then 0
                  else if failed then 2
                  else if found then 0
                  else 1
                demand :=
                  if !deep && (demandOf names).reads then
                    grepDemand options test supply.input
                  else .nothing
                flows := options.has 'U' }

end PackageLayers.Program.Filter

/-
Purpose: How the words of an input become arguments of commands.
Main exports: Distribution, Distribution.ofArguments, Distribution.commands?
-/
import PackageLayers.Program.Filter.Basic

namespace PackageLayers.Program

/-!
The words of an input are put behind a command, as many at a time as are asked for.
Quotes and backslashes keep blanks in a word, unless an octet is named that ends
every word.
-/

/-- How the words of an input become arguments of a command. -/
structure Distribution where
  size : Option Nat := none
  lines : Option Nat := none
  mark : Option String := none
  ending : Option Char := none
  skipsNothing : Bool := false
  traces : Bool := false
  command : List String := []
deriving Repr, Inhabited, DecidableEq

namespace Distribution

/-- The options of a distribution. -/
def table : OptionTable :=
  { flags := "0rtxop"
    valued := "nLIPsdEa"
    optional := "i"
    long := [("null", '0'), ("no-run-if-empty", 'r'), ("verbose", 't'),
      ("max-args", 'n'), ("max-lines", 'L'), ("replace", 'i'),
      ("max-procs", 'P'), ("delimiter", 'd'), ("exit", 'x')]
    leads := true }

/-- The octet that an argument names. -/
def endingOf (text : String) : Option Char :=
  match text.toList with
  | ['\\', 'n'] => some '\n'
  | ['\\', 't'] => some '\t'
  | ['\\', '0'] => some '\x00'
  | c :: _ => some c
  | [] => none

/-- What arguments ask for. -/
def ofArguments (arguments : List String) : Except OptionFault Distribution := do
  let options ← table.read arguments
  let number (letter : Char) : Option Nat :=
    (options.value? letter).map fun text => Text.decimal text.toList
  let mark :=
    match options.value? 'I', options.value? 'i' with
    | some mark, _ => some mark
    | none, some mark => some (if mark.isEmpty then "\x7b\x7d" else mark)
    | none, none => none
  pure
    { size := number 'n'
      lines := number 'L'
      mark := mark
      ending :=
        if options.has '0' then some '\x00'
        else (options.value? 'd').bind endingOf
      skipsNothing := options.has 'r'
      traces := options.has 't'
      command := if options.operands.isEmpty then ["echo"] else options.operands }

/-- A text without its quotes and backslashes, where a mark tells the characters
that may separate words; the quote that has no partner if there is one. -/
def unquoted : (quote : Option Char) → List Char →
    Except Char (List (Char × Bool))
  | none, [] => .ok []
  | some quote, [] => .error quote
  | none, '\\' :: c :: rest => (unquoted none rest).map fun text => (c, false) :: text
  | none, c :: rest =>
      if c = '\'' || c = '"' then unquoted (some c) rest
      else (unquoted none rest).map fun text => (c, true) :: text
  | some quote, c :: rest =>
      if c = quote then unquoted none rest
      else if c = '\n' then .error quote
      else (unquoted (some quote) rest).map fun text => (c, false) :: text

/-- The pieces of a text between characters that separate, without empty ones. -/
def piecesAt (separates : Char → Bool) (text : List (Char × Bool)) :
    List (List (Char × Bool)) :=
  (Text.splitAt (fun (entry : Char × Bool) => entry.2 && separates entry.1) text).filter
    fun piece => !piece.isEmpty

/-- The text of a piece. -/
def pieceText (piece : List (Char × Bool)) : String :=
  String.ofList (piece.map Prod.fst)

/-- The words of a piece of a text. -/
def wordsIn (piece : List (Char × Bool)) : List String :=
  (piecesAt (fun c => c = ' ' || c = '\t' || c = '\n') piece).map pieceText

/-- A list in parts of a size. -/
def inParts {α : Type} (size : Nat) : (rounds : Nat) → List α → List (List α)
  | 0, _ => []
  | _ + 1, [] => []
  | rounds + 1, items =>
      items.take size :: inParts size rounds (items.drop size)

/-- The items of an input, in lines. -/
def itemLines (found : Distribution) (input : List Char) :
    Except Char (List (List String)) :=
  match found.ending with
  | some ending =>
      let pieces := Text.splitAt (· == ending) input
      let pieces :=
        if pieces.getLast? = some [] then pieces.dropLast else pieces
      .ok (pieces.map fun piece => [String.ofList piece])
  | none =>
      (unquoted none input).map fun text =>
        let lines := piecesAt (· == '\n') text
        match found.mark with
        | some _ =>
            let isBlank (entry : Char × Bool) : Bool :=
              entry.2 && (entry.1 = ' ' || entry.1 = '\t')
            ((lines.map fun line => line.dropWhile isBlank).filter fun line =>
              !line.isEmpty).map fun line => [pieceText line]
        | none => (lines.map wordsIn).filter fun words => !words.isEmpty

/-- The commands that an input asks for, or a complaint about the input. -/
def commands? (found : Distribution) (input : List Char) :
    Except String (List (List String)) :=
  match found.itemLines input with
  | .error quote =>
      let kind := if quote = '"' then "double" else "single"
      .error
        (s!"xargs: unmatched {kind} quote; by default quotes are special to xargs "
          ++ "unless you use the -0 option")
  | .ok lines =>
      .ok
        (match found.mark, found.lines with
        | some mark, _ =>
            lines.flatten.map fun item =>
              found.command.map fun word => item.intercalate (word.splitOn mark)
        | none, lines? =>
            let words := lines.flatten
            if words.isEmpty then
              if found.skipsNothing then [] else [found.command]
            else
              let parts :=
                match found.size, lines? with
                | some size, _ => inParts (max 1 size) (words.length + 1) words
                | none, some count =>
                    (inParts (max 1 count) (lines.length + 1) lines).map
                      List.flatten
                | none, none => [words]
              parts.map fun part => found.command ++ part)

end Distribution

example :
    (({ size := some 2, command := ["echo"] : Distribution }).commands?
        "a 'b c'\nd".toList).toOption =
      some [["echo", "a", "b c"], ["echo", "d"]] := by
  decide +kernel

end PackageLayers.Program

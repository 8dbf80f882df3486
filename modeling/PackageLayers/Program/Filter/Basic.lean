/-
Purpose: What text filters are given and what they give.
Main exports: Supply, Demand, Outcome, OptionTable, Options, withOptions, textLines
-/
import PackageLayers.Text.Fold
import PackageLayers.Text.Hex

namespace PackageLayers.Program

/-!
A filter is a function: from its arguments, its input and the files that it may
read, to what it writes, what it complains of, and its status.  Files are read by
name; what cannot be read comes with the reason.
-/

/-- What a filter may look at: its input, whether that is a file, the files, and
the names of the files in directories. -/
structure Supply where
  input : List Char
  isFile : Bool := false
  filesUnder : String → List String := fun name => [name]
  readFile : String → Except String (List Char)

/-- What a filter reads of its input: all, or all before a rest that it does not
need.  A file is left where the filter says; from a pipe it may have taken more
than it needs, unless it is exact. -/
structure Demand where
  reads : Bool := true
  unneeded : Option (List Char) := none
  left : List Char := []
  exact : Bool := false
deriving Repr, Inhabited, DecidableEq

/-- A filter that needs nothing before a rest. -/
def Demand.before (rest : List Char) (exact : Bool) : Demand :=
  { unneeded := some rest, left := rest, exact := exact }

/-- A filter that reads nothing. -/
def Demand.nothing : Demand :=
  { reads := false }

/-- What a filter did: what it wrote and complained of, in order, where a mark
tells complaints.  One that flows writes while its input comes; an endless one never
ends. -/
structure Outcome where
  said : List (Bool × List Char) := []
  status : Nat := 0
  demand : Demand := .nothing
  flows : Bool := false
  isEndless : Bool := false
  stored : List (String × List Char) := []

namespace Outcome

/-- One outcome after another; the greater status counts. -/
def followedBy (first second : Outcome) : Outcome :=
  { said := first.said ++ second.said
    status := max first.status second.status
    demand := if second.demand.reads then second.demand else first.demand
    flows := first.flows || second.flows
    isEndless := first.isEndless || second.isEndless
    stored := first.stored ++ second.stored }

/-- What was written. -/
def out (outcome : Outcome) : List Char :=
  outcome.said.flatMap fun part => if part.1 then [] else part.2

/-- An outcome with something else written after its complaints. -/
def withOut (outcome : Outcome) (out : List Char) : Outcome :=
  { outcome with
    said := (outcome.said.filter fun part => part.1) ++ [(false, out)] }

/-- An outcome that only complains. -/
def failure (status : Nat) (complaint : String) : Outcome :=
  { said := [(true, complaint.toList ++ ['\n'])], status := status }

/-- An outcome that only writes. -/
def wrote (out : List Char) : Outcome :=
  { said := [(false, out)] }

end Outcome

/-- The options that a program knows: letters, letters with a value, letters that
may have a value right after them, and long names of letters.  Options may stand
behind operands unless they have to lead. -/
structure OptionTable where
  flags : String := ""
  valued : String := ""
  optional : String := ""
  long : List (String × Char) := []
  leads : Bool := false
deriving Repr, Inhabited, DecidableEq

/-- The arguments of a program: options of one letter, with their values, and what
is no option. -/
structure Options where
  flags : List (Char × String) := []
  operands : List String := []

/-- What is wrong with options. -/
inductive OptionFault where
  | unknown (letter : Char)
  | unrecognized (name : String)
  | ambiguous (name : String)
  | missingValue (letter : Char)
  | missingLongValue (name : String)
  | needlessValue (name : String)
deriving Repr, Inhabited, DecidableEq

/-- The description of a fault. -/
def OptionFault.message : OptionFault → String
  | .unknown letter => s!"invalid option -- '{letter}'"
  | .unrecognized name => s!"unrecognized option '--{name}'"
  | .ambiguous name => s!"option '--{name}' is ambiguous"
  | .missingValue letter => s!"option requires an argument -- '{letter}'"
  | .missingLongValue name => s!"option '--{name}' requires an argument"
  | .needlessValue name => s!"option '--{name}' doesn't allow an argument"

namespace OptionTable

/-- The options of one argument after its dash; the last may take the argument
that follows for its value. -/
def cluster (table : OptionTable) : List Char → List String →
    Except OptionFault (List (Char × String) × List String)
  | [], rest => .ok ([], rest)
  | c :: more, rest =>
      if table.valued.contains c then
        if !more.isEmpty then .ok ([(c, String.ofList more)], rest)
        else
          match rest with
          | value :: rest => .ok ([(c, value)], rest)
          | [] => .error (.missingValue c)
      else if table.optional.contains c then
        .ok ([(c, String.ofList more)], rest)
      else if table.flags.contains c then
        (table.cluster more rest).map fun (flags, rest) =>
          ((c, "") :: flags, rest)
      else .error (.unknown c)

/-- The letter of a long name, which may be cut short. -/
def letterOf (table : OptionTable) (name : String) :
    Except OptionFault (String × Char) :=
  match table.long.find? fun entry => entry.1 == name with
  | some entry => .ok entry
  | none =>
      match table.long.filter fun entry => entry.1.startsWith name with
      | [] => .error (.unrecognized name)
      | [entry] => .ok entry
      | entry :: rest =>
          if rest.all fun other => other.2 = entry.2 then .ok entry
          else .error (.ambiguous name)

/-- The option of one argument after two dashes. -/
def longOption (table : OptionTable) (text : List Char) (rest : List String) :
    Except OptionFault ((Char × String) × List String) := do
  let name := String.ofList (text.takeWhile (· ≠ '='))
  let (name, letter) ← table.letterOf name
  let value := text.dropWhile (· ≠ '=')
  if table.valued.contains letter then
    match value, rest with
    | _ :: value, _ => pure ((letter, String.ofList value), rest)
    | [], value :: rest => pure ((letter, value), rest)
    | [], [] => throw (.missingLongValue name)
  else if value.isEmpty || table.optional.contains letter then
    pure ((letter, String.ofList (value.drop 1)), rest)
  else throw (.needlessValue name)

/-- Options and operands may stand in any order, up to two dashes. -/
def parse (table : OptionTable) : (rounds : Nat) → List String →
    Except OptionFault Options
  | 0, _ => .ok {}
  | _ + 1, [] => .ok {}
  | _ + 1, "--" :: rest => .ok { operands := rest }
  | rounds + 1, argument :: rest =>
      match argument.toList with
      | '-' :: '-' :: name => do
          let (flag, rest) ← table.longOption name rest
          let later ← table.parse rounds rest
          pure { later with flags := flag :: later.flags }
      | '-' :: c :: more => do
          let (flags, rest) ← table.cluster (c :: more) rest
          let later ← table.parse rounds rest
          pure { later with flags := flags ++ later.flags }
      | _ =>
          if table.leads then .ok { operands := argument :: rest }
          else
            (table.parse rounds rest).map fun later =>
              { later with operands := argument :: later.operands }

/-- The options and operands of arguments. -/
def read (table : OptionTable) (arguments : List String) :
    Except OptionFault Options :=
  table.parse (arguments.length + 1) arguments

end OptionTable

/-- The pointer to more information with which a program ends a complaint. -/
def hintFor (program : String) : String :=
  s!"\nTry '{program} --help' for more information."

/-- The outcome of a filter with the options that its arguments are, or with the
complaint that they are wrong. -/
def withOptions (program : String) (failing : Nat) (table : OptionTable)
    (arguments : List String) (work : Options → Outcome) : Outcome :=
  match table.read arguments with
  | .ok options => work options
  | .error fault =>
      .failure failing (program ++ ": " ++ fault.message ++ hintFor program)

namespace Options

/-- Whether an option is given. -/
def has (options : Options) (letter : Char) : Bool :=
  options.flags.any fun flag => flag.1 = letter

/-- The last value of an option. -/
def value? (options : Options) (letter : Char) : Option String :=
  (options.flags.reverse.find? fun flag => flag.1 = letter).map Prod.snd

/-- All values of an option. -/
def values (options : Options) (letter : Char) : List String :=
  (options.flags.filter fun flag => flag.1 = letter).map Prod.snd

end Options

/-- What names give to read; without names it is the input.  The input can be read
only once. -/
def Supply.texts (supply : Supply) (names : List String) :
    List (String × Except String (List Char)) :=
  match names with
  | [] => [("-", .ok supply.input)]
  | _ =>
      names.zipIdx.map fun (name, place) =>
        if name ≠ "-" then (name, supply.readFile name)
        else if (names.take place).contains "-" then (name, .ok [])
        else (name, .ok supply.input)

/-- What a filter reads of its input that is given names to read. -/
def demandOf (names : List String) : Demand :=
  if names.isEmpty || names.contains "-" then {} else .nothing

/-- Work on the texts of some names one after the other; `complain` words the
reason why one cannot be read. -/
def Supply.each (supply : Supply) (names : List String) (failing : Nat)
    (complain : String → String → String)
    (work : String → List Char → Outcome) : Outcome :=
  let outcome :=
    (supply.texts names).foldl
      (fun (outcome : Outcome) entry =>
        outcome.followedBy
          (match entry.2 with
          | .ok text => work entry.1 text
          | .error reason => Outcome.failure failing (complain entry.1 reason)))
      {}
  { outcome with demand := demandOf names }

/-- The texts of some names joined. -/
def Supply.joined (supply : Supply) (names : List String) (failing : Nat)
    (complain : String → String → String)
    (work : List Char → List Char) : Outcome :=
  let read := supply.each names failing complain fun _ text => .wrote text
  read.withOut (work read.out)

/-- The common complaint of a filter about a name. -/
def plainComplaint (filter name reason : String) : String :=
  filter ++ ": " ++ name ++ ": " ++ reason

/-- The lines of a text, without their ends. -/
def textLines (text : List Char) : List (List Char) :=
  let pieces := Text.splitAt (· == '\n') text
  match pieces.getLast? with
  | some [] => pieces.dropLast
  | _ => pieces

/-- Lines with their ends. -/
def joinLines (lines : List (List Char)) : List Char :=
  lines.flatMap fun line => line ++ ['\n']

/-- Whether a text has a last line without an end. -/
def endsOpen (text : List Char) : Bool :=
  text.getLast?.any (· ≠ '\n')

/-- A number with an optional unit that an argument writes. -/
def sizeOf? (text : String) : Option Nat :=
  let digits := text.toList.takeWhile Char.isDigit
  let factor : Option Nat :=
    match String.ofList (text.toList.drop digits.length) with
    | "" => some 1
    | "b" => some 512
    | "kB" => some 1000
    | "k" | "K" | "KiB" => some 1024
    | "MB" => some 1000000
    | "M" | "MiB" => some 1048576
    | _ => none
  if digits.isEmpty then none else factor.map (· * Text.decimal digits)

/-- Lines with their ends, the last without one if `isOpen`. -/
def joinLinesLike (isOpen : Bool) (lines : List (List Char)) : List Char :=
  let joined := joinLines lines
  if isOpen then joined.dropLast else joined

end PackageLayers.Program

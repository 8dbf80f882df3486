/-
Purpose: Filters whose arguments say all: an expression, or a row of numbers.
Main exports: Filter.expr, Filter.seq
-/
import PackageLayers.Program.Filter.Lines
import PackageLayers.Program.Printf
import PackageLayers.Program.Regex

namespace PackageLayers.Program.Filter

/-!
Every argument is a number, a text or an operator.  Operators bind in five
strengths; the strongest, `:`, matches an expression at the start of a text and
gives the first group of the match, or its length.
-/

/-- A result of reading: a value and the arguments after it; an error message
where there is none. -/
abbrev Evaluated := Except String (String × List String)

/-- Whether a value counts as true. -/
def isTrue (value : String) : Bool :=
  match value.toInt? with
  | some number => number ≠ 0
  | none => !value.isEmpty

/-- The value of a truth value. -/
def flagText (flag : Bool) : String :=
  if flag then "1" else "0"

/-- The match of an expression at the start of a text. -/
def matchAtStart (text pattern : String) : Except String String :=
  match Regex.ofText? false pattern.toList with
  | none => .error "expr: Invalid regular expression"
  | some regex =>
      let hasGroup := Text.containsText "\\(" pattern
      let accept (start _ : Regex.Spot) : Bool := start.place = 0
      match regex.searchAt? false accept ⟨0, none, text.toList, []⟩ with
      | none => .ok (if hasGroup then "" else "0")
      | some found =>
          if hasGroup then
            .ok (String.ofList
              (((found.groups.find? fun entry => entry.1 == 1).map
                Prod.snd).getD []))
          else .ok (toString found.text.length)

/-- The value of an operator between two values. -/
def exprApply (operator left right : String) : Except String String :=
  let numbers (work : Int → Int → Except String Int) : Except String String :=
    match left.toInt?, right.toInt? with
    | some first, some second => (work first second).map toString
    | _, _ => .error "expr: non-integer argument"
  let ordered (relation : Ordering → Bool) : Except String String :=
    match left.toInt?, right.toInt? with
    | some first, some second => .ok (flagText (relation (compare first second)))
    | _, _ => .ok (flagText (relation (compare left right)))
  match operator with
  | "|" =>
      .ok (if isTrue left then left else if isTrue right then right else "0")
  | "&" => .ok (if isTrue left && isTrue right then left else "0")
  | "<" => ordered (· == .lt)
  | "<=" => ordered (· != .gt)
  | "=" | "==" => ordered (· == .eq)
  | "!=" => ordered (· != .eq)
  | ">=" => ordered (· != .lt)
  | ">" => ordered (· == .gt)
  | "+" => numbers fun first second => .ok (first + second)
  | "-" => numbers fun first second => .ok (first - second)
  | "*" => numbers fun first second => .ok (first * second)
  | "/" => numbers fun first second =>
      if second = 0 then .error "expr: division by zero"
      else .ok (first.tdiv second)
  | "%" => numbers fun first second =>
      if second = 0 then .error "expr: division by zero"
      else .ok (first.tmod second)
  | _ => matchAtStart left right

/-- How strongly an operator binds. -/
def exprStrength? (operator : String) : Option Nat :=
  match operator with
  | "|" => some 1
  | "&" => some 2
  | "<" | "<=" | "=" | "==" | "!=" | ">=" | ">" => some 3
  | "+" | "-" => some 4
  | "*" | "/" | "%" => some 5
  | ":" => some 6
  | _ => none

mutual

/-- The value of arguments joined by operators that bind at least so
strongly. -/
def exprBinary : (rounds least : Nat) → List String → Evaluated
  | 0, _, _ => .error "expr: syntax error"
  | rounds + 1, least, arguments => do
      let (first, after) ← exprPrimary rounds arguments
      exprFurther rounds least first after

/-- Further operators after a value. -/
def exprFurther : (rounds least : Nat) → String → List String → Evaluated
  | 0, _, _, _ => .error "expr: syntax error"
  | rounds + 1, least, first, operator :: rest =>
      match exprStrength? operator with
      | some strength =>
          if least ≤ strength then do
            let (second, after) ← exprBinary rounds (strength + 1) rest
            let value ← exprApply operator first second
            exprFurther rounds least value after
          else pure (first, operator :: rest)
      | none => pure (first, operator :: rest)
  | _ + 1, _, first, [] => pure (first, [])

/-- An argument that stands for itself, or a function of those after it. -/
def exprPrimary : (rounds : Nat) → List String → Evaluated
  | 0, _ => .error "expr: syntax error"
  | _ + 1, [] => .error "expr: syntax error: missing argument"
  | rounds + 1, "(" :: rest => do
      let (value, after) ← exprBinary rounds 1 rest
      match after with
      | ")" :: rest => pure (value, rest)
      | _ => .error "expr: syntax error: expecting ')'"
  | rounds + 1, "length" :: rest => do
      let (text, after) ← exprPrimary rounds rest
      pure (toString text.length, after)
  | rounds + 1, "match" :: rest => do
      let (text, after) ← exprPrimary rounds rest
      let (pattern, after) ← exprPrimary rounds after
      let value ← matchAtStart text pattern
      pure (value, after)
  | rounds + 1, "substr" :: rest => do
      let (text, after) ← exprPrimary rounds rest
      let (start, after) ← exprPrimary rounds after
      let (size, after) ← exprPrimary rounds after
      match start.toNat?, size.toNat? with
      | some (first + 1), some count =>
          pure (String.ofList ((text.toList.drop first).take count), after)
      | _, _ => pure ("", after)
  | rounds + 1, "index" :: rest => do
      let (text, after) ← exprPrimary rounds rest
      let (wanted, after) ← exprPrimary rounds after
      let place := text.toList.findIdx fun c => wanted.toList.contains c
      pure
        (if place < text.length then toString (place + 1) else "0", after)
  | _ + 1, argument :: rest => pure (argument, rest)

end

/-- Evaluate the arguments. -/
def expr (arguments : List String) : Outcome :=
  match arguments with
  | [] => .failure 2 "expr: missing operand\nTry 'expr --help' for more information."
  | _ =>
      match exprBinary (8 * arguments.length + 8) 1 arguments with
      | .error message => .failure 2 message
      | .ok (value, []) =>
          { Outcome.wrote (value.toList ++ ['\n']) with
            status := if isTrue value then 0 else 1 }
      | .ok (_, extra :: _) =>
          .failure 2 s!"expr: syntax error: unexpected argument '{extra}'"

/-!
The numbers of a row are decimal.  They are counted in units of the last place
that the first number and the step are written with.
-/

/-- A decimal number: how many units, and with how many places. -/
structure Decimal where
  units : Int
  places : Nat := 0
deriving Repr, Inhabited, DecidableEq

namespace Decimal

/-- The number that an argument writes. -/
def ofText? (text : String) : Option Decimal :=
  let (negative, body) :=
    match text.toList with
    | '-' :: rest => (true, rest)
    | '+' :: rest => (false, rest)
    | chars => (false, chars)
  let whole := body.takeWhile Char.isDigit
  let fraction? :=
    match body.drop whole.length with
    | [] => some []
    | '.' :: rest => if rest.all Char.isDigit then some rest else none
    | _ => none
  fraction?.bind fun fraction =>
    if (whole ++ fraction).isEmpty then none
    else
      let size := Int.ofNat (Text.decimal (whole ++ fraction))
      some ⟨if negative then -size else size, fraction.length⟩

/-- How many units of a smaller size a number has, rounded toward zero. -/
def unitsOf (places : Nat) (number : Decimal) : Int :=
  let scaled := number.units * Int.ofNat (Nat.pow 10 places)
  scaled.fdiv (Int.ofNat (Nat.pow 10 number.places))

/-- A number in digits. -/
def text (number : Decimal) : String :=
  let digits := Nat.toDigits 10 number.units.natAbs
  let digits :=
    List.replicate (number.places + 1 - digits.length) '0' ++ digits
  let whole := digits.take (digits.length - number.places)
  let fraction := digits.drop (digits.length - number.places)
  let sign := if number.units < 0 then "-" else ""
  sign ++ String.ofList (if fraction.isEmpty then whole else whole ++ '.' :: fraction)

end Decimal

/-- Whole numbers from one to another. -/
def numbersBetween (first step last : Int) : List Int :=
  if step = 0 then []
  else
    let count := if 0 < step then (last - first).fdiv step
      else (first - last).fdiv (-step)
    (List.range (count + 1).toNat).map fun place =>
      first + step * Int.ofNat place

/-- How numbers in a row are written. -/
structure Row where
  separator : String := "\n"
  isPadded : Bool := false
  format : Option String := none
  numbers : List String := []
deriving Repr, Inhabited, DecidableEq

/-- What arguments ask for; what begins like a negative number is one. -/
def Row.ofArguments (row : Row) : List String → Except String Row
  | "--" :: rest => .ok { row with numbers := row.numbers ++ rest }
  | "-s" :: mark :: rest => ofArguments { row with separator := mark } rest
  | "--separator" :: mark :: rest => ofArguments { row with separator := mark } rest
  | "-f" :: format :: rest => ofArguments { row with format := some format } rest
  | "-w" :: rest | "--equal-width" :: rest =>
      ofArguments { row with isPadded := true } rest
  | argument :: rest =>
      match argument.toList with
      | '-' :: 's' :: mark =>
          ofArguments { row with separator := String.ofList mark } rest
      | '-' :: 'f' :: format =>
          ofArguments { row with format := some (String.ofList format) } rest
      | '-' :: c :: _ =>
          if c.isDigit || c = '.' then
            ofArguments { row with numbers := row.numbers ++ [argument] } rest
          else
            match Text.stripPrefix? "--separator=" argument,
              Text.stripPrefix? "--format=" argument with
            | some mark, _ => ofArguments { row with separator := mark } rest
            | _, some format => ofArguments { row with format := some format } rest
            | none, none => .error s!"seq: invalid option -- '{c}'"
      | _ => ofArguments { row with numbers := row.numbers ++ [argument] } rest
  | [] => .ok row

/-- The numbers of a row from one to another. -/
def Row.write (row : Row) (first step last : Decimal) : Outcome :=
  let places := max first.places step.places
  let fine := max places last.places
  let units := numbersBetween (first.unitsOf fine) (step.unitsOf fine)
    (last.unitsOf fine)
  let texts := units.map fun size =>
    Decimal.text ⟨(Decimal.mk size fine).unitsOf places, places⟩
  let width := (texts.map String.length).foldl max 0
  let shown (text : String) : String :=
    match row.format with
    | some format => String.ofList (printf format [text]).out
    | none =>
        if !row.isPadded then text
        else
          let zeros := String.ofList (List.replicate (width - text.length) '0')
          match Text.stripPrefix? "-" text with
          | some size => "-" ++ zeros ++ size
          | none => zeros ++ text
  if texts.isEmpty then {}
  else .wrote (row.separator.intercalate (texts.map shown) ++ "\n").toList

/-- Numbers in a row. -/
def seq (arguments : List String) : Outcome :=
  let refused (text : String) : Outcome := .failure 1 (text ++ hintFor "seq")
  match Row.ofArguments {} arguments with
  | .error text => refused text
  | .ok row =>
      match row.numbers.find? fun text => (Decimal.ofText? text).isNone with
      | some wrong => refused s!"seq: invalid floating point argument: '{wrong}'"
      | none =>
          match row.numbers.filterMap Decimal.ofText? with
          | [] => refused "seq: missing operand"
          | [last] => row.write ⟨1, 0⟩ ⟨1, 0⟩ last
          | [first, last] => row.write first ⟨1, 0⟩ last
          | [first, step, last] =>
              if step.units = 0 then
                let text := (row.numbers[1]?).getD ""
                refused s!"seq: invalid Zero increment value: '{text}'"
              else row.write first step last
          | _ =>
              let extra := (row.numbers[3]?).getD ""
              refused s!"seq: extra operand '{extra}'"

end PackageLayers.Program.Filter

/-
Purpose: What echo and printf write.
Main exports: echoText, printf, Printed
-/
import PackageLayers.Number.Decimal
import PackageLayers.Program.Arithmetic
import PackageLayers.Text.Octets

namespace PackageLayers.Program

/-!
A backslash and a letter, or octal digits, stand for an octet in the arguments
of `echo`, in the format of `printf` and in what its directive `%b` writes; the
three differ in how octal digits begin.  A format is used again as long as
arguments are left.
-/

/-- The character that a backslash and a letter stand for. -/
def controlEscape? : Char → Option Char
  | 'a' => some '\x07'
  | 'b' => some '\x08'
  | 'e' => some '\x1b'
  | 'f' => some '\x0c'
  | 'n' => some '\n'
  | 'r' => some '\r'
  | 't' => some '\t'
  | 'v' => some '\x0b'
  | '\\' => some '\\'
  | _ => none

/-- Whether a character is an octal digit. -/
def isOctal (c : Char) : Bool :=
  '0' ≤ c && c ≤ '7'

/-- The octet that octal digits write. -/
def octalOctet (digits : List Char) : Char :=
  Text.octet (Text.numeral 8 digits)

/-- A text with escapes replaced; the flag says that `\c` ended it.  `rounds`
bounds its length. -/
def unescape : (rounds : Nat) → List Char → List Char × Bool
  | 0, _ => ([], false)
  | _ + 1, [] => ([], false)
  | _ + 1, '\\' :: 'c' :: _ => ([], true)
  | rounds + 1, '\\' :: '0' :: rest =>
      let digits := (rest.take 3).takeWhile isOctal
      let (later, ended) := unescape rounds (rest.drop digits.length)
      (octalOctet digits :: later, ended)
  | rounds + 1, '\\' :: c :: rest =>
      match controlEscape? c with
      | some control =>
          let (later, ended) := unescape rounds rest
          (control :: later, ended)
      | none =>
          let digits := ((c :: rest).take 3).takeWhile isOctal
          if digits.isEmpty then
            let (later, ended) := unescape rounds (c :: rest)
            ('\\' :: later, ended)
          else
            let (later, ended) :=
              unescape rounds ((c :: rest).drop digits.length)
            (octalOctet digits :: later, ended)
  | rounds + 1, c :: rest =>
      let (later, ended) := unescape rounds rest
      (c :: later, ended)

/-- What `echo` writes: its arguments with escapes replaced, and a line end
unless the first argument is `-n`. -/
def echoText (arguments : List String) : List Char :=
  let (silent, words) :=
    match arguments with
    | "-n" :: rest => (true, rest)
    | rest => (false, rest)
  let joined := (" ".intercalate words).toList
  let (content, ended) := unescape (joined.length + 1) joined
  if silent || ended then content else content ++ ['\n']

/-- How a value is laid out. -/
structure Layout where
  left : Bool := false
  zero : Bool := false
  plus : Bool := false
  space : Bool := false
  alternate : Bool := false
  width : Nat := 0
  precision : Option Nat := none

namespace Layout

/-- A text with blanks up to the width. -/
def padded (layout : Layout) (text : List Char) : List Char :=
  let blanks := List.replicate (layout.width - text.length) ' '
  if layout.left then text ++ blanks else blanks ++ text

/-- Digits with a sign or mark in front, filled up to the precision or the
width. -/
def number (layout : Layout) (mark digits : List Char) : List Char :=
  let digits :=
    match layout.precision with
    | some least =>
        if least = 0 && digits = ['0'] then []
        else List.replicate (least - digits.length) '0' ++ digits
    | none =>
        if layout.zero && !layout.left then
          List.replicate (layout.width - mark.length - digits.length) '0' ++
            digits
        else digits
  layout.padded (mark ++ digits)

/-- The sign in front of a number. -/
def sign (layout : Layout) (negative : Bool) : List Char :=
  if negative then ['-']
  else if layout.plus then ['+']
  else if layout.space then [' ']
  else []

end Layout

/-- The digits of a number in a base. -/
def digitsIn (base : Nat) (upper : Bool) (value : Nat) : List Char :=
  let digits := Nat.toDigits base value
  if upper then digits.map Char.toUpper else digits

/-- A number that an argument writes, between a least and a greatest: what it is,
and what is wrong with it. -/
def numberArgument (least greatest : Int) (text : String) :
    Int × Option String :=
  let chars := text.toList.dropWhile fun c => " \t\n\x0b\x0c\r".toList.contains c
  match chars with
  | '"' :: rest | '\'' :: rest =>
      (Int.ofNat (rest.headD '\x00').toNat, none)
  | _ =>
      let (negative, body) :=
        match chars with
        | '-' :: rest => (true, rest)
        | '+' :: rest => (false, rest)
        | rest => (false, rest)
      if !body.head?.any Char.isDigit then
        (0, if text.isEmpty then none else some "expected numeric value")
      else
        let (size, after) := Formula.wholeNumeral body
        let value := if negative then -size else size
        if value < least then (least, some "Numerical result out of range")
        else if greatest < value then
          (greatest, some "Numerical result out of range")
        else (value, if after.isEmpty then none else some "not completely converted")

/-- A number of 64 bits with a sign that an argument writes. -/
def signedArgument (text : String) : Int × Option String :=
  numberArgument (-Formula.greatest - 1) Formula.greatest text

/-- The power of ten behind a number, and what follows it. -/
def powerOfTen (chars : List Char) : Int × List Char :=
  match chars with
  | mark :: rest =>
      let (negative, body) :=
        match rest with
        | '-' :: body => (true, body)
        | '+' :: body => (false, body)
        | body => (false, body)
      let digits := body.takeWhile Char.isDigit
      if (mark = 'e' || mark = 'E') && !digits.isEmpty then
        let size := Int.ofNat (min 5000 (Text.decimal digits))
        (if negative then -size else size, body.drop digits.length)
      else (0, chars)
  | [] => (0, [])

/-- The double that decimal digits at the start of a text write, if it is finite,
and what follows them; none without digits. -/
def leadingDouble? (chars : List Char) :
    Option (Option Double × List Char) :=
  let (negative, body) :=
    match chars with
    | '-' :: rest => (true, rest)
    | '+' :: rest => (false, rest)
    | rest => (false, rest)
  let whole := body.takeWhile Char.isDigit
  let (fraction, after) :=
    match body.drop whole.length with
    | '.' :: rest => (rest.takeWhile Char.isDigit, rest.dropWhile Char.isDigit)
    | rest => ([], rest)
  if whole.isEmpty && fraction.isEmpty then none
  else
    let (power, after) := powerOfTen after
    let (above, below) :=
      timesTenPower (Text.decimal (whole ++ fraction))
        (Nat.pow 10 fraction.length) power
    some (Double.ofRatio? negative above below, after)

/-- The double that an argument writes, if it is finite, and what is wrong with
it. -/
def doubleArgument (text : String) : Option Double × Option String :=
  let chars := text.toList.dropWhile fun c => " \t\n\x0b\x0c\r".toList.contains c
  match leadingDouble? chars with
  | none =>
      (some (Double.zero false),
        if text.isEmpty then none else some "expected numeric value")
  | some (none, _) => (none, some "Numerical result out of range")
  | some (number, after) =>
      (number, if after.isEmpty then none else some "not completely converted")

/-- The text of a double in one of the ways to write it. -/
def doubleText (layout : Layout) (kind : Char) (number : Double) : List Char :=
  let (above, below) := number.ratio
  let places := layout.precision.getD 6
  let text :=
    match kind with
    | 'e' => scientificText false places above below
    | 'E' => scientificText true places above below
    | 'g' => generalText false places above below
    | 'G' => generalText true places above below
    | _ => fixedDigits places above below
  { layout with precision := none }.number (layout.sign number.negative) text

/-- What was written so far: the octets, complaints, the status, and whether
writing has ended. -/
structure Printed where
  out : List Char := []
  complaints : List String := []
  status : Nat := 0
  ended : Bool := false

/-- Two parts one after the other. -/
def Printed.followedBy (first second : Printed) : Printed :=
  { out := first.out ++ second.out
    complaints := first.complaints ++ second.complaints
    status := max first.status second.status
    ended := first.ended || second.ended }

/-- What a directive writes for an argument; none for an unknown directive. -/
def directive? (layout : Layout) (kind : Char) (argument : String) :
    Option Printed :=
  let complained (problem : Option String) (out : List Char) : Printed :=
    { out := out
      complaints := (problem.map fun text => argument ++ ": " ++ text).toList
      status := if problem.isSome then 1 else 0 }
  let cut (text : List Char) : List Char :=
    match layout.precision with
    | some most => text.take most
    | none => text
  let unsigned (base : Nat) (mark : List Char) :=
    let greatest := Int.ofNat (Text.wordCount 64) - 1
    let (value, problem) := numberArgument (-greatest) greatest argument
    let size := Formula.lowest value
    let mark := if layout.alternate && size ≠ 0 then mark else []
    complained problem (layout.number mark (digitsIn base (kind = 'X') size))
  match kind with
  | 's' => some { out := layout.padded (cut argument.toList) }
  | 'b' =>
      let (text, ended) := unescape (argument.length + 1) argument.toList
      some { out := layout.padded (cut text), ended := ended }
  | 'c' => some { out := layout.padded [argument.toList.headD '\x00'] }
  | 'd' | 'i' =>
      let (value, problem) := signedArgument argument
      some (complained problem
        (layout.number (layout.sign (value < 0))
          (digitsIn 10 false value.natAbs)))
  | 'u' => some (unsigned 10 [])
  | 'o' => some (unsigned 8 ['0'])
  | 'x' => some (unsigned 16 ['0', 'x'])
  | 'X' => some (unsigned 16 ['0', 'X'])
  | 'f' | 'F' | 'e' | 'E' | 'g' | 'G' =>
      match doubleArgument argument with
      | (some number, problem) =>
          some (complained problem (doubleText layout kind number))
      | (none, problem) =>
          some (complained problem (layout.padded ['i', 'n', 'f']))
  | _ => none

/-- The marks after a percent sign, and what follows them. -/
def layoutFlags (layout : Layout) : List Char → Layout × List Char
  | '-' :: rest => layoutFlags { layout with left := true } rest
  | '0' :: rest => layoutFlags { layout with zero := true } rest
  | '+' :: rest => layoutFlags { layout with plus := true } rest
  | ' ' :: rest => layoutFlags { layout with space := true } rest
  | '#' :: rest => layoutFlags { layout with alternate := true } rest
  | chars => (layout, chars)

/-- A width or precision, which a star takes from the arguments. -/
def layoutNumber (chars : List Char) (arguments : List String) :
    Option Int × List Char × List String :=
  match chars with
  | '*' :: rest =>
      (some (signedArgument (arguments.headD "")).1, rest, arguments.drop 1)
  | _ =>
      let digits := chars.takeWhile Char.isDigit
      (if digits.isEmpty then none else some (Int.ofNat (Text.decimal digits)),
        chars.drop digits.length, arguments)

/-- The layout after a percent sign, and what follows it. -/
def layoutOf (chars : List Char) (arguments : List String) :
    Layout × List Char × List String :=
  let (layout, chars) := layoutFlags {} chars
  let (width, chars, arguments) := layoutNumber chars arguments
  let layout :=
    match width with
    | some given =>
        { layout with
          width := given.natAbs
          left := layout.left || given < 0 }
    | none => layout
  match chars with
  | '.' :: rest =>
      let (precision, chars, arguments) := layoutNumber rest arguments
      ({ layout with precision := some ((precision.getD 0).toNat) }, chars,
        arguments)
  | _ => (layout, chars, arguments)

/-- What a format writes with arguments, and the arguments that are left. -/
def formatOnce :
    (rounds : Nat) → Printed → List Char → List String → Printed × List String
  | 0, printed, _, arguments => (printed, arguments)
  | _ + 1, printed, [], arguments => (printed, arguments)
  | rounds + 1, printed, '%' :: '%' :: rest, arguments =>
      formatOnce rounds (printed.followedBy { out := ['%'] }) rest arguments
  | rounds + 1, printed, '%' :: rest, arguments =>
      let (layout, after, arguments) := layoutOf rest arguments
      match after with
      | kind :: later =>
          match directive? layout kind (arguments.headD "") with
          | some part =>
              let printed := printed.followedBy part
              if printed.ended then (printed, [])
              else formatOnce rounds printed later (arguments.drop 1)
          | none =>
              let shown := String.ofList
                ('%' :: rest.take (rest.length - later.length))
              (printed.followedBy
                { complaints := [shown ++ ": invalid directive"]
                  status := 2
                  ended := true }, [])
      | [] =>
          (printed.followedBy
            { complaints := ["missing format character"]
              status := 2
              ended := true }, [])
  | rounds + 1, printed, '\\' :: c :: rest, arguments =>
      let digits := ((c :: rest).take 3).takeWhile isOctal
      if digits.isEmpty then
        match controlEscape? c with
        | some control =>
            formatOnce rounds (printed.followedBy { out := [control] }) rest
              arguments
        | none =>
            formatOnce rounds (printed.followedBy { out := ['\\'] }) (c :: rest)
              arguments
      else
        formatOnce rounds (printed.followedBy { out := [octalOctet digits] })
          ((c :: rest).drop digits.length) arguments
  | rounds + 1, printed, c :: rest, arguments =>
      formatOnce rounds (printed.followedBy { out := [c] }) rest arguments

/-- What a format writes, used again as long as arguments are left and it takes
some. -/
def formatAll (format : List Char) :
    (rounds : Nat) → Printed → List String → Printed
  | 0, printed, _ => printed
  | rounds + 1, printed, arguments =>
      let (printed, left) :=
        formatOnce (format.length + 1) printed format arguments
      if printed.ended || left.isEmpty || left.length = arguments.length then
        printed
      else formatAll format rounds printed left

/-- What `printf` writes for a format and arguments. -/
def printf (format : String) (arguments : List String) : Printed :=
  formatAll format.toList (arguments.length + 1) {} arguments

example : String.ofList (echoText ["\\tb", "c"]) = "\tb c\n" := by
  decide +kernel
example : String.ofList (printf "%-3s|%03d\\n" ["x", "7", "y"]).out =
    "x  |007\ny  |000\n" := by
  decide +kernel

end PackageLayers.Program

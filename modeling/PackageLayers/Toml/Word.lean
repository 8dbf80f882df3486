/-
Purpose: The values of TOML documents that are written without quotes.
Main exports: Toml.isMoment, Toml.word?, Toml.isWordChar
-/
import PackageLayers.Calendar
import PackageLayers.Toml.Basic
import PackageLayers.Text.Hex

namespace PackageLayers.Toml

/-! ### Dates and times -/

/-!
A date, a time of day, or both with or without an offset from universal time.
Every part has a fixed number of digits, but for the fraction of a second, and
the date and the time must exist.  Seconds may be left out.
-/

/-- A number of exactly so many digits, and the characters after it. -/
def fixedNumber? (width : Nat) (chars : List Char) : Option (Nat × List Char) :=
  let digits := chars.takeWhile Char.isDigit
  if digits.length = width then some (Text.decimal digits, chars.drop width)
  else none

/-- The characters after a mark. -/
def afterMark? (mark : Char) : List Char → Option (List Char)
  | c :: rest => if c = mark then some rest else none
  | [] => none

/-- The characters after a date. -/
def afterDate? (chars : List Char) : Option (List Char) := do
  let (year, chars) ← fixedNumber? 4 chars
  let (month, chars) ← (afterMark? '-' chars).bind (fixedNumber? 2)
  let (day, chars) ← (afterMark? '-' chars).bind (fixedNumber? 2)
  if Calendar.isDate (Int.ofNat year) month day then pure chars else none

/-- The characters after hours and minutes. -/
def afterClock? (chars : List Char) : Option (List Char) := do
  let (hours, chars) ← fixedNumber? 2 chars
  let (minutes, chars) ← (afterMark? ':' chars).bind (fixedNumber? 2)
  if hours < 24 && minutes < 60 then pure chars else none

/-- The characters after a fraction of a second, if there is one. -/
def afterFraction? : List Char → Option (List Char)
  | '.' :: rest =>
      if (rest.takeWhile Char.isDigit).isEmpty then none
      else some (rest.dropWhile Char.isDigit)
  | chars => some chars

/-- The characters after a time of day; a leap second may end it. -/
def afterTime? (chars : List Char) : Option (List Char) := do
  match ← afterClock? chars with
  | ':' :: rest =>
      let (seconds, chars) ← fixedNumber? 2 rest
      if seconds ≤ 60 then afterFraction? chars else none
  | chars => pure chars

/-- Whether nothing but an offset from universal time is left. -/
def endsWithOffset : List Char → Bool
  | [] => true
  | [c] => c = 'Z' || c = 'z'
  | c :: rest => (c = '+' || c = '-') && afterClock? rest == some []

/-- Whether the characters write a date, a time or both. -/
def isMoment (chars : List Char) : Bool :=
  match afterDate? chars with
  | none => afterTime? chars == some []
  | some [] => true
  | some (c :: rest) =>
      (c = 'T' || c = 't' || c = ' ') && (afterTime? rest).any endsWithOffset

example : isMoment "1979-05-27 07:32:00.5-07:00".toList = true := by decide
example : isMoment "1900-02-29".toList = false := by decide
example : isMoment "07:32Z".toList = false := by decide

/-! ### Words -/

/-!
A word is a truth value, an integer, a floating point number, or a date or time.
What kind a word is shows in its first characters.  A floating point number and
a date must be complete; an integer needs only be begun, and what digits it has
is asked when it is read: `0x` and `1_0x` are integers that no setting can be.
Underscores stand between digits only.
-/

/-- Whether a character may stand in a word. -/
def isWordChar (c : Char) : Bool :=
  !("=,[]\x7b\x7d# \t\r\n".toList.contains c)

/-- Whether a character is a digit in base sixteen. -/
def isHexDigit (c : Char) : Bool :=
  (Text.hexDigit? c).isSome

/-- The characters without underscores, each of which must stand between two
digits. -/
def joined? (isDigit : Char → Bool) : (afterDigit : Bool) → List Char →
    Option (List Char)
  | _, [] => some []
  | afterDigit, c :: rest =>
      if c = '_' then
        if afterDigit && rest.head?.any isDigit then joined? isDigit false rest
        else none
      else (joined? isDigit (isDigit c) rest).map (c :: ·)

/-- The number that digits in a base write. -/
def unsigned? (base : Nat) (digits : List Char) : Option Int := do
  let values ← digits.mapM Text.hexDigit?
  if !values.isEmpty && values.all (· < base) then
    pure (Int.ofNat (values.foldl (fun total value => base * total + value) 0))
  else none

/-- The number that an optional sign and digits in a base write. -/
def spelled? (base : Nat) : List Char → Option Int
  | '+' :: digits => unsigned? base digits
  | '-' :: digits => (unsigned? base digits).map fun number => -number
  | digits => unsigned? base digits

/-- An integer in a base; one that is only begun is no setting. -/
def integer? (base : Nat) (chars : List Char) : Option Value :=
  (joined? isHexDigit false chars).map fun digits =>
    match spelled? base digits with
    | some number => .integer number
    | none => .other

/-- Whether a character is a decimal digit or an underscore. -/
def isDigitOrGap (c : Char) : Bool :=
  c.isDigit || c = '_'

/-- The characters after at least one digit. -/
def afterDigits? (chars : List Char) : Option (List Char) :=
  if (chars.takeWhile isDigitOrGap).any Char.isDigit then
    some (chars.dropWhile isDigitOrGap)
  else none

/-- The characters after the digits before the point, which start with zero only
if they are zero. -/
def afterWhole? (chars : List Char) : Option (List Char) :=
  let digits := (chars.takeWhile isDigitOrGap).filter Char.isDigit
  if chars.head? = some '0' && 1 < digits.length then none
  else afterDigits? chars

/-- The characters after a fraction, if there is one. -/
def afterPoint? : List Char → Option (List Char)
  | '.' :: rest => afterDigits? rest
  | chars => some chars

/-- The characters after an exponent, if there is one. -/
def afterExponent? : List Char → Option (List Char)
  | [] => some []
  | mark :: rest =>
      if mark = 'e' || mark = 'E' then
        match rest with
        | '+' :: digits => afterDigits? digits
        | '-' :: digits => afterDigits? digits
        | digits => afterDigits? digits
      else none

/-- Whether the characters write a floating point number without a sign. -/
def isFloat (chars : List Char) : Bool :=
  (joined? Char.isDigit false chars).isSome &&
    ((afterWhole? chars).bind afterPoint?).bind afterExponent? == some []

/-- The value of a word that starts with a digit after an optional sign. -/
def number? (sign body : List Char) : Option Value :=
  match body, body.dropWhile Char.isDigit with
  | '0' :: 'x' :: rest, _ => if sign.isEmpty then integer? 16 rest else none
  | '0' :: 'o' :: rest, _ => if sign.isEmpty then integer? 8 rest else none
  | '0' :: 'b' :: rest, _ => if sign.isEmpty then integer? 2 rest else none
  | _, [] => if hasLeadingZero then none else integer? 10 (sign ++ body)
  | _, mark :: rest =>
      if mark = '-' || mark = ':' then
        if sign.isEmpty && isMoment body then some .other else none
      else if (mark :: rest).any fun c => c = '.' || c = 'e' || c = 'E' then
        if isFloat body then some .other else none
      else if mark = '_' && !hasLeadingZero then integer? 10 (sign ++ body)
      else none
where
  hasLeadingZero : Bool := body.head? = some '0' && 1 < body.length

/-- Whether a word names infinity or no number. -/
def isNamedFloat (chars : List Char) : Bool :=
  chars = "inf".toList || chars = "nan".toList

/-- The value that a word writes. -/
def word? (chars : List Char) : Option Value :=
  if chars = "true".toList then some (.boolean true)
  else if chars = "false".toList then some (.boolean false)
  else
    let (sign, body) :=
      if chars.head?.any fun c => c = '+' || c = '-' then
        (chars.take 1, chars.drop 1)
      else ([], chars)
    if isNamedFloat body then some .other
    else if body.head?.any Char.isDigit then number? sign body
    else none

end PackageLayers.Toml

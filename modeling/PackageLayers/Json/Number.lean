/-
Purpose: The numbers of a JSON text.
Main exports: Json.NumberParts, Json.numberParts?, Json.numberValue?
-/
import PackageLayers.Json.Basic

namespace PackageLayers.Json

/-!
A number without a fraction and an exponent that fits a word of 64 bits is an
integer.  Every other number is a double, found in two steps: the digits are
collected in a word of 64 bits, then the double nearest to that word is
multiplied or divided by the double nearest to a power of ten.  Each step
rounds, so that the last bit may differ from that of the nearest double.
-/

/-- The parts of a number as written. -/
structure NumberParts where
  negative : Bool
  whole : List Char
  fraction : List Char
  exponent : Int
  isInteger : Bool

/-- The exponent part of a number: a sign and at least one digit. -/
def exponentPart? : List Char → Option Int
  | '+' :: digits => unsigned? digits
  | '-' :: digits => (unsigned? digits).map fun value => -value
  | digits => unsigned? digits
where
  unsigned? (digits : List Char) : Option Int :=
    if digits.isEmpty || !digits.all Char.isDigit then none
    else some (Int.ofNat (Text.decimal digits))

/-- What follows the whole digits of a number: a fraction, an exponent, or
both. -/
def fractionPart? (chars : List Char) : Option (List Char × Int) :=
  match chars with
  | [] => some ([], 0)
  | '.' :: rest =>
      let digits := rest.takeWhile Char.isDigit
      if digits.isEmpty then none
      else
        match rest.dropWhile Char.isDigit with
        | [] => some (digits, 0)
        | mark :: power =>
            if mark = 'e' ∨ mark = 'E' then
              (exponentPart? power).map fun exponent => (digits, exponent)
            else none
  | mark :: power =>
      if mark = 'e' ∨ mark = 'E' then
        (exponentPart? power).map fun exponent => ([], exponent)
      else none

/-- The parts of a number, if its spelling is one: an optional minus, whole
digits without a leading zero, then a fraction and an exponent. -/
def numberParts? (chars : List Char) : Option NumberParts :=
  let negative := chars.head? = some '-'
  let body := if negative then chars.drop 1 else chars
  let whole := body.takeWhile Char.isDigit
  let rest := body.dropWhile Char.isDigit
  if whole.isEmpty || (whole.head? = some '0' && 1 < whole.length) then none
  else
    (fractionPart? rest).map fun (fraction, exponent) =>
      { negative := negative
        whole := whole
        fraction := fraction
        exponent := exponent
        isInteger := rest.isEmpty }

/-- The digits of a number collected in a word, and the power of ten that the
word is multiplied by.  A collection is full when a digit did not fit. -/
structure Collected where
  word : Nat
  power : Int
  full : Bool

namespace Collected

/-- A digit before the point; one that no longer fits raises the power. -/
def whole (read : Collected) (digit : Char) : Collected :=
  let word := 10 * read.word + Text.decimal [digit]
  if !read.full && word < Text.wordCount 64 then { read with word := word }
  else { read with power := read.power + 1, full := true }

/-- A digit after the point; one that no longer fits, and all after it, are
left out. -/
def fraction (read : Collected) (digit : Char) : Collected :=
  let word := 10 * read.word + Text.decimal [digit]
  if read.full then read
  else if word < Text.wordCount 64 then
    { read with word := word, power := read.power - 1 }
  else { read with full := true }

end Collected

/-- The collected digits of a number. -/
def NumberParts.collected (parts : NumberParts) : Collected :=
  let before := parts.whole.foldl Collected.whole ⟨0, 0, false⟩
  parts.fraction.foldl Collected.fraction { before with full := false }

/-- A double multiplied by a power of ten; none if it becomes too great.  Below
`10^-308` the division is made in two steps, and nothing is left of a word
after the second. -/
def timesTenPower? (number : Double) (power : Int) : Option Double :=
  if number.significand = 0 then some number
  else if 308 < power then none
  else if 0 ≤ power then
    (Double.tenPower? power.toNat).bind number.mul?
  else if -308 ≤ power then
    (Double.tenPower? (-power).toNat).bind number.div?
  else if -616 ≤ power then do
    let first ← (Double.tenPower? 308).bind number.div?
    let divisor ← Double.tenPower? (-power - 308).toNat
    first.div? divisor
  else some (Double.zero number.negative)

/-- The double that a number stands for; none beyond the greatest. -/
def NumberParts.double? (parts : NumberParts) : Option Double := do
  let read := parts.collected
  let number ← Double.ofRatio? parts.negative read.word 1
  timesTenPower? number (read.power + parts.exponent)

/-- The value of a number; a number beyond the doubles is illegible. -/
def NumberParts.value (parts : NumberParts) : Json :=
  let size := Text.decimal parts.whole
  if parts.isInteger && parts.negative && 0 < size &&
      size ≤ Text.wordCount 63 then
    .int (-Int.ofNat size)
  else if parts.isInteger && !parts.negative && size < Text.wordCount 64 then
    .int (Int.ofNat size)
  else
    match parts.double? with
    | some number => .real number
    | none => .illegible

/-- The value that a number's spelling stands for. -/
def numberValue? (chars : List Char) : Option Json :=
  (numberParts? chars).map NumberParts.value

end PackageLayers.Json

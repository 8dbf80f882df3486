/-
Purpose: Decimal texts of numbers: the shortest of a double, and rounded ones.
Main exports: Double.shortest, Double.text, fixedDigits, scientificText, generalText
-/
import PackageLayers.Number.Double

namespace PackageLayers.Double

/-!
A double is written with the fewest decimal digits that read back as it.  On a
grid of decimals the two neighbours of the double are tried; the first grid with
a neighbour that reads back gives the digits, and of two neighbours the nearer
one.  Seventeen digits always suffice.
-/

/-- A decimal `digits * 10^power` as a ratio. -/
def decimalRatio (digits : Nat) (power : Int) : Nat × Nat :=
  if 0 ≤ power then (digits * Nat.pow 10 power.toNat, 1)
  else (digits, Nat.pow 10 (-power).toNat)

/-- Whether a decimal reads back as the size of a double. -/
def readsBack (number : Double) (digits : Nat) (power : Int) : Bool :=
  let (above, below) := decimalRatio digits power
  ofRatio? number.negative above below == some number

/-- The place of the first digit of a positive ratio: the ratio is below ten to
this power, and not below a tenth of that. -/
def firstPlace (numerator denominator : Nat) : Int :=
  if denominator ≤ numerator then
    Int.ofNat (toString (numerator / denominator)).length
  else
    match (List.range 330).find? fun shift =>
        denominator ≤ numerator * Nat.pow 10 shift with
    | some shift => 1 - Int.ofNat shift
    | none => 0

/-- The decimal with so many digits that reads back, if there is one. -/
def withDigits? (number : Double) (place : Int) (count : Nat) :
    Option (Nat × Int) :=
  let power := place - Int.ofNat count
  let (above, below) := number.ratio
  let (above, below) :=
    if 0 ≤ power then (above, below * Nat.pow 10 power.toNat)
    else (above * Nat.pow 10 (-power).toNat, below)
  let lower := above / below
  let upperIsNearer :=
    lower < nearestQuotient above below
  let (first, second) :=
    if upperIsNearer then (lower + 1, lower) else (lower, lower + 1)
  if number.readsBack first power then some (first, power)
  else if number.readsBack second power then some (second, power)
  else none

/-- The digits of the shortest decimal of a double that is not zero, as a whole
number, and the power of ten that they are multiplied by.  A neighbour that is a
power of ten has a zero too many. -/
def shortest (number : Double) : Nat × Int :=
  let (above, below) := number.ratio
  let place := firstPlace above below
  let (digits, power) := ((List.range 17).findSome? fun fewer =>
    number.withDigits? place (fewer + 1)).getD (0, 0)
  if digits % 10 = 0 then (digits / 10, power + 1) else (digits, power)

/-- Zeros in a row. -/
def zeros (count : Nat) : String :=
  String.ofList (List.replicate count '0')

/-- Digits with the point after so many of them, where the point stands within
sixteen places; else with a power of ten. -/
def pointed (digits : List Char) (point : Int) : String :=
  let length := Int.ofNat digits.length
  if length ≤ point ∧ point ≤ 16 then
    String.ofList digits ++ zeros (point - length).toNat ++ ".0"
  else if 0 < point ∧ point ≤ 16 then
    String.ofList (digits.take point.toNat) ++ "." ++
      String.ofList (digits.drop point.toNat)
  else if -5 < point ∧ point ≤ 0 then
    "0." ++ zeros (-point).toNat ++ String.ofList digits
  else
    let fraction := digits.drop 1
    String.ofList (digits.take 1) ++
      (if fraction.isEmpty then "" else "." ++ String.ofList fraction) ++
      "e" ++ toString (point - 1)

/-- The text of a double. -/
def text (number : Double) : String :=
  let size :=
    if number.significand = 0 then "0.0"
    else
      let (digits, power) := number.shortest
      let written := (toString digits).toList
      pointed written (Int.ofNat written.length + power)
  if number.negative then "-" ++ size else size

end PackageLayers.Double

namespace PackageLayers

/-!
A number is given as a ratio, and its digits are those of the nearest decimal
number with so many places; of two that are equally near the even one is taken.
-/

/-- The digits of a ratio with so many places after the point. -/
def fixedDigits (places numerator denominator : Nat) : List Char :=
  let scaled :=
    Double.nearestQuotient (numerator * Nat.pow 10 places) denominator
  let digits := Nat.toDigits 10 scaled
  let digits := List.replicate (places + 1 - digits.length) '0' ++ digits
  let whole := digits.take (digits.length - places)
  if places = 0 then whole
  else whole ++ '.' :: digits.drop (digits.length - places)

/-- A ratio times a power of ten. -/
def timesTenPower (numerator denominator : Nat) (power : Int) : Nat × Nat :=
  if 0 ≤ power then (numerator * Nat.pow 10 power.toNat, denominator)
  else (numerator, denominator * Nat.pow 10 (-power).toNat)

/-- The greatest power of ten that a ratio reaches. -/
def decimalExponent (numerator denominator : Nat) : Int :=
  let guess : Int :=
    Int.ofNat (Nat.toDigits 10 numerator).length -
      Int.ofNat (Nat.toDigits 10 denominator).length
  let (above, below) := timesTenPower numerator denominator (-guess)
  if below ≤ above then guess else guess - 1

/-- The digits of a ratio with so many places after the first one, and the power
of ten of that one. -/
def scientificDigits (places numerator denominator : Nat) : List Char × Int :=
  if numerator = 0 then (List.replicate (places + 1) '0', 0)
  else
    let exponent := decimalExponent numerator denominator
    let (above, below) :=
      timesTenPower numerator denominator (Int.ofNat places - exponent)
    let digits := Nat.toDigits 10 (Double.nearestQuotient above below)
    if digits.length ≤ places + 1 then (digits, exponent)
    else (digits.dropLast, exponent + 1)

/-- Digits with a point after the first one. -/
def withPoint (digits : List Char) : List Char :=
  match digits with
  | first :: second :: rest => first :: '.' :: second :: rest
  | _ => digits

/-- The exponent of a number with its mark and sign, of two digits at least. -/
def exponentText (upper : Bool) (exponent : Int) : List Char :=
  let digits := Nat.toDigits 10 exponent.natAbs
  (if upper then 'E' else 'e') :: (if exponent < 0 then '-' else '+') ::
    (List.replicate (2 - digits.length) '0' ++ digits)

/-- A ratio with one digit before the point and an exponent. -/
def scientificText (upper : Bool) (places numerator denominator : Nat) :
    List Char :=
  let (digits, exponent) := scientificDigits places numerator denominator
  withPoint digits ++ exponentText upper exponent

/-- A decimal number without zeros at its end. -/
def withoutZeros (text : List Char) : List Char :=
  if text.contains '.' then
    let short := (text.reverse.dropWhile (· = '0')).reverse
    if short.getLast? = some '.' then short.dropLast else short
  else text

/-- A ratio with so many digits, positional where its exponent allows it. -/
def generalText (upper : Bool) (precision numerator denominator : Nat) :
    List Char :=
  let precision := max 1 precision
  let (digits, exponent) :=
    scientificDigits (precision - 1) numerator denominator
  if exponent < -4 || Int.ofNat precision ≤ exponent then
    withoutZeros (withPoint digits) ++ exponentText upper exponent
  else
    let places := (Int.ofNat precision - 1 - exponent).toNat
    withoutZeros (fixedDigits places numerator denominator)

example : String.ofList (generalText false 6 1234567 1) = "1.23457e+06" := by
  decide +kernel
example : String.ofList (generalText false 6 1 10000) = "0.0001" := by
  decide +kernel
example : String.ofList (scientificText false 2 999999 1) = "1.00e+06" := by
  decide +kernel

end PackageLayers

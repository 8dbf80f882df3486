/-
Purpose: Finite binary floating-point numbers of 64 bits, exactly.
Main exports: Double, Double.ofRatio?, Double.mul?, Double.div?
-/
import PackageLayers.Text.Hex

namespace PackageLayers

/-!
A double is a whole number of 53 bits times a power of two.  Every operation is
the exact result rounded once: to the nearest double, and of two equally near
to the one whose significand is even.  A result beyond the greatest double is
none.  All of it is arithmetic on whole numbers.
-/

/-- The number `significand * 2^exponent`, or its negative.  The exponent is at
least -1074, and the significand has 53 bits unless the exponent is -1074. -/
structure Double where
  negative : Bool
  significand : Nat
  exponent : Int
deriving Repr, DecidableEq, Inhabited

namespace Double

/-- The exponent of the numbers nearest zero. -/
def leastExponent : Int := -1074

/-- The exponent of the greatest numbers. -/
def greatestExponent : Int := 971

/-- Zero, with a sign. -/
def zero (negative : Bool) : Double :=
  ⟨negative, 0, leastExponent⟩

/-- The whole number nearest to a quotient, the even one of two. -/
def nearestQuotient (numerator denominator : Nat) : Nat :=
  let quotient := numerator / denominator
  let double := 2 * (numerator % denominator)
  if double < denominator then quotient
  else if denominator < double then quotient + 1
  else quotient + quotient % 2

/-- A ratio divided by a power of two. -/
def scaleDown (numerator denominator : Nat) (exponent : Int) : Nat × Nat :=
  if 0 ≤ exponent then (numerator, denominator * Nat.pow 2 exponent.toNat)
  else (numerator * Nat.pow 2 (-exponent).toNat, denominator)

/-- The exponent under which a positive ratio has a significand of 53 bits
before it is rounded, or the least exponent. -/
def exponentOf (numerator denominator : Nat) : Int :=
  let guess := Int.ofNat numerator.log2 - Int.ofNat denominator.log2 - 53
  let (above, below) := scaleDown numerator denominator guess
  let fitting := if above / below < Text.wordCount 53 then guess else guess + 1
  if leastExponent ≤ fitting then fitting else leastExponent

/-- The double nearest to a ratio with the given sign; none beyond the greatest
double. -/
def ofRatio? (negative : Bool) (numerator denominator : Nat) : Option Double :=
  if numerator = 0 then some (zero negative)
  else
    let exponent := exponentOf numerator denominator
    let (above, below) := scaleDown numerator denominator exponent
    let significand := nearestQuotient above below
    let rounded : Double :=
      if significand = Text.wordCount 53 then
        ⟨negative, Text.wordCount 52, exponent + 1⟩
      else ⟨negative, significand, exponent⟩
    if rounded.exponent ≤ greatestExponent then some rounded else none

/-- The size of a double as a ratio. -/
def ratio (number : Double) : Nat × Nat :=
  if 0 ≤ number.exponent then
    (number.significand * Nat.pow 2 number.exponent.toNat, 1)
  else (number.significand, Nat.pow 2 (-number.exponent).toNat)

/-- The product of two doubles. -/
def mul? (left right : Double) : Option Double :=
  let (above, below) := left.ratio
  let (above', below') := right.ratio
  ofRatio? (left.negative != right.negative) (above * above') (below * below')

/-- The quotient of two doubles; none for a divisor of zero. -/
def div? (left right : Double) : Option Double :=
  let (above, below) := left.ratio
  let (above', below') := right.ratio
  if above' = 0 then none
  else
    ofRatio? (left.negative != right.negative) (above * below') (below * above')

/-- The double nearest to a power of ten, which must be at most 308. -/
def tenPower? (power : Nat) : Option Double :=
  ofRatio? false (Nat.pow 10 power) 1

example : ofRatio? false 1 1 = some ⟨false, 4503599627370496, -52⟩ := by decide
example : ofRatio? false 9007199254740993 1 =
    some ⟨false, 4503599627370496, 1⟩ := by decide
example : ofRatio? true 0 5 = some (zero true) := by decide

end Double

end PackageLayers

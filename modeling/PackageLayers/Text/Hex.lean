/-
Purpose: Numbers and bytes written in digits, and the numbers that machine words
hold.
Main exports: numeral, decimal, wordCount, hexDigit, hexDigit?, hexOf, bytesOfHex?
-/

namespace PackageLayers.Text

/-! ### Numbers -/

/-- The number that digits write in a base of at most ten, the first digit
counting most. -/
def numeral (base : Nat) (digits : List Char) : Nat :=
  digits.foldl (fun value c => base * value + (c.toNat - '0'.toNat)) 0

/-- The number that decimal digits write. -/
def decimal (digits : List Char) : Nat :=
  numeral 10 digits

/-- How many numbers a word of so many bits tells apart. -/
def wordCount (bits : Nat) : Nat :=
  Nat.pow 2 bits

example : decimal ['0', '4', '2'] = 42 := by decide
example : numeral 8 ['1', '7'] = 15 := by decide

/-! ### Hexadecimal digits -/

/-- The small hexadecimal digit of a number below sixteen. -/
def hexDigit (value : Nat) : Char :=
  if value < 10 then Char.ofNat ('0'.toNat + value)
  else Char.ofNat ('a'.toNat + (value - 10))

/-- The value of a hexadecimal digit of either case. -/
def hexDigit? (c : Char) : Option Nat :=
  if '0' ≤ c ∧ c ≤ '9' then some (c.toNat - '0'.toNat)
  else if 'a' ≤ c ∧ c ≤ 'f' then some (c.toNat - 'a'.toNat + 10)
  else if 'A' ≤ c ∧ c ≤ 'F' then some (c.toNat - 'A'.toNat + 10)
  else none

/-- A written digit is read back. -/
theorem hexDigit?_hexDigit :
    ∀ value, value < 16 → hexDigit? (hexDigit value) = some value := by
  decide

/-- Bytes in hexadecimal, two digits each. -/
def hexOf (bytes : List UInt8) : String :=
  String.ofList (bytes.flatMap fun byte =>
    [hexDigit (byte.toNat / 16), hexDigit (byte.toNat % 16)])

/-- The bytes that pairs of hexadecimal digits write. -/
def bytesOfHex? : List Char → Option (List UInt8)
  | [] => some []
  | [_] => none
  | high :: low :: rest => do
      let first ← hexDigit? high
      let second ← hexDigit? low
      let later ← bytesOfHex? rest
      pure (UInt8.ofNat (16 * first + second) :: later)

end PackageLayers.Text

/-
Purpose: Texts as octets.
Main exports: octets, ofOctets?, ofOctetsLossy
-/

namespace PackageLayers.Text

/-!
The octets of a text are those of its UTF-8 form, each written as the character
of that number, so that a list of octets is handled like any list of characters.

Reading goes octet by octet.  Between two characters any octet may follow that
starts one; inside of a character the next octet must lie in a range, which is
narrower after some first octets, so that nothing is written in more than one
way.  Where an octet does not fit, what was read of the character is ill-formed,
and reading goes on with that octet.
-/

/-- The octet of a number. -/
def octet (number : Nat) : Char :=
  Char.ofNat (number % 256)

/-- The octets of a character. -/
def octetsOf (c : Char) : List Char :=
  let code := c.toNat
  let later (shift : Nat) := octet (0x80 + code / shift % 64)
  if code < 0x80 then [c]
  else if code < 0x800 then [octet (0xC0 + code / 64), later 1]
  else if code < 0x10000 then [octet (0xE0 + code / 4096), later 64, later 1]
  else [octet (0xF0 + code / 262144), later 4096, later 64, later 1]

/-- The octets of a text. -/
def octets (text : String) : List Char :=
  text.toList.flatMap octetsOf

/-- A character of which some octets are read: how many are missing, the range of
the next one, and the bits read so far. -/
structure PartialChar where
  missing : Nat
  least : Nat
  greatest : Nat
  bits : Nat
deriving Repr, Inhabited, DecidableEq

/-- What an octet between two characters is. -/
inductive FirstOctet where
  | complete (c : Char)
  | opening (begun : PartialChar)
  | stray
deriving Repr, Inhabited, DecidableEq

/-- What an octet between two characters is. -/
def firstOctet (o : Char) : FirstOctet :=
  let number := o.toNat
  if number < 0x80 then .complete o
  else if number < 0xC2 then .stray
  else if number < 0xE0 then .opening ⟨1, 0x80, 0xBF, number - 0xC0⟩
  else if number = 0xE0 then .opening ⟨2, 0xA0, 0xBF, 0⟩
  else if number = 0xED then .opening ⟨2, 0x80, 0x9F, 13⟩
  else if number < 0xF0 then .opening ⟨2, 0x80, 0xBF, number - 0xE0⟩
  else if number = 0xF0 then .opening ⟨3, 0x90, 0xBF, 0⟩
  else if number < 0xF4 then .opening ⟨3, 0x80, 0xBF, number - 0xF0⟩
  else if number = 0xF4 then .opening ⟨3, 0x80, 0x8F, 4⟩
  else .stray

/-- Octets as far as they are read: the characters, last first, with none for
what is ill-formed, and the character that is begun. -/
structure Decoding where
  done : List (Option Char) := []
  begun : Option PartialChar := none

namespace Decoding

/-- The decoding with one more character or ill-formed part. -/
def push (decoding : Decoding) (found : Option Char) : Decoding :=
  { done := found :: decoding.done, begun := none }

/-- An octet between two characters. -/
def start (decoding : Decoding) (o : Char) : Decoding :=
  match firstOctet o with
  | .complete c => decoding.push (some c)
  | .opening begun => { decoding with begun := some begun }
  | .stray => decoding.push none

/-- The next octet. -/
def step (decoding : Decoding) (o : Char) : Decoding :=
  match decoding.begun with
  | none => decoding.start o
  | some begun =>
      if begun.least ≤ o.toNat && o.toNat ≤ begun.greatest then
        let bits := 64 * begun.bits + (o.toNat - 0x80)
        if begun.missing ≤ 1 then decoding.push (some (Char.ofNat bits))
        else
          { decoding with begun := some ⟨begun.missing - 1, 0x80, 0xBF, bits⟩ }
      else (decoding.push none).start o

/-- All that was read, in order. -/
def finish (decoding : Decoding) : List (Option Char) :=
  (if decoding.begun.isSome then none :: decoding.done
    else decoding.done).reverse

end Decoding

/-- The characters that octets are, with none for each ill-formed part. -/
def decodeOctets (chars : List Char) : List (Option Char) :=
  (chars.foldl Decoding.step {}).finish

/-- The text that octets are, if they are one. -/
def ofOctets? (chars : List Char) : Option String :=
  ((decodeOctets chars).mapM id).map String.ofList

/-- The text that octets are, with the replacement character for each ill-formed
part. -/
def ofOctetsLossy (chars : List Char) : String :=
  String.ofList ((decodeOctets chars).map fun c => c.getD '\uFFFD')

example : octets "é😀" =
    [0xC3, 0xA9, 0xF0, 0x9F, 0x98, 0x80].map Char.ofNat := by decide
example : ofOctets? (octets "aé\uFFFF😀") = some "aé\uFFFF😀" := by decide +kernel
example : ofOctetsLossy ([0xF0, 0x9F, 0x98, 0x20, 0xFF, 0xFE].map Char.ofNat) =
    "\uFFFD \uFFFD\uFFFD" := by decide +kernel

end PackageLayers.Text

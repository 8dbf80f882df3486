/-
Purpose: Letter case, prefixes, suffixes, cuts and white space of texts.
Main exports: fold, sameFolded, stripPrefix?, stripSuffix?, splitAt, containsText,
  isBlank, trim
-/

namespace PackageLayers.Text

/-!
Identities are compared without regard to ASCII letter case: only the letters
`A` to `Z` have a folded form, every other character stands for itself.

All functions of this module are stated on lists of characters first, where
their laws are laws of lists, and on texts second.
-/

/-- The list without its longest suffix of characters that satisfy `p`. -/
def dropTrailing (p : Char → Bool) (chars : List Char) : List Char :=
  (chars.reverse.dropWhile p).reverse

/-- A text with the letters `A` to `Z` made small. -/
def fold (text : String) : String :=
  String.ofList (text.toList.map Char.toLower)

/-- Whether two texts differ at most in the case of ASCII letters. -/
def sameFolded (left right : String) : Bool :=
  fold left == fold right

theorem sameFolded_iff {left right : String} :
    sameFolded left right ↔ fold left = fold right := by
  rw [sameFolded, beq_iff_eq]

theorem sameFolded_refl (text : String) : sameFolded text text :=
  sameFolded_iff.mpr rfl

theorem sameFolded_comm (left right : String) :
    sameFolded left right = sameFolded right left := by
  rw [sameFolded, sameFolded, Bool.beq_comm]

/-- What follows `lead` in a list that starts with it. -/
def afterPrefix? : (lead chars : List Char) → Option (List Char)
  | [], chars => some chars
  | _ :: _, [] => none
  | l :: lead, c :: chars => if l = c then afterPrefix? lead chars else none

/-- What follows `lead` in a text that starts with it. -/
def stripPrefix? (lead text : String) : Option String :=
  (afterPrefix? lead.toList text.toList).map String.ofList

/-- What stands before `tail` in a text that ends with it. -/
def stripSuffix? (tail text : String) : Option String :=
  (afterPrefix? tail.toList.reverse text.toList.reverse).map fun rest =>
    String.ofList rest.reverse

/-- Whether a text starts with `lead`. -/
def startsWith (lead text : String) : Bool :=
  (stripPrefix? lead text).isSome

/-- The pieces between the characters that satisfy `p`; one piece more than
there are such characters. -/
def splitAt {α : Type} (p : α → Bool) : List α → List (List α)
  | [] => [[]]
  | c :: rest =>
      if p c then [] :: splitAt p rest
      else
        match splitAt p rest with
        | [] => [[c]]
        | piece :: pieces => (c :: piece) :: pieces

/-- The pieces of a text between the characters that satisfy `p`. -/
def pieces (p : Char → Bool) (text : String) : List String :=
  (splitAt p text.toList).map String.ofList

/-- Whether `needle` occurs in a list of characters. -/
def occursIn (needle : List Char) : List Char → Bool
  | [] => needle.isEmpty
  | c :: rest =>
      (afterPrefix? needle (c :: rest)).isSome || occursIn needle rest

/-- Whether `needle` occurs in a text. -/
def containsText (needle text : String) : Bool :=
  occursIn needle.toList text.toList

/-- A text with every `old` character replaced by `new`. -/
def replaceChar (old new : Char) (text : String) : String :=
  String.ofList (text.toList.map fun c => if c = old then new else c)

/-! ### White space -/

/-!
Names and locations are compared after their surrounding white space is cut off.
White space here is the Unicode property `White_Space`, twenty-five characters
in ten ranges, and not the six ASCII characters that separate tokens in source
text (`PackageLayers.Source.isSpace`).
-/

/-- First and last code point of every range of the property `White_Space`. -/
def blankRanges : List (Nat × Nat) :=
  [(0x09, 0x0D), (0x20, 0x20), (0x85, 0x85), (0xA0, 0xA0), (0x1680, 0x1680),
    (0x2000, 0x200A), (0x2028, 0x2029), (0x202F, 0x202F), (0x205F, 0x205F),
    (0x3000, 0x3000)]

/-- Whether a character has the property `White_Space`. -/
def isBlank (c : Char) : Bool :=
  blankRanges.any fun range => range.1 ≤ c.toNat && c.toNat ≤ range.2

/-- The text without its leading white space. -/
def trimStart (text : String) : String :=
  String.ofList (text.toList.dropWhile isBlank)

/-- The text without its trailing white space. -/
def trimEnd (text : String) : String :=
  String.ofList (dropTrailing isBlank text.toList)

/-- The text without white space at either end. -/
def trim (text : String) : String :=
  String.ofList (dropTrailing isBlank (text.toList.dropWhile isBlank))

/-- The property has twenty-five members. -/
example : (blankRanges.map fun range => range.2 + 1 - range.1).sum = 25 := by
  decide

end PackageLayers.Text

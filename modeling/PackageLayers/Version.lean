/-
Purpose: The spelling of semantic versions.
Main exports: Version.isVersion
-/
import PackageLayers.Text.Fold
import PackageLayers.Text.Hex

namespace PackageLayers.Version

/-!
A semantic version is three numbers with dots between them, then possibly a
minus and a pre-release, then possibly a plus and build data.  Pre-release and
build data are identifiers with dots between them.  A number has no leading zero
and fits into 64 bits; a numeric identifier of a pre-release has no leading
zero.
-/

/-- Whether a character may stand in an identifier. -/
def isIdentifierChar (c : Char) : Bool :=
  c.isAlphanum || c = '-'

/-- Whether digits have a zero in front of others. -/
def hasLeadingZero (digits : List Char) : Bool :=
  digits.head? == some '0' && 1 < digits.length

/-- Whether a text is one of the three numbers of a version. -/
def isNumber (digits : List Char) : Bool :=
  !digits.isEmpty && digits.all Char.isDigit && !hasLeadingZero digits &&
    Text.decimal digits < Text.wordCount 64

/-- Whether a text is an identifier of build data. -/
def isBuildIdentifier (chars : List Char) : Bool :=
  !chars.isEmpty && chars.all isIdentifierChar

/-- Whether a text is an identifier of a pre-release. -/
def isPreIdentifier (chars : List Char) : Bool :=
  isBuildIdentifier chars &&
    !(chars.all Char.isDigit && hasLeadingZero chars)

/-- Whether a text is identifiers with dots between them. -/
def areIdentifiers (valid : List Char → Bool) (chars : List Char) : Bool :=
  (Text.splitAt (· == '.') chars).all valid

/-- A text cut before and after the first character `mark`. -/
def cutAt (mark : Char) (chars : List Char) : List Char × Option (List Char) :=
  match chars.dropWhile (· != mark) with
  | [] => (chars, none)
  | _ :: after => (chars.takeWhile (· != mark), some after)

/-- Whether a text is a semantic version. -/
def isVersion (text : String) : Bool :=
  let (front, build) := cutAt '+' text.toList
  let (core, pre) := cutAt '-' front
  let numbers := Text.splitAt (· == '.') core
  numbers.length == 3 && numbers.all isNumber &&
    pre.all (areIdentifiers isPreIdentifier) &&
    build.all (areIdentifiers isBuildIdentifier)

example : isVersion "1.0.0-rc.1+build.007" = true := by decide
example : isVersion "1.0.0-01" = false := by decide
example : isVersion "01.0.0" = false := by decide

end PackageLayers.Version

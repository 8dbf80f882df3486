/-
Purpose: Moments in documents.
Main exports: Timestamp, Timestamp.ofText?, Timestamp.ofMilliseconds
-/
import PackageLayers.Calendar
import PackageLayers.Text.Fold
import PackageLayers.Text.Hex

namespace PackageLayers

/-!
A moment is written as a date, a time of day and an offset from universal time,
such as `2024-02-29T12:00:00.5Z`.  Reading is lenient about layout: numbers may
lack leading zeros, white space may stand before numbers, signs and the offset,
a `t` or a space may stand for the `T`, and the offset may be written without a
colon or as `UTC`.  It is strict about values: the date must exist, and so must
the date in universal time.
-/

/-- A moment as it is written. -/
structure Timestamp where
  text : String
deriving Repr, Inhabited, DecidableEq

namespace Timestamp

/-- The characters after white space. -/
def skipBlank (chars : List Char) : List Char :=
  chars.dropWhile Text.isBlank

/-- A number of at most `most` digits and the characters after it. -/
def number? (most : Nat) (chars : List Char) : Option (Nat × List Char) :=
  let digits := (chars.take most).takeWhile Char.isDigit
  if digits.isEmpty then none
  else some (Text.decimal digits, chars.drop digits.length)

/-- A number of at most two digits after white space. -/
def field? (chars : List Char) : Option (Nat × List Char) :=
  number? 2 (skipBlank chars)

/-- A year: up to four digits, or any number of them after a sign. -/
def year? (chars : List Char) : Option (Int × List Char) :=
  match skipBlank chars with
  | '-' :: rest =>
      (number? rest.length rest).map fun (year, after) =>
        (-Int.ofNat year, after)
  | '+' :: rest =>
      (number? rest.length rest).map fun (year, after) =>
        (Int.ofNat year, after)
  | rest => (number? 4 rest).map fun (year, after) => (Int.ofNat year, after)

/-- The characters after a mark, which white space may precede. -/
def mark? (mark : Char) (chars : List Char) : Option (List Char) :=
  match skipBlank chars with
  | c :: rest => if c = mark then some rest else none
  | [] => none

/-- The characters after the letter between date and time. -/
def between? : List Char → Option (List Char)
  | c :: rest => if c = 'T' ∨ c = 't' ∨ c = ' ' then some rest else none
  | [] => none

/-- The characters after a fraction of a second, if there is one. -/
def fraction? : List Char → Option (List Char)
  | '.' :: rest =>
      (number? rest.length rest).map fun (_, after) => after
  | chars => some chars

/-- An offset of hours and minutes below one day, in seconds. -/
def clockOffset? (chars : List Char) : Option (Int × List Char) :=
  match chars with
  | h :: i :: rest =>
      let separated := rest.dropWhile fun c => c = ':' || Text.isBlank c
      match separated with
      | m :: n :: after =>
          if [h, i, m, n].all Char.isDigit && m ≤ '5' &&
              (h < '2' || (h = '2' && i ≤ '3')) then
            some
              (Int.ofNat (3600 * Text.decimal [h, i] + 60 * Text.decimal [m, n]),
                after)
          else none
      | _ => none
  | _ => none

/-- The offset from universal time in seconds, and the characters after it. -/
def offset? (chars : List Char) : Option (Int × List Char) :=
  match Text.afterPrefix? "utc".toList ((chars.take 3).map Char.toLower) with
  | some _ => some (0, chars.drop 3)
  | none =>
      match chars with
      | c :: rest =>
          if c = 'Z' ∨ c = 'z' then some (0, rest)
          else if c = '+' then clockOffset? rest
          else if c = '-' ∨ c = '−' then
            (clockOffset? rest).map fun (offset, after) => (-offset, after)
          else none
      | [] => none

/-- A date. -/
structure Day where
  year : Int
  month : Nat
  day : Nat
deriving Repr, Inhabited, DecidableEq

/-- The first date. -/
def firstDay : Day := ⟨-262143, 1, 1⟩

/-- The last date. -/
def lastDay : Day := ⟨262142, 12, 31⟩

/-- Whether a date exists. -/
def Day.occurs (date : Day) : Bool :=
  firstDay.year ≤ date.year && date.year ≤ lastDay.year &&
    Calendar.isDate date.year date.month date.day

/-- Whether a time of day exists; a leap second does. -/
def isTime (hour minute second : Nat) : Bool :=
  hour < 24 && minute < 60 && second ≤ 60

/-- The date at the start of a list of characters, if there is such a date. -/
def date? (chars : List Char) : Option (Day × List Char) := do
  let (year, chars) ← year? chars
  let chars ← mark? '-' chars
  let (month, chars) ← field? chars
  let chars ← mark? '-' chars
  let (day, chars) ← field? chars
  let date : Day := ⟨year, month, day⟩
  if date.occurs then pure (date, chars) else none

/-- The time at the start of a list of characters, if there is such a time, as
the seconds of the day.  A leap second is part of the second before it. -/
def time? (chars : List Char) : Option (Int × List Char) := do
  let (hour, chars) ← field? chars
  let chars ← mark? ':' chars
  let (minute, chars) ← field? chars
  let chars ← mark? ':' chars
  let (second, chars) ← field? chars
  if isTime hour minute second then
    (fraction? chars).map fun chars =>
      (Int.ofNat (3600 * hour + 60 * minute + min second 59), chars)
  else none

/-- Whether the date in universal time exists, where some seconds of a day have
passed there since the start of the given date. -/
def isWithinDays (date : Day) (seconds : Int) : Bool :=
  (0 ≤ seconds || date != firstDay) && (seconds < 86400 || date != lastDay)

/-- The moment that a text writes. -/
def ofText? (text : String) : Option Timestamp := do
  let (date, chars) ← date? text.toList
  let chars ← between? chars
  let (seconds, chars) ← time? chars
  let (offset, chars) ← offset? (skipBlank chars)
  if (skipBlank chars).isEmpty && isWithinDays date (seconds - offset) then
    pure ⟨text⟩
  else none

/-- Decimal digits of a number, with zeros in front up to a width. -/
def padded (width value : Nat) : String :=
  let digits := toString value
  String.ofList (List.replicate (width - digits.length) '0') ++ digits

/-- A year as it is written: with four digits, or with a sign and all it has. -/
def yearText (year : Nat) : String :=
  if year < 10000 then padded 4 year else "+" ++ toString year

/-- The date that is a number of days after 1970-01-01: year, month and day.
Years are counted from the first of March of the year zero, so that leap days
come last. -/
def dateOfDays (days : Nat) : Nat × Nat × Nat :=
  let shifted := days + 719468
  let era := shifted / 146097
  let dayOfEra := shifted % 146097
  let yearOfEra :=
    (dayOfEra - dayOfEra / 1460 + dayOfEra / 36524 - dayOfEra / 146096) / 365
  let dayOfYear :=
    dayOfEra - (365 * yearOfEra + yearOfEra / 4 - yearOfEra / 100)
  let monthFromMarch := (5 * dayOfYear + 2) / 153
  let day := dayOfYear - (153 * monthFromMarch + 2) / 5 + 1
  let month := if monthFromMarch < 10 then monthFromMarch + 3
    else monthFromMarch - 9
  let year := 400 * era + yearOfEra + if month ≤ 2 then 1 else 0
  (year, month, day)

/-- The moment that is a number of milliseconds after the start of 1970. -/
def ofMilliseconds (milliseconds : Nat) : Timestamp :=
  let seconds := milliseconds / 1000
  let (year, month, day) := dateOfDays (seconds / 86400)
  let ofDay := seconds % 86400
  ⟨yearText year ++ "-" ++ padded 2 month ++ "-" ++ padded 2 day ++ "T" ++
    padded 2 (ofDay / 3600) ++ ":" ++ padded 2 (ofDay / 60 % 60) ++ ":" ++
    padded 2 (ofDay % 60) ++ "." ++ padded 3 (milliseconds % 1000) ++ "Z"⟩

example : dateOfDays 11016 = (2000, 2, 29) := by decide

end Timestamp

end PackageLayers

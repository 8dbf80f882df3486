/-
Purpose: A moment that is written is read back.
Main exports: Timestamp.occurs_dateOfDays, Timestamp.ofText_ofMilliseconds
-/
import Mathlib.Data.Nat.Digits.Defs
import Mathlib.Tactic.IntervalCases
import PackageLayers.Proofs.Json.Tokens
import PackageLayers.Project.Timestamp

namespace PackageLayers.Timestamp

/-!
The date of a moment exists: in an era of four hundred years that start in March,
the year of a day is the one whose first day is the last not after it, and it has
a day more than others exactly if the February at its end is that of a leap year.
Written with leading zeros, every number of a moment is read back, and so is a
year with a sign.
-/

/-! ### Years of an era -/

/-- The first day of a year in its era. -/
def yearStart (year : Nat) : Nat :=
  365 * year + year / 4 - year / 100

/-- The day after the last one of a year.  The last year of an era is longer than
the days before the next year would say. -/
def yearEnd (year : Nat) : Nat :=
  if year = 399 then 146097 else yearStart (year + 1)

/-- How many days of an era count for finding a year: leap days do not. -/
def plainDays (day : Nat) : Nat :=
  day - day / 1460 + day / 36524 - day / 146096

theorem plainDays_succ {day : Nat} (inside : day < 146096) :
    plainDays day ≤ plainDays (day + 1) := by
  rw [plainDays, plainDays]
  omega

theorem plainDays_mono {first second : Nat} (order : first ≤ second)
    (inside : second < 146097) : plainDays first ≤ plainDays second := by
  induction second, order using Nat.le_induction with
  | base => exact Nat.le_refl _
  | succ second order inductionHypothesis =>
      exact (inductionHypothesis (by omega)).trans (plainDays_succ (by omega))

/-- What is to be known of the years of an era, which repeat. -/
theorem years_of_era : ∀ year ≤ 399,
    365 * year ≤ plainDays (yearStart year) ∧
      plainDays (yearEnd year - 1) < 365 * (year + 1) ∧
      0 < yearEnd year ∧ yearEnd year ≤ 146097 ∧ yearStart year < 146097 ∧
      yearEnd year ≤ yearStart year + 366 ∧
      (yearEnd year ≤ yearStart year + 365 ∨
        Calendar.isLeap (year + 1 : Nat) = true) := by
  decide +kernel

/-- The year that a day of an era is in. -/
theorem year_of_day {day : Nat} (inside : day < 146097) :
    plainDays day / 365 ≤ 399 ∧ yearStart (plainDays day / 365) ≤ day ∧
      day < yearEnd (plainDays day / 365) := by
  have most : plainDays day ≤ 145999 :=
    plainDays_mono (Nat.le_of_lt_succ inside) (by decide : 146096 < 146097)
  have low : 365 * (plainDays day / 365) ≤ plainDays day := Nat.mul_div_le _ _
  have high : plainDays day < 365 * (plainDays day / 365 + 1) :=
    Nat.lt_mul_div_succ _ (by decide)
  generalize plainDays day / 365 = year at low high ⊢
  have few : year ≤ 399 := by omega
  refine ⟨few, ?_, ?_⟩
  · by_contra before
    cases year with
    | zero => exact before (Nat.zero_le day)
    | succ year =>
        have last : yearEnd year = yearStart (year + 1) := if_neg (by omega)
        obtain ⟨-, short, some, -⟩ := years_of_era year (by omega)
        have order : plainDays day ≤ plainDays (yearEnd year - 1) :=
          plainDays_mono (by omega) (by
            have := years_of_era year (by omega)
            omega)
        omega
  · by_contra after
    by_cases final : year = 399
    · rw [yearEnd, if_pos final] at after
      exact after inside
    · rw [yearEnd, if_neg final] at after
      obtain ⟨long, -⟩ := years_of_era (year + 1) (by omega)
      have order : plainDays (yearStart (year + 1)) ≤ plainDays day :=
        plainDays_mono (by omega) inside
      omega

/-- The year after a number of eras is a leap year if it is one in the era. -/
theorem isLeap_of_era {era year : Nat} (leap : Calendar.isLeap (year : Nat)) :
    Calendar.isLeap (400 * era + year : Nat) := by
  simp only [Calendar.isLeap, Bool.and_eq_true, Bool.or_eq_true,
    decide_eq_true_eq] at leap ⊢
  omega

/-- Months counted from March have the lengths that the days of a year give them:
the last one is February, which ends the year. -/
theorem isDate_of_dayOfYear {year : Int} {day march : Nat} (most : day ≤ 365)
    (leap : day = 365 → Calendar.isLeap year)
    (low : 153 * march ≤ 5 * day + 2) (high : 5 * day + 2 < 153 * (march + 1)) :
    Calendar.isDate year (if march < 10 then march + 3 else march - 9)
      (day - (153 * march + 2) / 5 + 1) := by
  have few : march < 12 := by omega
  have february : march = 11 →
      day - 336 ≤ if Calendar.isLeap year then 29 else 28 := by
    intro _
    split
    · omega
    · rename_i plain
      have other : day ≠ 365 := fun last => plain (leap last)
      omega
  interval_cases march <;>
    simp only [Calendar.isDate, Bool.and_eq_true, decide_eq_true_iff] <;>
    refine ⟨⟨⟨by decide, by decide⟩, by omega⟩, ?_⟩
  case «11» =>
    have short := february rfl
    change _ ≤ if Calendar.isLeap year then 29 else 28
    omega
  all_goals first
    | change _ ≤ 31
      omega
    | change _ ≤ 30
      omega

/-- The date of a day of an era, by the day of its year. -/
def dateInEra (era year day : Nat) : Nat × Nat × Nat :=
  let march := (5 * day + 2) / 153
  let month := if march < 10 then march + 3 else march - 9
  (400 * era + year + if month ≤ 2 then 1 else 0, month,
    day - (153 * march + 2) / 5 + 1)

theorem dateOfDays_eq (days : Nat) :
    dateOfDays days =
      dateInEra ((days + 719468) / 146097)
        (plainDays ((days + 719468) % 146097) / 365)
        ((days + 719468) % 146097 -
          yearStart (plainDays ((days + 719468) % 146097) / 365)) := rfl

theorem isDate_dateInEra {era year day : Nat} (most : day ≤ 365)
    (leap : day = 365 → Calendar.isLeap (year + 1 : Nat)) :
    Calendar.isDate (Int.ofNat (dateInEra era year day).1)
      (dateInEra era year day).2.1 (dateInEra era year day).2.2 := by
  refine isDate_of_dayOfYear most (fun last => ?_) (Nat.mul_div_le _ _)
    (Nat.lt_mul_div_succ _ (by decide))
  subst last
  exact isLeap_of_era (leap rfl)

/-- The date that is a number of days after 1970-01-01 exists. -/
theorem isDate_dateOfDays (days : Nat) :
    Calendar.isDate (Int.ofNat (dateOfDays days).1) (dateOfDays days).2.1
      (dateOfDays days).2.2 := by
  obtain ⟨few, start, finish⟩ := year_of_day
    (Nat.mod_lt (days + 719468) (by decide : 0 < 146097))
  obtain ⟨-, -, -, -, -, most, long⟩ := years_of_era _ few
  rw [dateOfDays_eq]
  exact isDate_dateInEra (by omega) fun last => long.resolve_left (by omega)

/-- The days before the first of January 262143 are in the years before it. -/
theorem year_dateOfDays {days : Nat} (early : days < 95026237) :
    (dateOfDays days).1 < 262143 := by
  obtain ⟨few, start, -⟩ := year_of_day
    (Nat.mod_lt (days + 719468) (by decide : 0 < 146097))
  rw [dateOfDays_eq]
  generalize plainDays ((days + 719468) % 146097) / 365 = year at few start ⊢
  have total := Nat.div_add_mod (days + 719468) 146097
  generalize (days + 719468) / 146097 = era at total ⊢
  generalize (days + 719468) % 146097 = day at total start ⊢
  -- The first of January 262143 is the day 52170 of the era 655.
  have eras : era < 655 ∨ era = 655 ∧ day < 52170 := by omega
  simp only [dateInEra]
  rw [yearStart] at start ⊢
  rcases eras with before | ⟨rfl, inEra⟩
  · split <;> split <;> omega
  · have years : year < 142 ∨ year = 142 := by omega
    rcases years with earlier | rfl <;> split <;> split <;> omega

/-! ### Numbers with leading zeros -/

/-- What a number with leading zeros is: digits of a width that write it. -/
structure Writes (width value : Nat) (digits : List Char) : Prop where
  length : digits.length = width
  digit : ∀ c ∈ digits, c.isDigit
  value : Text.decimal digits = value

theorem decimal_zeros (count : Nat) (digits : List Char) :
    Text.decimal (List.replicate count '0' ++ digits) = Text.decimal digits := by
  induction count with
  | zero => rfl
  | succ count inductionHypothesis =>
      rw [← inductionHypothesis]
      rfl

theorem writes_padded {width value : Nat} (some : width ≠ 0)
    (small : value < 10 ^ width) : Writes width value (padded width value).toList := by
  have text : (padded width value).toList =
      List.replicate (width - (Nat.toDigits 10 value).length) '0' ++
        Nat.toDigits 10 value := by
    simp [padded, Nat.repr]
  have short : (Nat.toDigits 10 value).length ≤ width :=
    Nat.toDigits_length 10 value width (Nat.pos_of_ne_zero some) small
  rw [text]
  exact
    { length := by
        rw [List.length_append, List.length_replicate]
        omega
      digit := fun c member => by
        rcases List.mem_append.mp member with zero | digit
        · rw [List.eq_of_mem_replicate zero]
          rfl
        · exact Json.isDigit_toDigits c digit
      value := by rw [decimal_zeros, Json.decimal_toDigits] }

theorem not_blank_of_digit {c : Char} (digit : c.isDigit) :
    Text.isBlank c = false := by
  have low : 48 ≤ c.toNat := by
    simp only [Char.isDigit, Bool.and_eq_true, decide_eq_true_eq] at digit
    exact UInt32.le_iff_toNat_le.mp digit.1
  have high : c.toNat ≤ 57 := by
    simp only [Char.isDigit, Bool.and_eq_true, decide_eq_true_eq] at digit
    exact UInt32.le_iff_toNat_le.mp digit.2
  simp only [Text.isBlank, Text.blankRanges, List.any_cons, List.any_nil,
    Bool.or_false, Bool.or_eq_false_iff, Bool.and_eq_false_iff,
    decide_eq_false_iff_not]
  omega

section

variable {width value : Nat} {digits rest : List Char}

theorem Writes.number (writes : Writes width value digits) (some : width ≠ 0)
    {most : Nat}
    (ends : most = width ∨ width ≤ most ∧ ∀ c ∈ rest.head?, c.isDigit = false) :
    number? most (digits ++ rest) = .some (value, rest) := by
  have whole : ((digits ++ rest).take most).takeWhile Char.isDigit = digits := by
    rcases ends with same | ⟨fits, stops⟩
    · rw [same, ← writes.length, List.take_left,
        List.takeWhile_eq_self_iff.mpr writes.digit]
    · have nothing (count : Nat) : (rest.take count).takeWhile Char.isDigit = [] := by
        cases rest with
        | nil => simp
        | cons c rest =>
            have stop := stops c rfl
            cases count with
            | zero => rfl
            | succ count => simp [stop]
      rw [List.take_append, List.take_of_length_le (by rw [writes.length]; exact fits),
        List.takeWhile_append_of_pos writes.digit, nothing, List.append_nil]
  have filled : digits.isEmpty = false := by
    rw [List.isEmpty_eq_false_iff, ← List.length_pos_iff, writes.length]
    omega
  rw [number?]
  simp only [whole, filled, Bool.false_eq_true, if_false, writes.value,
    List.drop_left]

theorem Writes.skipBlank (writes : Writes width value digits) (some : width ≠ 0) :
    skipBlank (digits ++ rest) = digits ++ rest := by
  cases digits with
  | nil => exact absurd writes.length.symm some
  | cons c digits =>
      have digit := not_blank_of_digit (writes.digit c List.mem_cons_self)
      rw [Timestamp.skipBlank, List.cons_append, List.dropWhile_cons, digit]
      rfl

theorem Writes.field (writes : Writes 2 value digits) :
    field? (digits ++ rest) = .some (value, rest) := by
  rw [field?, writes.skipBlank (by decide), writes.number (by decide) (Or.inl rfl)]

/-- What a year is written as: four digits, or a sign and at least one digit. -/
inductive WritesYear (year : Nat) : List Char → Prop where
  | plain {digits : List Char} (writes : Writes 4 year digits) :
      WritesYear year digits
  | signed {width : Nat} {digits : List Char} (some : width ≠ 0)
      (writes : Writes width year digits) : WritesYear year ('+' :: digits)

theorem writesYear_yearText (year : Nat) :
    WritesYear year (yearText year).toList := by
  rw [yearText]
  split
  · rename_i small
    exact .plain (writes_padded (by decide) small)
  · have writes : Writes (Nat.toDigits 10 year).length year
        (Nat.toDigits 10 year) :=
      { length := rfl
        digit := fun c member => Json.isDigit_toDigits c member
        value := Json.decimal_toDigits year }
    have text : ("+" ++ toString year).toList = '+' :: Nat.toDigits 10 year := by
      simp [Nat.repr]
    rw [text]
    exact .signed (Nat.ne_of_gt Nat.length_toDigits_pos) writes

theorem Writes.year (writes : Writes 4 value digits) :
    year? (digits ++ rest) = .some (Int.ofNat value, rest) := by
  have plain (sign : Char) (notDigit : sign.isDigit = false) (later : List Char) :
      digits ++ rest ≠ sign :: later := by
    cases digits with
    | nil => cases writes.length
    | cons c digits =>
        intro same
        cases same
        have digit := writes.digit sign List.mem_cons_self
        rw [notDigit] at digit
        cases digit
  rw [year?, writes.skipBlank (by decide)]
  split
  · exact absurd ‹_› (plain '-' (by decide) _)
  · exact absurd ‹_› (plain '+' (by decide) _)
  · rw [writes.number (by decide) (Or.inl rfl)]
    rfl

theorem WritesYear.year (writes : WritesYear value digits)
    (stops : ∀ c ∈ rest.head?, c.isDigit = false) :
    year? (digits ++ rest) = .some (Int.ofNat value, rest) := by
  cases writes with
  | plain writes => exact writes.year
  | @signed width later some writes =>
      have fits : width ≤ (later ++ rest).length := by
        rw [List.length_append, writes.length]
        exact Nat.le_add_right _ _
      have same : Timestamp.skipBlank ('+' :: (later ++ rest)) =
          '+' :: (later ++ rest) := rfl
      rw [List.cons_append, year?, same]
      change (number? (later ++ rest).length (later ++ rest)).map _ = _
      rw [writes.number some (Or.inr ⟨fits, stops⟩)]
      rfl

end

theorem mark_here {mark : Char} (loud : Text.isBlank mark = false)
    (rest : List Char) : mark? mark (mark :: rest) = some rest := by
  have same : skipBlank (mark :: rest) = mark :: rest := by
    rw [skipBlank, List.dropWhile_cons, loud]
    rfl
  rw [mark?, same]
  exact if_pos rfl

/-! ### Moments -/

theorem date_written {year month day : Nat} {y m d r : List Char}
    (years : WritesYear year y) (months : Writes 2 month m) (days : Writes 2 day d)
    (small : year < 262143)
    (real : Calendar.isDate (Int.ofNat year) month day = true) :
    date? (y ++ '-' :: (m ++ '-' :: (d ++ r))) =
      some (⟨Int.ofNat year, month, day⟩, r) := by
  have occurs : Day.occurs ⟨Int.ofNat year, month, day⟩ = true := by
    have low : firstDay.year ≤ Int.ofNat year := by
      change (-262143 : Int) ≤ (year : Int)
      omega
    have high : Int.ofNat year ≤ lastDay.year := by
      change (year : Int) ≤ 262142
      omega
    simp only [Day.occurs, low, high, real, decide_true, Bool.and_self]
  have stops : ∀ c ∈ ('-' :: (m ++ '-' :: (d ++ r))).head?, c.isDigit = false := by
    rintro _ ⟨⟩
    decide
  simp only [date?, Option.bind_eq_bind, years.year stops, Option.bind_some,
    mark_here (by decide : Text.isBlank '-' = false), months.field, days.field]
  exact if_pos occurs

theorem time_written {hour minute second fraction width : Nat}
    {h m s f : List Char} (hours : Writes 2 hour h) (minutes : Writes 2 minute m)
    (seconds : Writes 2 second s) (fractions : Writes width fraction f)
    (some : width ≠ 0) (hourSmall : hour < 24) (minuteSmall : minute < 60)
    (secondSmall : second < 60) :
    time? (h ++ ':' :: (m ++ ':' :: (s ++ '.' :: (f ++ ['Z'])))) =
      .some (Int.ofNat (3600 * hour + 60 * minute + min second 59), ['Z']) := by
  have real : isTime hour minute second = true := by
    simp only [isTime, hourSmall, minuteSmall, decide_true, Bool.and_self,
      Bool.true_and, decide_eq_true_eq]
    omega
  have after : fraction? ('.' :: (f ++ ['Z'])) = .some ['Z'] := by
    rw [fraction?, fractions.number some (Or.inr ⟨?_, ?_⟩)]
    · rfl
    · rw [List.length_append, fractions.length]
      exact Nat.le_add_right _ _
    · rintro _ ⟨⟩
      decide
  simp only [time?, Option.bind_eq_bind, hours.field, Option.bind_some,
    mark_here (by decide : Text.isBlank ':' = false), minutes.field,
    seconds.field, real, if_true, after, Option.map_some]

theorem small_of_isDate {year : Int} {month day : Nat}
    (real : Calendar.isDate year month day) : month < 10 ^ 2 ∧ day < 10 ^ 2 := by
  have short : Calendar.daysOf year month ≤ 31 := by
    rw [Calendar.daysOf]
    repeat' split
    all_goals decide
  simp only [Calendar.isDate, Bool.and_eq_true, decide_eq_true_eq] at real
  omega

theorem isWithinDays_of_time {day : Day} {time : Int} (some : 0 ≤ time)
    (inDay : time < 86400) : isWithinDays day time = true := by
  rw [isWithinDays, decide_eq_true some, decide_eq_true inDay, Bool.true_or,
    Bool.true_or, Bool.and_self]

/-- A text whose parts are read one after the other, and nothing follows. -/
theorem ofText_of_parts {text : String} {date : Day} {time offset : Int}
    {afterDate afterMark afterTime afterOffset : List Char}
    (dated : date? text.toList = some (date, afterDate))
    (marked : between? afterDate = some afterMark)
    (timed : time? afterMark = some (time, afterTime))
    (placed : offset? (skipBlank afterTime) = some (offset, afterOffset))
    (ended : (skipBlank afterOffset).isEmpty = true)
    (within : isWithinDays date (time - offset) = true) :
    ofText? text = some ⟨text⟩ := by
  simp only [ofText?, dated, marked, timed, placed, ended, within,
    Option.bind_eq_bind, Option.bind_some, Bool.and_self, if_true]
  rfl

theorem ofText_written {text : String} {year month day second : Nat}
    {y m d rest : List Char} (years : WritesYear year y) (months : Writes 2 month m)
    (days : Writes 2 day d) (small : year < 262143)
    (real : Calendar.isDate (Int.ofNat year) month day = true)
    (timed : time? rest = some (Int.ofNat second, ['Z'])) (inDay : second < 86400)
    (chars : text.toList = y ++ '-' :: (m ++ '-' :: (d ++ 'T' :: rest))) :
    ofText? text = some ⟨text⟩ := by
  have early : (Int.ofNat second - 0 : Int) < 86400 := by
    rw [Int.sub_zero, Int.ofNat_eq_natCast]
    exact_mod_cast inDay
  have dated := date_written (r := 'T' :: rest) years months days small real
  rw [← chars] at dated
  have placed : offset? (skipBlank ['Z']) = some (0, []) := by decide
  exact ofText_of_parts dated rfl timed placed rfl
    (isWithinDays_of_time (by simp) early)

/-- The moments whose dates exist: those before the year 262143. -/
def isInCalendar (milliseconds : Nat) : Bool :=
  milliseconds < 8210266876800000

/-- A moment of the calendar is read back. -/
theorem ofText_ofMilliseconds {milliseconds : Nat}
    (early : isInCalendar milliseconds) :
    ofText? (ofMilliseconds milliseconds).text =
      some (ofMilliseconds milliseconds) := by
  have few : milliseconds / 1000 / 86400 < 95026237 := by
    rw [isInCalendar, decide_eq_true_eq] at early
    omega
  have real := isDate_dateOfDays (milliseconds / 1000 / 86400)
  have calendar := year_dateOfDays few
  rw [ofMilliseconds]
  dsimp only
  generalize dateOfDays (milliseconds / 1000 / 86400) = date at real calendar ⊢
  obtain ⟨year, month, day⟩ := date
  dsimp only at real calendar ⊢
  have bounds := small_of_isDate real
  have ofDay : milliseconds / 1000 % 86400 < 86400 := Nat.mod_lt _ (by decide)
  generalize milliseconds / 1000 % 86400 = second at ofDay ⊢
  have timed := time_written
    (writes_padded (by decide) (by omega : second / 3600 < 10 ^ 2))
    (writes_padded (by decide) (by omega : second / 60 % 60 < 10 ^ 2))
    (writes_padded (by decide) (by omega : second % 60 < 10 ^ 2))
    (writes_padded (by decide) (by omega : milliseconds % 1000 < 10 ^ 3))
    (by decide) (by omega) (by omega) (by omega)
  exact ofText_written (writesYear_yearText year)
    (writes_padded (by decide) bounds.1) (writes_padded (by decide) bounds.2) calendar
    real timed (by omega) (by simp)

end PackageLayers.Timestamp

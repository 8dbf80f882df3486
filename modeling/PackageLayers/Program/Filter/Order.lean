/-
Purpose: Putting lines in order.
Main exports: Filter.sort
-/
import PackageLayers.Program.Filter.Lines

namespace PackageLayers.Program.Filter

/-!
Lines are ordered by keys, each a part of the line, one after the other; lines
whose keys are all alike are ordered by all of their octets.  A part is compared
by its octets, or by the number that it starts with.
-/

/-- Whether a list of characters stands before another. -/
def isBefore : List Char → List Char → Bool
  | _, [] => false
  | [], _ :: _ => true
  | c :: rest, d :: more => c < d || (c = d && isBefore rest more)

/-- Whether a character is a blank within a line. -/
def isBlank (c : Char) : Bool :=
  c = ' ' || c = '\t'

/-- The number that a line starts with, in units of which there are many in
one. -/
def leadingNumber (line : List Char) : Int :=
  let line := line.dropWhile isBlank
  let (negative, body) :=
    match line with
    | '-' :: rest => (true, rest)
    | rest => (false, rest)
  let whole := body.takeWhile Char.isDigit
  let fraction :=
    match body.drop whole.length with
    | '.' :: rest => rest.takeWhile Char.isDigit
    | _ => []
  let digits := whole ++ (fraction ++ List.replicate 18 '0').take 18
  let size := Int.ofNat (Text.decimal digits)
  if negative then -size else size

/-- The rank of the unit after the number that a line starts with. -/
def unitRank (line : List Char) : Int :=
  let line := line.dropWhile isBlank
  let isNegative := line.head? = some '-'
  let after :=
    (if isNegative then line.drop 1 else line).dropWhile fun c =>
      c.isDigit || c = '.'
  let rank : Int :=
    match after.head?.bind fun c => "KMGTPEZY".toList.idxOf? c.toUpper with
    | some place => place + 1
    | none => 0
  if isNegative then -rank else rank

/-- A name of a version as parts: texts in turn with numbers. -/
def versionParts : (rounds : Nat) → List Char → List (List Char × Nat)
  | 0, _ => []
  | _ + 1, [] => []
  | rounds + 1, chars =>
      let text := chars.takeWhile fun c => !c.isDigit
      let digits := (chars.drop text.length).takeWhile Char.isDigit
      (text, Text.decimal digits) ::
        versionParts rounds (chars.drop (text.length + digits.length))

/-- Whether a list of version parts stands before another. -/
def isOlder : List (List Char × Nat) → List (List Char × Nat) → Bool
  | _, [] => false
  | [], _ :: _ => true
  | (text, number) :: rest, (other, size) :: more =>
      if text ≠ other then isBefore text other
      else if number ≠ size then number < size
      else isOlder rest more

/-- A key: the field and the octet at which it begins, those at which it ends, if
it ends before the line, and letters for how it is compared. -/
structure SortKey where
  field : Nat := 1
  place : Nat := 1
  lastField : Option Nat := none
  lastPlace : Nat := 0
  letters : List Char := []
deriving Repr, Inhabited, DecidableEq

namespace SortKey

/-- The letters that say how keys are compared. -/
def orderLetters : List Char :=
  "bdfginhrVM".toList

/-- A field, an octet and letters, such as `2.3n`. -/
def position? (text : List Char) : Option (Nat × Option Nat × List Char) :=
  let field := text.takeWhile Char.isDigit
  let rest := text.drop field.length
  let (place, letters) :=
    match rest with
    | '.' :: more =>
        let digits := more.takeWhile Char.isDigit
        (some (Text.decimal digits), more.drop digits.length)
    | letters => (none, letters)
  if field.isEmpty || !letters.all orderLetters.contains then none
  else some (Text.decimal field, place, letters)

/-- The key that an argument writes. -/
def ofText? (text : String) : Option SortKey :=
  match Text.splitAt (· == ',') text.toList with
  | [first] => do
      let (field, place, letters) ← position? first
      pure { field := field, place := place.getD 1, letters := letters }
  | [first, last] => do
      let (field, place, letters) ← position? first
      let (lastField, lastPlace, others) ← position? last
      pure
        { field := field
          place := place.getD 1
          lastField := some lastField
          lastPlace := lastPlace.getD 0
          letters := letters ++ others }
  | _ => none

/-- A line after some of its fields. -/
def skipFields (mark : Option Char) : (count : Nat) → List Char → List Char
  | 0, line => line
  | count + 1, line =>
      let rest :=
        match mark with
        | some mark => (line.dropWhile (· ≠ mark)).drop 1
        | none => (line.dropWhile isBlank).dropWhile fun c => !isBlank c
      skipFields mark count rest

/-- A line after the field that it starts with, from the separator on. -/
def afterField (mark : Option Char) (line : List Char) : List Char :=
  match mark with
  | some mark => line.dropWhile (· ≠ mark)
  | none => (line.dropWhile isBlank).dropWhile fun c => !isBlank c

/-- The part of a line that is the key. -/
def part (key : SortKey) (mark : Option Char) (skips : Bool) (line : List Char) :
    List Char :=
  let trimmed (chars : List Char) : List Char :=
    if skips then chars.dropWhile isBlank else chars
  let start := (trimmed (skipFields mark (key.field - 1) line)).drop (key.place - 1)
  match key.lastField with
  | none => start
  | some last =>
      let rest :=
        if key.lastPlace = 0 then
          afterField mark (skipFields mark (last - 1) line)
        else
          (trimmed (skipFields mark (last - 1) line)).drop key.lastPlace
      start.take (start.length - rest.length)

end SortKey

/-- How two parts of lines stand, where letters say how they are compared. -/
def partOrder (letters : List Char) (left right : List Char) : Ordering :=
  let has (letter : Char) : Bool := letters.contains letter
  let clean (part : List Char) : List Char :=
    let part := if has 'b' then part.dropWhile isBlank else part
    let part :=
      if has 'd' then part.filter fun c => isBlank c || c.isAlphanum else part
    let part :=
      if has 'i' then part.filter fun c => ' ' ≤ c && c.toNat < 127 else part
    if has 'f' then part.map Char.toUpper else part
  let orderOf (before after : Bool) : Ordering :=
    if before then .lt else if after then .gt else .eq
  let plain :=
    if has 'n' || has 'g' then
      compare (leadingNumber left) (leadingNumber right)
    else if has 'h' then
      (compare (unitRank left) (unitRank right)).then
        (compare (leadingNumber left) (leadingNumber right))
    else if has 'V' then
      let parts (chars : List Char) := versionParts (chars.length + 1) chars
      orderOf (isOlder (parts left) (parts right)) (isOlder (parts right) (parts left))
    else
      let left := clean left
      let right := clean right
      orderOf (isBefore left right) (isBefore right left)
  if has 'r' then plain.swap else plain

/-- How two lines stand by keys. -/
def keyOrder (options : Options) (keys : List SortKey) (left right : List Char) :
    Ordering :=
  let mark := (options.value? 't').bind fun text => text.toList.head?
  let common := SortKey.orderLetters.filter options.has
  if keys.isEmpty then partOrder common left right
  else
    keys.foldl
      (fun (order : Ordering) key =>
        let letters := if key.letters.isEmpty then common else key.letters
        let part := key.part mark (letters.contains 'b')
        order.then (partOrder letters (part left) (part right)))
      .eq

/-- The lines without those that are like the line before. -/
def withoutRepeats (same : List Char → List Char → Bool) :
    List (List Char) → List (List Char)
  | first :: second :: rest =>
      if same first second then withoutRepeats same (first :: rest)
      else first :: withoutRepeats same (second :: rest)
  | lines => lines
termination_by lines => lines.length

/-- The first line that may not follow the one before it, and its place. -/
def disorder? (fits : List Char → List Char → Bool) :
    (place : Nat) → List (List Char) → Option (Nat × List Char)
  | place, first :: second :: rest =>
      if fits first second then disorder? fits (place + 1) (second :: rest)
      else some (place + 1, second)
  | _, _ => none

/-- What a key is called that cannot be read. -/
def keyComplaint (text : String) : String :=
  let digits := text.toList.takeWhile Char.isDigit
  if digits.isEmpty then
    s!"sort: invalid number at field start: invalid count at start of '{text}'"
  else if Text.decimal digits = 0 then
    s!"sort: field number is zero: invalid field specification '{text}'"
  else s!"sort: stray character in field spec: invalid field specification '{text}'"

/-- Order lines. -/
def sort (supply : Supply) (arguments : List String) : Outcome :=
  let table : OptionTable :=
    { flags := "bdfginhrVMRcCmsuz"
      valued := "ktoTS"
      long := [("ignore-leading-blanks", 'b'), ("dictionary-order", 'd'),
        ("ignore-case", 'f'), ("numeric-sort", 'n'),
        ("human-numeric-sort", 'h'), ("reverse", 'r'), ("version-sort", 'V'),
        ("check", 'c'), ("merge", 'm'), ("stable", 's'), ("unique", 'u'),
        ("key", 'k'), ("field-separator", 't'), ("output", 'o')] }
  withOptions "sort" 2 table arguments fun options =>
    let texts := options.values 'k'
    let isKey (text : String) : Bool :=
      (SortKey.ofText? text).any fun key => key.field ≠ 0
    match texts.find? fun text => !isKey text with
    | some wrong => .failure 2 (keyComplaint wrong)
    | none =>
        let keys := texts.filterMap SortKey.ofText?
        let order := keyOrder options keys
        let isFinal := options.has 'u' || options.has 's'
        let whole (left right : List Char) : Bool :=
          if options.has 'r' then !isBefore left right else !isBefore right left
        let fits (left right : List Char) : Bool :=
          match order left right with
          | .lt => true
          | .gt => false
          | .eq => isFinal || whole left right
        let alike (left right : List Char) : Bool := order left right == .eq
        let complain (name reason : String) :=
          if reason = "Is a directory" then s!"sort: read failed: {name}: {reason}"
          else s!"sort: cannot read: {name}: {reason}"
        let read :=
          supply.each options.operands 2 complain fun _ text =>
            .wrote (joinLines (textLines text))
        let lines := textLines read.out
        if read.status ≠ 0 then read.withOut []
        else if options.has 'c' || options.has 'C' then
          let next (left right : List Char) : Bool :=
            fits left right && !(options.has 'u' && alike left right)
          match disorder? next 1 lines with
          | none => { demand := read.demand }
          | some (place, line) =>
              let name := options.operands.headD "-"
              let complaint :=
                s!"sort: {name}:{place}: disorder: " ++ String.ofList line
              { (if options.has 'C' then { status := 1 }
                else Outcome.failure 1 complaint : Outcome) with
                demand := read.demand }
        else
          let ordered := lines.mergeSort fits
          let out :=
            joinLines (if options.has 'u' then withoutRepeats alike ordered
              else ordered)
          match options.value? 'o' with
          | some name => { read.withOut [] with stored := [(name, out)] }
          | none => read.withOut out

end PackageLayers.Program.Filter

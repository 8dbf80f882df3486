/-
Purpose: Reading TOML documents.
Main exports: Toml.value?, Toml.read?
-/
import PackageLayers.Toml.Basic
import PackageLayers.Toml.Text
import PackageLayers.Toml.Word

namespace PackageLayers.Toml

/-!
A document is read line by line.  Every line is empty, a header, or a key with a
value, and changes the table of the document (`Toml.Table`) or is refused.
Values are read by mutual recursion on a number of rounds; each round reads at
least one character or leads to one that does, so three rounds for each
character are enough.
-/

/-- The word at the start of a list of characters, and those after it.  A date may
be followed by a blank and a time. -/
def cutWord (chars : List Char) : List Char × List Char :=
  let first := chars.takeWhile isWordChar
  let after := chars.dropWhile isWordChar
  let second := (after.drop 1).takeWhile isWordChar
  if after.head? = some ' ' && !second.isEmpty && afterDate? first == some []
  then (first ++ ' ' :: second, (after.drop 1).dropWhile isWordChar)
  else (first, after)

/-- The greatest number of arrays and inline tables that may be open at once. -/
def depthLimit : Nat := 80

mutual

/-- A value inside of some arrays and inline tables. -/
def valueWithin? : (rounds depth : Nat) → List Char → Option (Value × List Char)
  | 0, _, _ => none
  | rounds + 1, depth, '[' :: rest =>
      if depth < depthLimit then do
        let (items, after) ← itemsWithin? rounds (depth + 1) rest
        pure (.array items, after)
      else none
  | rounds + 1, depth, '\x7b' :: rest =>
      if depth < depthLimit then do
        let (table, after) ← membersWithin? rounds (depth + 1) [] rest
        pure (.table .inlined table, after)
      else none
  | _ + 1, _, c :: rest =>
      if c = '"' ∨ c = '\'' then do
        let (content, after) ← string? (c :: rest)
        pure (.text content, after)
      else
        let (word, after) := cutWord (c :: rest)
        (word? word).map fun value => (value, after)
  | _ + 1, _, [] => none

/-- The items of an array up to its end. -/
def itemsWithin? :
    (rounds depth : Nat) → List Char → Option (List Value × List Char)
  | 0, _, _ => none
  | rounds + 1, depth, chars =>
      match skipLines chars.length chars with
      | ']' :: after => some ([], after)
      | start => do
          let (item, after) ← valueWithin? rounds depth start
          match skipLines after.length after with
          | ',' :: rest =>
              let (items, after) ← itemsWithin? rounds depth rest
              pure (item :: items, after)
          | ']' :: after => pure ([item], after)
          | _ => none

/-- The members of an inline table up to its end, added to those before.  Lines
may be broken anywhere but in a key. -/
def membersWithin? :
    (rounds depth : Nat) → Table → List Char → Option (Table × List Char)
  | 0, _, _, _ => none
  | rounds + 1, depth, table, chars =>
      match skipLines chars.length chars with
      | '\x7d' :: after => some (table, after)
      | start => do
          let (key, after) ← key? start
          match skipLines after.length after with
          | '=' :: rest =>
              let (value, after) ←
                valueWithin? rounds depth (skipLines rest.length rest)
              let table ← table.define? [] key value
              match skipLines after.length after with
              | ',' :: rest => membersWithin? rounds depth table rest
              | '\x7d' :: after => pure (table, after)
              | _ => none
          | _ => none

end

/-- A value and the characters after it. -/
def value? (chars : List Char) : Option (Value × List Char) :=
  valueWithin? (3 * chars.length) 0 chars

/-- A document as far as it is read: its table, and the header that is open. -/
structure Progress where
  table : Table
  current : List String

/-- Read the header of an array's next table. -/
def readNextHeader? (progress : Progress) (chars : List Char) :
    Option (Progress × List Char) := do
  let (key, after) ← key? chars
  match after with
  | ']' :: ']' :: rest =>
      let table ← progress.table.openNext? key
      pure ({ table := table, current := key }, rest)
  | _ => none

/-- Read the header of a table. -/
def readHeader? (progress : Progress) (chars : List Char) :
    Option (Progress × List Char) := do
  let (key, after) ← key? chars
  match after with
  | ']' :: rest =>
      let table ← progress.table.openTable? key
      pure ({ table := table, current := key }, rest)
  | _ => none

/-- Read a key and its value. -/
def readEntry? (progress : Progress) (chars : List Char) :
    Option (Progress × List Char) := do
  let (key, after) ← key? chars
  match after with
  | '=' :: rest =>
      let (value, after) ← value? (skipBlanks rest)
      let table ← progress.table.define? progress.current key value
      pure ({ progress with table := table }, after)
  | _ => none

/-- Read the lines of a document; `rounds` bounds their number. -/
def readLines? : (rounds : Nat) → Progress → List Char → Option Table
  | 0, _, _ => none
  | rounds + 1, progress, chars =>
      match skipLines chars.length chars with
      | [] => some progress.table
      | start => do
          let (progress, after) ←
            match start with
            | '[' :: '[' :: rest => readNextHeader? progress rest
            | '[' :: rest => readHeader? progress rest
            | _ => readEntry? progress start
          let below ← lineEnd? after
          readLines? rounds progress below

/-- The table that a document writes. -/
def read? (document : String) : Option Table :=
  let chars := document.toList
  let body := if chars.head? = some '\uFEFF' then chars.drop 1 else chars
  readLines? (body.length + 1) { table := [], current := [] } body

end PackageLayers.Toml

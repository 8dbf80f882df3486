/-
Purpose: TOML documents as values.
Main exports: Toml.Origin, Toml.Value, Toml.Table, Toml.Table.define?,
  Toml.Table.openTable?, Toml.Table.openNext?
-/
import PackageLayers.Dict

namespace PackageLayers.Toml

/-!
A document is a table.  What may still be added to a table depends on how the
table came to be, so every table remembers its origin:

* a header `[a.b]` opens `b` once, and brings about `a` if it is not there;
* a dotted key `a.b = 1` brings about `a`, which later dotted keys may extend
  and headers may only pass through;
* an inline table is complete as written.

A header `[[a]]` adds a table to the array `a`, and later headers that pass
through `a` mean its last table.

Floating point numbers, dates and times are read but not told apart: nothing that
is wanted from a document may be one.
-/

/-- How a table came to be. -/
inductive Origin where
  | header
  | implied
  | dotted
  | inlined
deriving Repr, Inhabited, DecidableEq

/-- What a key stands for. -/
inductive Value where
  | text (content : String)
  | integer (number : Int)
  | boolean (flag : Bool)
  | other
  | array (items : List Value)
  | table (origin : Origin) (entries : List (String × Value))
  | tables (items : List (List (String × Value)))
deriving Repr, Inhabited

/-- The entries of a table. -/
abbrev Table := List (String × Value)

namespace Table

/-- The table with a value put under a name, in place of any value that was
there. -/
def put (name : String) (value : Value) : Table → Table
  | [] => [(name, value)]
  | (key, old) :: rest =>
      if key = name then (name, value) :: rest
      else (key, old) :: put name value rest

/-- The table with a value put under a name that is still free. -/
def putFresh? (name : String) (value : Value) (table : Table) : Option Table :=
  match Dict.lookup name table with
  | some _ => none
  | none => some (put name value table)

/-- Change the table that a dotted key starts in; the path to it passes only
through tables that dotted keys brought about. -/
def changeDotted? (change : Table → Option Table) :
    (path : List String) → Table → Option Table
  | [], table => change table
  | name :: path, table =>
      match Dict.lookup name table with
      | none => do
          let inner ← changeDotted? change path []
          pure (put name (.table .dotted inner) table)
      | some (.table .dotted entries) => do
          let inner ← changeDotted? change path entries
          pure (put name (.table .dotted inner) table)
      | some _ => none

/-- Change the table that a header names; the path to it passes through any
tables but inline ones, and through the last tables of arrays. -/
def changeUnder? (change : Table → Option Table) :
    (path : List String) → Table → Option Table
  | [], table => change table
  | name :: path, table =>
      match Dict.lookup name table with
      | none => do
          let inner ← changeUnder? change path []
          pure (put name (.table .implied inner) table)
      | some (.table .inlined _) => none
      | some (.table origin entries) => do
          let inner ← changeUnder? change path entries
          pure (put name (.table origin inner) table)
      | some (.tables items) =>
          match items.getLast? with
          | none => none
          | some last => do
              let inner ← changeUnder? change path last
              pure (put name (.tables (items.dropLast ++ [inner])) table)
      | some _ => none

/-- A key cut into the names before the last and the last. -/
def splitKey? (key : List String) : Option (List String × String) :=
  key.getLast?.map fun last => (key.dropLast, last)

/-- The table after the header `[key]`. -/
def openTable? (key : List String) (table : Table) : Option Table := do
  let (path, last) ← splitKey? key
  changeUnder?
    (fun inner =>
      match Dict.lookup last inner with
      | none => some (put last (.table .header []) inner)
      | some (.table .implied entries) =>
          some (put last (.table .header entries) inner)
      | some _ => none)
    path table

/-- The table after the header `[[key]]`. -/
def openNext? (key : List String) (table : Table) : Option Table := do
  let (path, last) ← splitKey? key
  changeUnder?
    (fun inner =>
      match Dict.lookup last inner with
      | none => some (put last (.tables [[]]) inner)
      | some (.tables items) => some (put last (.tables (items ++ [[]])) inner)
      | some _ => none)
    path table

/-- The table after `key = value` below the header `[current]`. -/
def define? (current key : List String) (value : Value) (table : Table) :
    Option Table := do
  let (path, last) ← splitKey? key
  changeUnder? (changeDotted? (putFresh? last value) path) current table

end Table

end PackageLayers.Toml

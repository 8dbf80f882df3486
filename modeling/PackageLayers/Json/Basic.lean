/-
Purpose: JSON values and the places inside them.
Main exports: Json, Json.field?, Json.item?, Json.canonical, Json.isLegible
-/
import PackageLayers.Number.Double

namespace PackageLayers

/-!
A JSON object is the list of its members as written: a member name may occur
twice, and the members stand in any order.  `Json.canonical` is the reading in
which the last member of a name counts and members are listed by name; a
document that is kept as a plain value is kept in that form.

A part of a document that nobody asks for need only have the shape of a value:
its numbers may be beyond every double, its texts may hold half a surrogate
pair, and it may be nested without end.  Such a part is `illegible`.  Nothing
reads it; a reader that passes over it does not mind, and a reader that wants
the whole document refuses it (`Json.isLegible`).
-/

/-- A JSON value.  Numbers outside the integers between `-2^63` and `2^64 - 1`,
numbers written with a fraction or an exponent, and the negative zero are
`real`. -/
inductive Json where
  | null
  | bool (value : Bool)
  | int (value : Int)
  | real (value : Double)
  | str (text : String)
  | arr (items : List Json)
  | obj (members : List (String × Json))
  | illegible
deriving Repr, Inhabited

namespace Json

/-- The member of an object with the given name; of several the last. -/
def field? (name : String) : Json → Option Json
  | .obj members => (members.reverse.find? fun member => member.1 == name).map (·.2)
  | _ => none

/-- The item of an array at a position. -/
def item? (position : Nat) : Json → Option Json
  | .arr items => items[position]?
  | _ => none

/-- The text that a value is. -/
def str? : Json → Option String
  | .str text => some text
  | _ => none

/-- The Boolean that a value is. -/
def bool? : Json → Option Bool
  | .bool value => some value
  | _ => none

/-- The items of the array that a value is. -/
def items? : Json → Option (List Json)
  | .arr items => some items
  | _ => none

/-- The members of the object that a value is. -/
def members? : Json → Option (List (String × Json))
  | .obj members => some members
  | _ => none

/-- The natural number that a value is, if it is below `bound`. -/
def natBelow? (bound : Nat) : Json → Option Nat
  | .int value =>
      if 0 ≤ value ∧ value < Int.ofNat bound then some value.toNat else none
  | _ => none

/-- The integers that an unsigned word of 32 bits holds. -/
def word32? : Json → Option Nat :=
  natBelow? (Text.wordCount 32)

/-- The integers that an unsigned word of 64 bits holds. -/
def word64? : Json → Option Nat :=
  natBelow? (Text.wordCount 64)

/-- Put a member into a list of members sorted by name, in place of a member of
the same name. -/
def insertMember (name : String) (value : Json) :
    List (String × Json) → List (String × Json)
  | [] => [(name, value)]
  | (key, old) :: rest =>
      if name < key then (name, value) :: (key, old) :: rest
      else if name = key then (name, value) :: rest
      else (key, old) :: insertMember name value rest

/-- Members listed by name, the last of each name. -/
def sortMembers (members : List (String × Json)) : List (String × Json) :=
  members.foldl (fun sorted member => insertMember member.1 member.2 sorted) []

mutual

/-- The value with the members of every object listed by name, each name
once. -/
def canonical : Json → Json
  | .arr items => .arr (canonicalItems items)
  | .obj members => .obj (sortMembers (canonicalMembers members))
  | other => other

/-- Every item in canonical form. -/
def canonicalItems : List Json → List Json
  | [] => []
  | item :: rest => item.canonical :: canonicalItems rest

/-- Every member's value in canonical form. -/
def canonicalMembers : List (String × Json) → List (String × Json)
  | [] => []
  | (name, value) :: rest => (name, value.canonical) :: canonicalMembers rest

end

mutual

/-- Whether every part of the value can be read. -/
def isLegible : Json → Bool
  | .illegible => false
  | .arr items => legibleItems items
  | .obj members => legibleMembers members
  | _ => true

/-- Whether every item can be read. -/
def legibleItems : List Json → Bool
  | [] => true
  | item :: rest => item.isLegible && legibleItems rest

/-- Whether every member's value can be read. -/
def legibleMembers : List (String × Json) → Bool
  | [] => true
  | (_, value) :: rest => value.isLegible && legibleMembers rest

end

/-- A text, or null where there is none. -/
def ofOption : Option String → Json
  | some text => .str text
  | none => .null

/-- A natural number as a value. -/
def ofNat (number : Nat) : Json := .int (Int.ofNat number)

/-- An array of texts. -/
def ofTexts (texts : List String) : Json := .arr (texts.map .str)

end Json

end PackageLayers

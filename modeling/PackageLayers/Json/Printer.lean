/-
Purpose: Writing a JSON value as text, on one line or indented.
Main exports: Json.render, Json.renderIndented
-/
import PackageLayers.Json.Basic
import PackageLayers.Number.Decimal
import PackageLayers.Text.Hex

namespace PackageLayers.Json

/-!
Strings are written with the two-character escapes that exist, with `\u00xx` for
the other control characters below the space, and otherwise as they are.

The indented form puts every item and member on a line of its own, two spaces
deeper than its container; empty arrays and objects stay closed.  A double has
the fewest digits that read back.  What is illegible is written as null.
-/

/-- How a character is written inside a string. -/
def escapeChar (c : Char) : List Char :=
  if c = '"' then ['\\', '"']
  else if c = '\\' then ['\\', '\\']
  else if c = '\x08' then ['\\', 'b']
  else if c = '\x0c' then ['\\', 'f']
  else if c = '\n' then ['\\', 'n']
  else if c = '\r' then ['\\', 'r']
  else if c = '\t' then ['\\', 't']
  else if c.toNat < 0x20 then
    ['\\', 'u', '0', '0', Text.hexDigit (c.toNat / 16),
      Text.hexDigit (c.toNat % 16)]
  else [c]

/-- A text as a JSON string. -/
def quote (text : String) : String :=
  String.ofList ('"' :: (text.toList.flatMap escapeChar ++ ['"']))

mutual

/-- The value on one line, without spaces. -/
def render : Json → String
  | .null => "null"
  | .bool true => "true"
  | .bool false => "false"
  | .int value => toString value
  | .real value => value.text
  | .illegible => "null"
  | .str text => quote text
  | .arr items => "[" ++ ",".intercalate (renderItems items) ++ "]"
  | .obj members => "\x7b" ++ ",".intercalate (renderMembers members) ++ "\x7d"

/-- Every item on one line. -/
def renderItems : List Json → List String
  | [] => []
  | item :: rest => item.render :: renderItems rest

/-- Every member on one line. -/
def renderMembers : List (String × Json) → List String
  | [] => []
  | (name, value) :: rest =>
      (quote name ++ ":" ++ value.render) :: renderMembers rest

end

/-- A line break followed by the indentation of a depth. -/
def newline (depth : Nat) : String :=
  String.ofList ('\n' :: List.replicate (2 * depth) ' ')

/-- Pieces inside brackets, one a line; brackets alone if there are none. -/
def bracketed (left right : String) (depth : Nat) (written : List String) :
    String :=
  if written.isEmpty then left ++ right
  else
    left ++ newline (depth + 1) ++
      ("," ++ newline (depth + 1)).intercalate written ++ newline depth ++ right

mutual

/-- The value with one item or member a line, inside containers of the given
depth. -/
def renderAt (depth : Nat) : Json → String
  | .arr items => bracketed "[" "]" depth (renderItemsAt (depth + 1) items)
  | .obj members =>
      bracketed "\x7b" "\x7d" depth (renderMembersAt (depth + 1) members)
  | .null => "null"
  | .bool true => "true"
  | .bool false => "false"
  | .int value => toString value
  | .real value => value.text
  | .illegible => "null"
  | .str text => quote text

/-- Every item at a depth. -/
def renderItemsAt (depth : Nat) : List Json → List String
  | [] => []
  | item :: rest => item.renderAt depth :: renderItemsAt depth rest

/-- Every member at a depth. -/
def renderMembersAt (depth : Nat) : List (String × Json) → List String
  | [] => []
  | (name, value) :: rest =>
      (quote name ++ ": " ++ value.renderAt depth) :: renderMembersAt depth rest

end

/-- The value with one item or member a line. -/
def renderIndented (value : Json) : String :=
  value.renderAt 0

end PackageLayers.Json

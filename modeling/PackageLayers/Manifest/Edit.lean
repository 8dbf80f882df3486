/-
Purpose: Insertions into a text.
Main exports: quote, Edit, applyEdits
-/
import PackageLayers.Sorting
import PackageLayers.Source.Basic

namespace PackageLayers.Manifest

/-!
A manifest is changed by inserting text at positions of the old text, and in no
other way.  Insertions at one position appear in the order of their list.
-/

/-- How a character is written inside a string literal. -/
def quoteChar (c : Char) : List Char :=
  if c = '"' then ['\\', '"']
  else if c = '\\' then ['\\', '\\']
  else if c = '\n' then ['\\', 'n']
  else [c]

/-- The string literal with a given value. -/
def quote (value : String) : String :=
  String.ofList ('"' :: (value.toList.flatMap quoteChar ++ ['"']))

/-- Text to be inserted at a position. -/
structure Edit where
  position : Nat
  text : String
deriving Repr, Inhabited, DecidableEq

/-- A text with `inserted` put at a position. -/
def insertAt (inserted : List Char) : (position : Nat) → List Char → List Char
  | 0, chars => inserted ++ chars
  | _ + 1, [] => inserted
  | position + 1, c :: rest =>
      c :: insertAt inserted (position + 1 - c.utf8Size) rest

/-- Edits in the order in which they are made: the last position first, and of
one position the last edit first, so that no edit moves the place of another
that is still to be made. -/
def inOrderOfWork (edits : List Edit) : List Edit :=
  sortBy (fun first second => second.position ≤ first.position) edits.reverse

/-- A text with all edits made. -/
def applyEdits (text : String) (edits : List Edit) : String :=
  String.ofList
    ((inOrderOfWork edits).foldl
      (fun chars edit => insertAt edit.text.toList edit.position chars)
      text.toList)

/-- Two edits at one position keep their order. -/
example : applyEdits "ac" [⟨1, "b"⟩, ⟨2, "d"⟩, ⟨1, "B"⟩] = "abBcd" := by
  decide +kernel

end PackageLayers.Manifest

/-
Purpose: The fields that expanded words are cut into.
Main exports: FieldPart, Field, fieldsOf, Shell.fileNames
-/
import PackageLayers.Program.Pattern
import PackageLayers.Program.Shell
import PackageLayers.Sorting

namespace PackageLayers.Program

/-!
A word expands to characters, of which some may separate fields and some may be
special in a pattern.  Blanks between fields count once however many there are;
another separator ends a field, also an empty one.  Quotes make a field even if
there is nothing in them.

A field that is a pattern stands for the names of files that it accepts, in
order, or for itself if there are none.
-/

/-- A part of an expanded word: a character, which may be special in a pattern
and may separate fields; a mark that there is a field; the end of a field. -/
inductive FieldPart where
  | char (c : Char) (special splits : Bool)
  | mark
  | cut
deriving Repr, Inhabited, DecidableEq

/-- The characters of a field, each with a mark whether it is special. -/
abbrev Field := List (Char × Bool)

namespace Field

/-- The text of a field. -/
def text (field : Field) : String :=
  String.ofList (field.map Prod.fst)

/-- The field of a text in which nothing is special. -/
def ofText (text : String) : Field :=
  text.toList.map fun c => (c, false)

end Field

/-- Fields as far as a word is cut: those that are complete, last first, and the
one that grows, backwards; `afterBlank` says that a blank ended the last one. -/
structure FieldCut where
  complete : List Field := []
  growing : Option Field := none
  afterBlank : Bool := false

namespace FieldCut

/-- End the growing field, if there is one. -/
def finish (fields : FieldCut) (afterBlank : Bool) : FieldCut :=
  match fields.growing with
  | some field =>
      { complete := field.reverse :: fields.complete
        growing := none
        afterBlank := afterBlank }
  | none => fields

/-- One more character in the growing field. -/
def grow (fields : FieldCut) (entry : Char × Bool) : FieldCut :=
  { fields with
    growing := some (entry :: fields.growing.getD [])
    afterBlank := false }

/-- The next part of a word. -/
def step (separators : List Char) (fields : FieldCut) : FieldPart → FieldCut
  | .mark =>
      { fields with
        growing := some (fields.growing.getD [])
        afterBlank := false }
  | .cut => { fields.finish false with afterBlank := false }
  | .char c special splits =>
      if !(splits && separators.contains c) then fields.grow (c, special)
      else if c = ' ' || c = '\t' || c = '\n' then fields.finish true
      else if fields.growing.isSome then fields.finish false
      else if fields.afterBlank then { fields with afterBlank := false }
      else { fields with complete := [] :: fields.complete }

end FieldCut

/-- The fields of an expanded word. -/
def fieldsOf (separators : List Char) (parts : List FieldPart) : List Field :=
  ((parts.foldl (FieldCut.step separators) {}).finish false).complete.reverse

/-- An expanded word as one field. -/
def wholeField (parts : List FieldPart) : Field :=
  parts.filterMap fun
    | .char c special _ => some (c, special)
    | .mark | .cut => none

/-- The text of an expanded word. -/
def wholeText (parts : List FieldPart) : String :=
  (wholeField parts).text

/-- Texts are ordered by their octets. -/
def octetsPrecede : List Char → List Char → Bool
  | [], _ => true
  | _ :: _, [] => false
  | c :: rest, d :: other =>
      if c = d then octetsPrecede rest other else c.toNat < d.toNat

/-- The names in a directory, in order. -/
def namesIn (files : Files) (directory : Location) : List (List Char) :=
  sortBy octetsPrecede
    (files.entries.filterMap fun entry =>
      match entry.1.getLast? with
      | some name =>
          if entry.1.dropLast = directory then some (Text.octets name) else none
      | none => none)

namespace Shell

/-- The names that a pattern accepts in a directory; one that begins with a dot
needs a pattern that does. -/
def accepted (shell : Shell) (directory : Location) (segment : Field) :
    List (List Char) :=
  let pattern := Pattern.ofMarked segment
  let wantsDot := segment.head?.any fun entry => entry.1 = '.'
  (namesIn shell.around.files directory).filter fun name =>
    (name.head? ≠ some '.' || wantsDot) && pattern.accepts name

/-- The names that begin with a text and go on with segments of which some are
patterns. -/
def completions (shell : Shell) : (start : String) → List Field → List String
  | _, [] => []
  | start, [segment] =>
      if (Pattern.ofMarked segment).isOpen then
        match shell.locate (if start.isEmpty then "." else start) with
        | .ok location =>
            (shell.accepted location segment).map fun name =>
              start ++ String.ofList name
        | .error _ => []
      else
        let name := start ++ segment.text
        if (shell.locate name).toOption.isSome then [name] else []
  | start, segment :: rest =>
      if (Pattern.ofMarked segment).isOpen then
        match shell.locate (if start.isEmpty then "." else start) with
        | .ok location =>
            (shell.accepted location segment).flatMap fun name =>
              let name := start ++ String.ofList name
              if shell.isDirectory name then completions shell (name ++ "/") rest
              else []
        | .error _ => []
      else completions shell (start ++ segment.text ++ "/") rest

/-- The segments of a field between slashes. -/
def segments : Field → List Field
  | [] => [[]]
  | (c, special) :: rest =>
      if c = '/' then [] :: segments rest
      else
        match segments rest with
        | [] => [[(c, special)]]
        | segment :: later => ((c, special) :: segment) :: later

/-- The names that a field stands for. -/
def fileNames (shell : Shell) (field : Field) : List String :=
  if shell.switches.keepsPatterns || !(Pattern.ofMarked field).isOpen then
    [field.text]
  else
    match shell.completions "" (segments field) with
    | [] => [field.text]
    | names => names

end Shell

example :
    (fieldsOf [' ', ':']
        ("a : b::c".toList.map fun c => FieldPart.char c false true)).map
      Field.text = ["a", "b", "", "c"] := by
  decide +kernel

end PackageLayers.Program

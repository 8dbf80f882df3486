/-
Purpose: What paths lead to, and what can go wrong with files.
Main exports: WriteStep, FileFault, Files.locate, Files.fileOf?, Files.textOf?,
  Files.canonical
-/
import PackageLayers.Files.Basic
import PackageLayers.Path.Basic

namespace PackageLayers

/-!
A path is followed from the root, segment by segment, through directories that
exist: `..` goes up from where the path has led so far, and a slash at the end
demands a directory.  So `a/../b` leads nowhere if there is no `a`, although it
names the same location as `b`.

Relative paths lead nowhere: files are known by absolute paths only.
-/

/-- The directory that a path is in. -/
def Files.directoryOf (path : Path) : Path :=
  match path.parent? with
  | some parent => if parent.text.isEmpty then ⟨"."⟩ else parent
  | none => ⟨"."⟩

/-- The steps in which a file is written: the directories on the way to it are made,
a temporary file beside it is made, filled, given the permissions of the file that it
is to replace, and brought to the disk, and then it takes the place of that file. -/
inductive WriteStep where
  | directories
  | temporary
  | content
  | permissions
  | sync
  | replacement
deriving Repr, Inhabited, DecidableEq

/-- What went wrong with a file.  The system tells why it refuses a step. -/
inductive FileFault where
  | missing (path : Path)
  | unreadable (path : Path)
  | malformed (path : Path)
  | directoryNotMade (path : Path)
  | notReplaced (path : Path)
  | notRoot (path : Path)
  | refused (step : WriteStep) (path : Path) (reason : String)
deriving Repr, Inhabited, DecidableEq

namespace FileFault

/-- The description of a fault. -/
def message : FileFault → String
  | .missing path => s!"Path does not exist: {path.text}"
  | .unreadable path => s!"Failed to read {path.text}"
  | .malformed path => s!"Failed to parse {path.text}"
  | .directoryNotMade path => s!"Failed to create directory {path.text}"
  | .notReplaced path => s!"Failed to replace {path.text}"
  | .notRoot path => s!"Invalid project root {path.text}"
  | .refused step path _ =>
      match step with
      | .directories =>
          s!"Failed to create directory {(Files.directoryOf path).text}"
      | .temporary =>
          s!"Failed to create temporary file in {(Files.directoryOf path).text}"
      | .content => s!"Failed to write temporary file for {path.text}"
      | .permissions => s!"Failed to copy permissions of {path.text}"
      | .sync => s!"Failed to sync temporary file for {path.text}"
      | .replacement => s!"Failed to replace {path.text}"

/-- The description of a fault with what the system told of it. -/
def account (fault : FileFault) : String :=
  match fault with
  | .refused _ _ reason => fault.message ++ ": " ++ reason
  | fault => fault.message

end FileFault

/-- Why a path leads nowhere. -/
inductive Obstacle where
  | missing
  | notDirectory
deriving Repr, Inhabited, DecidableEq

/-- The path of a location. -/
def Location.path (location : Location) : Path :=
  ⟨"/" ++ "/".intercalate location⟩

namespace Path

/-- The segments of a path that are followed one by one. -/
def steps (path : Path) : List String :=
  let chars := path.text.toList
  let segments :=
    (Text.splitAt (· == '/') chars).filter fun segment => !segment.isEmpty
  let final := if chars.getLast? = some '/' then [['.']] else []
  (segments ++ final).map String.ofList

end Path

namespace Files

/-- Follow steps from a location. -/
def follow (files : Files) :
    (here : Location) → List String → Except Obstacle Location
  | here, [] => .ok here
  | here, step :: rest =>
      if !files.isDirectory here then .error .notDirectory
      else if step = "." then follow files here rest
      else if step = ".." then follow files here.dropLast rest
      else if (files.get? (here ++ [step])).isSome then
        follow files (here ++ [step]) rest
      else .error .missing

/-- The location that a path leads to. -/
def locate (files : Files) (path : Path) : Except Obstacle Location :=
  if path.isAbsolute then files.follow [] path.steps else .error .missing

/-- What a path leads to. -/
def entryOf? (files : Files) (path : Path) : Option Entry :=
  match files.locate path with
  | .ok location => files.get? location
  | .error _ => none

/-- Whether a path leads somewhere. -/
def hasEntry (files : Files) (path : Path) : Bool :=
  (files.entryOf? path).isSome

/-- The file that a path leads to. -/
def fileOf? (files : Files) (path : Path) : Option File :=
  match files.entryOf? path with
  | some (.file file) => some file
  | _ => none

/-- The text that a path leads to. -/
def textOf? (files : Files) (path : Path) : Option String :=
  (files.fileOf? path).bind fun file => file.content.text?

/-- The absolute path without detours of what a path leads to.  The last name
may be missing, so that paths of files which are still to be made have such a
form too. -/
def canonical (files : Files) (path : Path) : Except FileFault Path :=
  match files.locate path with
  | .ok location => .ok (Location.path location)
  | .error _ =>
      match path.parent?.map files.locate, path.fileName? with
      | some (.ok location), some name =>
          .ok ((Location.path location).child name)
      | _, _ => .error (.missing path)

end Files

end PackageLayers

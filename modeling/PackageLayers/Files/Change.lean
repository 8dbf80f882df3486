/-
Purpose: Making, replacing and removing files, and documents in them.
Main exports: Files.withDirectories?, Files.store, Files.remove?, documentText,
  Files.document?
-/
import PackageLayers.Files.Resolve
import PackageLayers.Json.Printer
import PackageLayers.Json.Reader

namespace PackageLayers.Files

/-!
A file is stored as a whole: either all of it is there afterwards, in place of
what was there, or nothing has changed but that directories on the way to it may
have been made.
-/

/-- Follow steps from a location and make the directories that are missing; none
if a file is in the way. -/
def makeAlong (files : Files) :
    (here : Location) → List String → Option (Files × Location)
  | here, [] => if files.isDirectory here then some (files, here) else none
  | here, step :: rest =>
      if !files.isDirectory here then none
      else if step = "." then makeAlong files here rest
      else if step = ".." then makeAlong files here.dropLast rest
      else if (files.get? (here ++ [step])).isSome then
        makeAlong files (here ++ [step]) rest
      else
        makeAlong (files.put (here ++ [step]) .directory) (here ++ [step]) rest

/-- The files with all directories on a path made, and the location of its
end. -/
def withDirectories? (files : Files) (path : Path) :
    Option (Files × Location) :=
  if path.isAbsolute then files.makeAlong [] path.steps else none

/-- Whether the file at a location can be run. -/
def isExecutable (files : Files) (location : Location) : Bool :=
  (files.file? location).any File.executable

/-- The files with a content stored at a path.  A file that is replaced can be
run if it could before. -/
def store (files : Files) (path : Path) (content : Content) (modified : Nat) :
    Except FileFault Files :=
  let directory := directoryOf path
  match files.withDirectories? directory, path.fileName? with
  | none, _ => .error (.directoryNotMade directory)
  | some _, none => .error (.notReplaced path)
  | some (files, parent), some name =>
      let location := parent ++ [name]
      if files.isDirectory location then .error (.notReplaced path)
      else
        .ok
          (files.put location
            (.file
              { content := content
                modified := .ofMilliseconds modified
                executable := files.isExecutable location }))

/-- The files without what a path leads to; none if it leads nowhere. -/
def remove? (files : Files) (path : Path) : Option Files :=
  match files.locate path with
  | .ok location => some (files.removeUnder location)
  | .error _ => none

end PackageLayers.Files

/-! ### Documents -/

namespace PackageLayers

/-- The text of a file that holds a document. -/
def documentText (value : Json) : String :=
  value.renderIndented ++ "\n"

/-- What the document at a path writes; nothing if there is no file. -/
def Files.document? {α : Type} (files : Files) (path : Path)
    (decode : Json → Option α) : Except FileFault (Option α) :=
  if !files.hasEntry path then .ok none
  else
    match files.textOf? path with
    | none => .error (.unreadable path)
    | some text =>
        match (Json.read? text).bind decode with
        | some value => .ok (some value)
        | none => .error (.malformed path)

end PackageLayers

/-
Purpose: Trees of files, and walks through them that pass directories over.
Main exports: FileTree, Visit, FileTree.walk, Files.tree
-/
import PackageLayers.Files.Resolve
import PackageLayers.Sorting

namespace PackageLayers

/-!
A walk starts at a root and visits a directory before what is in it, and what is
in it in the order of names.  What does not pass a test is not visited, and
nothing in a directory is that does not pass.

Links are visited and not followed, except that a root that is a link to a
directory is walked as that directory.  A directory that cannot be read is walked
as one that holds nothing.
-/

/-- What something is that a walk comes to. -/
inductive FileKind where
  | regular
  | other
  | directory
deriving Repr, Inhabited, DecidableEq

/-- What is at a place and below it.  A link is something other than a regular file
or a directory, wherever it leads. -/
inductive FileTree where
  | regular
  | other
  | directory (entries : List (String × FileTree))
deriving Repr, Inhabited

/-- Something that a walk comes to: by which path, how many names below the root,
and what it is. -/
structure Visit where
  path : Path
  depth : Nat
  kind : FileKind
deriving Repr, Inhabited, DecidableEq

/-- The name of what is visited: the last of its path, or the whole path if that
ends in no name. -/
def Visit.name (visit : Visit) : String :=
  visit.path.fileName?.getD visit.path.text

/-- A path followed by names. -/
def Path.descend (path : Path) (names : List String) : Path :=
  names.foldl Path.child path

namespace FileTree

/-- The tree of an entry; a directory has entries of its own. -/
def ofEntry (entries : List (String × FileTree)) : Option Entry → FileTree
  | some (.file _) => .regular
  | some .directory => .directory entries
  | none => .other

mutual

/-- What a walk visits that starts at a path, at some depth. -/
def walk (passes : Visit → Bool) (path : Path) (depth : Nat) :
    FileTree → List Visit
  | .regular => [⟨path, depth, .regular⟩].filter passes
  | .other => [⟨path, depth, .other⟩].filter passes
  | .directory entries =>
      if passes ⟨path, depth, .directory⟩ then
        ⟨path, depth, .directory⟩ ::
          (sortBy (fun first second => first.1 ≤ second.1)
            (walkEntries passes path (depth + 1) entries)).flatMap Prod.snd
      else []

/-- What is visited at and below each entry of a directory. -/
def walkEntries (passes : Visit → Bool) (path : Path) (depth : Nat) :
    List (String × FileTree) → List (String × List Visit)
  | [] => []
  | (name, tree) :: rest =>
      (name, tree.walk passes (path.child name) depth) ::
        walkEntries passes path depth rest

end

end FileTree

namespace Files

/-- The names in a directory. -/
def namesIn (files : Files) (location : Location) : List String :=
  files.entries.filterMap fun entry =>
    if entry.1.dropLast = location then entry.1.getLast? else none

/-- What is at a location and some number of names below it. -/
def treeTo (files : Files) : (depth : Nat) → Location → FileTree
  | 0, location => .ofEntry [] (files.get? location)
  | depth + 1, location =>
      .ofEntry
        ((files.namesIn location).map fun name =>
          (name, files.treeTo depth (location ++ [name])))
        (files.get? location)

/-- The greatest number of names that lead to an entry. -/
def height (files : Files) : Nat :=
  (files.entries.map fun entry => entry.1.length).foldr max 0

/-- What is at a location and below it. -/
def tree (files : Files) (location : Location) : FileTree :=
  files.treeTo files.height location

end Files

end PackageLayers

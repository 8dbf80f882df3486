/-
Purpose: Finding the manifests of a project, and what each contributes to its map.
Main exports: manifestName, isExcluded, scan, manifestsBelow, Discovery, Discovery.ofFile?
-/
import PackageLayers.Files.Walk
import PackageLayers.Manifest.Outline

namespace PackageLayers.Project

/-!
A manifest is a regular file `Package.swift`.  A scan walks from a root and passes
over directories of kinds that hold copies or products of a build, and over those
at or below an excluded one.  The root itself is entered whatever its name.
-/

/-- The file name of manifests. -/
def manifestName : String := "Package.swift"

/-- Names of directories that hold nothing of the project's own. -/
def foreignDirectories : List String :=
  [".build", ".git", ".swiftpm", "DerivedData", "Pods", "Carthage",
    "node_modules"]

/-- Whether a scan passes over what it comes to. -/
def isExcluded (excluded : List Path) (visit : Visit) : Bool :=
  if visit.kind ≠ .directory ∨ visit.depth = 0 then false
  else
    foreignDirectories.contains visit.name ||
      excluded.any fun directory => visit.path.isBelow directory

/-- The manifests in a tree, by the paths that lead to them from a root and in the
order of these. -/
def scan (tree : FileTree) (root : Path) (excluded : List Path) : List Path :=
  let visits := tree.walk (fun visit => !isExcluded excluded visit) root 0
  let manifests := visits.filter fun visit =>
    visit.kind == .regular && visit.name == manifestName
  sortBy (fun first second => !second.precedes first) (manifests.map Visit.path)

/-- The manifests that a scan from a path finds; from one that leads nowhere it
finds none. -/
def manifestsBelow (files : Files) (root : Path) (excluded : List Path) :
    List Path :=
  match files.locate root with
  | .error _ => []
  | .ok location => scan (files.tree location) root excluded

/-!
Every manifest that can be read contributes, even one without targets.  A
package without a name goes by that of its directory.
-/

/-- A package that was found. -/
structure Discovery where
  name : String
  directory : Path
  manifest : Path
  package : Manifest.Package
deriving Repr, Inhabited, DecidableEq

namespace Discovery

/-- The names of the targets. -/
def targets (discovery : Discovery) : List String :=
  discovery.package.targets.map Manifest.Target.name

/-- What a manifest with a text contributes. -/
def ofText? (manifest : Path) (text : String) : Option Discovery := do
  let package := (Manifest.Outline.ofText text).package
  let directory ← manifest.parent?
  let name ← package.name.or directory.fileName?
  pure
    { name := name
      directory := directory
      manifest := manifest
      package := package }

/-- What the manifest at a path contributes. -/
def ofFile? (files : Files) (manifest : Path) : Option Discovery :=
  (files.textOf? manifest).bind (ofText? manifest)

end Discovery

end PackageLayers.Project

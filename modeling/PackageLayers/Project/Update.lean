/-
Purpose: Keeping the map of a project up to date.
Main exports: UpdateSummary, mapPath, storedMap, updateMap
-/
import PackageLayers.Files.Change
import PackageLayers.Project.Document
import PackageLayers.Project.Edges
import PackageLayers.Project.Merge
import PackageLayers.World

namespace PackageLayers.Project

/-!
An update finds all manifests, adds what they say to the stored map, makes the
graph of packages anew, and stores the result if it differs from what was stored
in more than the moment of its making.  Nothing is stored over a map that cannot
be read.
-/

/-- What an update did: whether the stored map changed, and how many manifests
there are. -/
structure UpdateSummary where
  changed : Bool
  scanned : Nat
deriving Repr, Inhabited, DecidableEq

/-- The file of the map in a cache directory. -/
def mapPath (cache : Path) : Path :=
  cache.child "project-map.json"

/-- The map that is stored in a cache directory, if there is one. -/
def storedMap? (files : Files) (cache : Path) :
    Except FileFault (Option ProjectMap) :=
  files.document? (mapPath cache) ProjectMap.ofJson?

/-- The map that is stored in a cache directory, or an empty one. -/
def storedMap (files : Files) (cache : Path) : Except FileFault ProjectMap :=
  (storedMap? files cache).map fun map => map.getD {}

/-- The manifests of a project. -/
def manifestsOf (files : Files) (root cache : Path) : List Path :=
  manifestsBelow files root [cache]

/-- What the manifests of a project contribute. -/
def discoveriesOf (files : Files) (root cache : Path) : List Discovery :=
  (manifestsOf files root cache).filterMap (Discovery.ofFile? files)

/-- The map after discoveries are added to a previous one. -/
def ProjectMap.updated (options : MergeOptions) (root : Path)
    (moment : Timestamp) (discoveries : List Discovery)
    (previous : ProjectMap) : ProjectMap :=
  let collected :=
    ({ previous with
        schemaVersion := ProjectMap.currentSchema } : ProjectMap).collect options
      discoveries
  { collected with graph := PackageGraph.ofDiscoveries root moment discoveries }

/-- Whether a map differs from what was stored before. -/
def differs (previous : Option ProjectMap) (map : ProjectMap) : Bool :=
  previous.map ProjectMap.timeless != some map.timeless

/-- Bring the stored map of a project up to date. -/
def updateMap (options : MergeOptions) (root cache : Path) (world : World) :
    Except FileFault (UpdateSummary × World) := do
  let previous ← storedMap? world.files cache
  let map :=
    (previous.getD {}).updated options root world.moment
      (discoveriesOf world.files root cache)
  let changed := differs previous map
  let summary :=
    { changed := changed
      scanned := (manifestsOf world.files root cache).length }
  if changed then
    let world ←
      world.store (mapPath cache) (.text (documentText map.toJson))
    pure (summary, world)
  else pure (summary, world)

end PackageLayers.Project

/-
Purpose: Graphs kept in memory and on disk.
Main exports: GraphCache, GraphCache.graph?, GraphCache.rebuild?,
  GraphCache.invalidate
-/
import PackageLayers.Files.Change
import PackageLayers.Graph.Document
import PackageLayers.Manifest.Reading
import PackageLayers.Path.Key

namespace PackageLayers

open Manifest (Reader)

/-!
The graph of a manifest is kept in memory and in a file, both under the canonical
path of the manifest.  A kept graph counts only if the manifest has the time of
change that it had when the graph was built, in whole milliseconds.  The file must
also say that it is of this manifest, since two paths may share the name of a file.
A manifest whose time cannot be told so has no graph.

A file that cannot be read counts as no file; one that cannot be written is not
needed.
-/

/-- Graphs of manifests in memory, and the directory of those on disk, where
files are named by `nameOf`. -/
structure GraphCache where
  directory : Path
  nameOf : Path → String := Path.key
  memory : Dict Graph := Dict.empty

/-- The cache after an operation, the world after it, and its result. -/
structure Cached (α : Type) where
  value : α
  cache : GraphCache
  world : World

namespace GraphCache

/-- The number of graphs in memory. -/
def size (cache : GraphCache) : Nat :=
  cache.memory.entries.length

/-- The cache with nothing in memory. -/
def clear (cache : GraphCache) : GraphCache :=
  { cache with memory := Dict.empty }

/-- The file for the graph of a manifest. -/
def fileFor (cache : GraphCache) (manifest : Path) : Path :=
  cache.directory.child (cache.nameOf manifest ++ ".json")

/-- The cache with a graph in memory. -/
def remember (cache : GraphCache) (manifest : Path) (graph : Graph) :
    GraphCache :=
  { cache with memory := cache.memory.insert manifest.text graph }

/-- The cache without the graph of a manifest in memory. -/
def forget (cache : GraphCache) (manifest : Path) : GraphCache :=
  { cache with memory := cache.memory.erase manifest.text }

/-- Whether a stored graph is that of a manifest with a time of change. -/
def isCurrent (manifest : Path) (modified : Nat) (graph : Graph) : Bool :=
  graph.schemaVersion == Graph.currentSchema && graph.modified == modified &&
    graph.manifest.sameAs manifest

/-- The graph in memory, if it counts. -/
def fromMemory? (cache : GraphCache) (manifest : Path) (modified : Nat) :
    Option Graph :=
  (cache.memory.get? manifest.text).filter fun graph =>
    graph.modified == modified

/-- The graph on disk, if it counts. -/
def fromDisk? (cache : GraphCache) (files : Files) (manifest : Path)
    (modified : Nat) : Option Graph :=
  match files.document? (cache.fileFor manifest) Graph.ofJson? with
  | .ok (some graph) => if isCurrent manifest modified graph then some graph
      else none
  | _ => none

/-- The world with a graph on disk. -/
def stored (cache : GraphCache) (manifest : Path) (graph : Graph)
    (world : World) : World :=
  match world.store (cache.fileFor manifest)
    (.text (documentText graph.toJson)) with
  | .ok world => world
  | .error _ => world

/-- Build the graph of a manifest from what a reader reads, and keep it. -/
def build (cache : GraphCache) (reader : Reader) (manifest : Path)
    (modified : Nat) (world : World) : Cached (Option Graph) :=
  match reader.read manifest world with
  | (.error _, world) => { value := none, cache := cache, world := world }
  | (.ok package, world) =>
      let graph := Graph.ofPackage package manifest modified
      { value := some graph
        cache := cache.remember manifest graph
        world := cache.stored manifest graph world }

/-- The canonical path of a manifest and its time of change in milliseconds, if
that can be told. -/
def identify? (files : Files) (manifest : Path) : Option (Path × Nat) :=
  match files.canonical manifest with
  | .error _ => none
  | .ok path =>
      (files.fileOf? path).bind fun file =>
        file.modified.milliseconds?.map fun modified => (path, modified)

/-- The graph of a manifest, from memory, from disk, or newly built. -/
def graph? (cache : GraphCache) (reader : Reader) (manifest : Path)
    (world : World) : Cached (Option Graph) :=
  match identify? world.files manifest with
  | none => { value := none, cache := cache, world := world }
  | some (path, modified) =>
      match cache.fromMemory? path modified with
      | some graph => { value := some graph, cache := cache, world := world }
      | none =>
          match cache.fromDisk? world.files path modified with
          | some graph =>
              { value := some graph
                cache := cache.remember path graph
                world := world }
          | none => cache.build reader path modified world

/-- The path under which the graph of a manifest is kept. -/
def placeOf (files : Files) (manifest : Path) : Path :=
  match files.canonical manifest with
  | .ok path => path
  | .error _ => manifest

/-- The world without the file of a graph. -/
def discarded (cache : GraphCache) (manifest : Path) (world : World) : World :=
  let file := cache.fileFor manifest
  match world.files.fileOf? file, world.files.remove? file with
  | some _, some files => { world with files := files }
  | _, _ => world

/-- Drop the graph of a manifest from memory and disk. -/
def invalidate (cache : GraphCache) (manifest : Path) (world : World) :
    GraphCache × World :=
  let place := placeOf world.files manifest
  (cache.forget place, cache.discarded place world)

/-- Build the graph of a manifest anew. -/
def rebuild? (cache : GraphCache) (reader : Reader) (manifest : Path)
    (world : World) : Cached (Option Graph) :=
  let (cache, world) := cache.invalidate manifest world
  match identify? world.files manifest with
  | none => { value := none, cache := cache, world := world }
  | some (path, modified) => cache.build reader path modified world

end GraphCache

end PackageLayers

/-
Purpose: What a cache keeps that is asked for the graph of one manifest.
Main exports: GraphCache.KeepsOnly, GraphCache.KeepsOnly.look,
  GraphCache.KeepsOnly.invalidate
-/
import PackageLayers.Proofs.Graph.Transparency

namespace PackageLayers

open Manifest (Reader)

/-!
A manifest that is edited may have the time of change that it had before, so that
nothing tells an old graph from a new one.  What then keeps a cache true is that
the old graph is dropped.  That leaves nothing of it behind: in memory a graph is
under the path of its manifest, and on disk in the file for it, which is found by
its path, since it was stored there.  What is kept of other manifests does not
matter.
-/

/-- Whether a path is that of a name in a directory with an absolute path. -/
def Path.IsChild (path : Path) : Prop :=
  ∃ (directory : Path) (name : String), directory.isAbsolute ∧ IsName name ∧
    path = directory.child name

namespace GraphCache

variable {cache : GraphCache} {world later : World} {reader : Reader}
  {path manifest : Path} {graph : Graph} {file : File}

/-- Whether all that a cache keeps of the manifest with a canonical path is one
graph: under the path in memory, in the file for the manifest, in both or in
neither. -/
structure KeepsOnly (path : Path) (graph : Graph) (cache : GraphCache)
    (world : World) : Prop where
  memory : ∀ other, cache.memory.get? path.text = some other → other = graph
  disk : ∀ location, cache.Owns location → ∀ other,
    Writes world.files location other → other.manifest.sameAs path →
      other = graph ∧ location = (cache.fileFor path).place
  led : (world.files.file? (cache.fileFor path).place).isSome →
    (world.files.fileOf? (cache.fileFor path)).isSome

/-- A file that is stored stays what another path leads to. -/
theorem fileOf_of_store {content : Content} {other : Path}
    (stored : world.store other content = .ok later)
    (apart : path.place ≠ other.place)
    (led : (world.files.fileOf? path).isSome) :
    (later.files.fileOf? path).isSome := by
  have put := (World.files_of_store stored).1
  obtain ⟨file, found⟩ := Option.isSome_iff_exists.mp led
  obtain ⟨location, located, here⟩ := Files.fileOf_eq.mp found
  have place := Files.place_of_locate located
  rw [Option.isSome_iff_exists]
  refine ⟨file, Files.fileOf_eq.mpr ⟨location, Files.locate_store put located, ?_⟩⟩
  rw [Files.file_store put location (place ▸ apart), here]

/-- The file for a manifest is gone when it was dropped, if its path led to
it. -/
theorem file_of_discarded_place
    (led : (world.files.file? (cache.fileFor path).place).isSome →
      (world.files.fileOf? (cache.fileFor path)).isSome) :
    (cache.discarded path world).files.file? (cache.fileFor path).place = none := by
  unfold discarded
  dsimp only
  cases found : world.files.fileOf? (cache.fileFor path) with
  | none =>
      rw [found, Option.isSome_none] at led
      simpa using led
  | some file =>
      obtain ⟨location, located, here⟩ := Files.fileOf_eq.mp found
      have removed : world.files.remove? (cache.fileFor path) =
          some (world.files.removeUnder location) := by
        rw [Files.remove?, located]
      rw [removed]
      dsimp only
      rw [Files.file_removeUnder, Files.place_of_locate located,
        if_pos (List.prefix_refl _)]

/-- A canonical path is the one under which a graph is kept. -/
theorem placeOf_canonical (files : Files) (canonical : path.place.path = path) :
    placeOf files path = path := by
  rw [placeOf]
  split
  · rename_i other found
    rw [(Files.canonical_place found).2, canonical]
  · rfl

namespace KeepsOnly

/-- A cache with nothing in memory and no files keeps nothing but what it may. -/
theorem of_bare (empty : cache.memory = Dict.empty)
    (bare : ∀ location, cache.Owns location →
      world.files.file? location = none) : KeepsOnly path graph cache world where
  memory other found := by
    rw [empty, Dict.get?_empty] at found
    cases found
  disk location owned other := fun ⟨file, _, found, _⟩ => by
    rw [bare location owned] at found
    cases found
  led here := by
    rw [bare _ ⟨path, rfl⟩] at here
    cases here

/-- What is kept is a matter of the cache's files. -/
theorem of_files (keeps : KeepsOnly path graph cache world)
    (still : ∀ location, cache.Owns location →
      later.files.file? location = world.files.file? location)
    (led : (world.files.fileOf? (cache.fileFor path)).isSome →
      (later.files.fileOf? (cache.fileFor path)).isSome) :
    KeepsOnly path graph cache later where
  memory := keeps.memory
  disk location owned other writes := by
    rw [Writes, still location owned] at writes
    exact keeps.disk location owned other writes
  led here := by
    rw [still _ ⟨path, rfl⟩] at here
    exact led (keeps.led here)

/-- To store what is none of the cache's files changes nothing. -/
theorem of_store (keeps : KeepsOnly path graph cache world) {content : Content}
    {other : Path} (stored : world.store other content = .ok later)
    (foreign : ¬cache.Owns other.place) : KeepsOnly path graph cache later := by
  refine keeps.of_files (fun location owned => ?_) (fileOf_of_store stored ?_)
  · refine Files.file_store (World.files_of_store stored).1 location ?_
    rintro rfl
    exact foreign owned
  · exact fun same => foreign (same ▸ ⟨path, rfl⟩)

/-- To store the graph leaves it the only one. -/
theorem stored (keeps : KeepsOnly path graph cache world)
    (home : (cache.fileFor path).IsChild) :
    KeepsOnly path graph cache (cache.stored path graph world) := by
  unfold GraphCache.stored
  split
  · rename_i later put
    have text := (World.files_of_store put).1
    refine
      { memory := keeps.memory
        disk := fun location owned other ⟨file, written, found, content, read⟩ => ?_
        led := fun _ => ?_ }
    · by_cases here : location = (cache.fileFor path).place
      · obtain ⟨executable, same⟩ := Files.file_store_place text
        rw [here, same, Option.some.injEq] at found
        subst found
        have whole : documentText graph.toJson = written := Option.some.inj content
        subst whole
        rw [Graph.eq_of_read read]
        exact fun _ => ⟨rfl, here⟩
      · rw [Files.file_store text location here] at found
        exact keeps.disk location owned other ⟨file, written, found, content, read⟩
    · obtain ⟨directory, name, absolute, named, same⟩ := home
      rw [same] at text ⊢
      have held := Files.textOf_store_child absolute named text
      rw [Files.textOf?, Option.bind_eq_some_iff] at held
      exact Option.isSome_iff_exists.mpr ⟨_, held.choose_spec.1⟩
  · exact keeps

theorem remember (keeps : KeepsOnly path graph cache world) :
    KeepsOnly path graph (cache.remember path graph) world where
  memory other found := by
    rw [GraphCache.remember, Dict.get?_insert, if_pos rfl] at found
    exact (Option.some.inj found).symm
  disk := keeps.disk
  led := keeps.led

/-- The graph of the manifest is what is found or built, if the time of the manifest can
be told, and what is kept then. -/
theorem look {modified : Nat} (keeps : KeepsOnly path graph cache world)
    (home : (cache.fileFor path).IsChild) (syntactic : reader.IsSyntactic)
    (canonical : world.files.canonical manifest = .ok path)
    (found : world.files.fileOf? path = some file)
    (told : file.modified.milliseconds? = some modified)
    (built : Graph.ofFile? path file = some graph) :
    (cache.graph? reader manifest world).value = some graph ∧
      KeepsOnly path graph (cache.graph? reader manifest world).cache
        (cache.graph? reader manifest world).world := by
  have same : identify? world.files manifest = some (path, modified) := by
    rw [identify?, canonical]
    dsimp only
    rw [found, Option.bind_some, told, Option.map_some]
  unfold graph?
  rw [same]
  dsimp only
  cases memory : cache.fromMemory? path modified with
  | some kept =>
      rw [fromMemory?, Option.filter_eq_some_iff] at memory
      exact ⟨congrArg some (keeps.memory kept memory.1), keeps⟩
  | none =>
      dsimp only
      cases disk : cache.fromDisk? world.files path modified with
      | some kept =>
          obtain ⟨read, names, -⟩ := current_of_fromDisk disk
          obtain ⟨rfl, -⟩ := keeps.disk _ ⟨_, rfl⟩ kept (writes_of_document read) names
          exact ⟨rfl, keeps.remember⟩
      | none =>
          have made : cache.build reader path modified world = _ :=
            build_of_syntactic syntactic found told
          rw [built] at made
          dsimp only at made ⊢
          rw [made]
          have stored := (keeps.stored home).remember
          refine ⟨rfl, ?_⟩
          dsimp only
          generalize cache.stored path graph world = written at stored ⊢
          exact stored

/-- Once the graph is dropped nothing is kept of the manifest. -/
theorem invalidate (keeps : KeepsOnly path graph cache world)
    (canonical : path.place.path = path) (next : Graph) :
    KeepsOnly path next (cache.invalidate path world).1
      (cache.invalidate path world).2 := by
  have place := placeOf_canonical world.files canonical
  have gone := file_of_discarded_place keeps.led
  unfold GraphCache.invalidate
  dsimp only
  rw [place]
  refine
    { memory := fun other found => ?_
      disk := fun location owned other ⟨file, written, found, content, read⟩ names => ?_
      led := fun here => ?_ }
  · rw [forget, Dict.get?_erase, if_pos rfl] at found
    cases found
  · -- what is still there was there before, in another file than the one for it
    obtain ⟨-, rfl⟩ := keeps.disk location owned other
      ⟨file, written, file_of_discarded found, content, read⟩ names
    rw [gone] at found
    cases found
  · have nothing : (cache.discarded path world).files.file?
        ((cache.forget path).fileFor path).place = none := gone
    rw [nothing] at here
    cases here

end KeepsOnly

end GraphCache

end PackageLayers

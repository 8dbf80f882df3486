/-
Purpose: What a service knows of a manifest that only it changes.
Main exports: Service.IsApart, Session.Tracks, Session.Tracks.refreshed,
  Session.Tracks.look, Session.Tracks.rewritten, Session.Tracks.patched
-/
import PackageLayers.Proofs.Graph.Growing
import PackageLayers.Proofs.Graph.OneManifest
import PackageLayers.Proofs.Project.Scanning
import PackageLayers.Proofs.Resolution.Frame

namespace PackageLayers

open Manifest (Reader)

/-!
A service that is asked about one manifest knows the graph of its text as it is.
To look at it changes files of the service only; to edit it makes the graph of the
new text, and what was kept of the old one is dropped before anything is asked
again.
-/

/-! ### Paths that lead to a manifest still -/

namespace GraphCache

variable {cache : GraphCache} {world : World} {reader : Reader}
  {manifest path : Path} {location : Location}

/-- To look up a graph changes no file, or stores the file for it. -/
theorem look_cases (syntactic : reader.IsSyntactic) :
    (cache.graph? reader manifest world).world = world ∨
      ∃ text, world.store (cache.fileFor manifest.place.path) (.text text) =
        .ok (cache.graph? reader manifest world).world := by
  unfold graph?
  split
  · exact Or.inl rfl
  · rename_i canonical modified same
    obtain ⟨file, -, named, found, -, told⟩ := identified same
    split
    · exact Or.inl rfl
    · split
      · exact Or.inl rfl
      · rw [build_of_syntactic syntactic found told, ← named]
        cases Graph.ofFile? canonical file with
        | none => exact Or.inl rfl
        | some graph =>
            unfold stored
            dsimp only
            split
            · rename_i later put
              exact Or.inr ⟨_, put⟩
            · exact Or.inl rfl

/-- To drop a graph changes no file, or removes the file for it. -/
theorem invalidate_cases (cache : GraphCache) (manifest : Path) (world : World) :
    let place := (cache.fileFor (placeOf world.files manifest)).place
    (cache.invalidate manifest world).2 = world ∨
      ∃ file, world.files.file? place = some file ∧
        (cache.invalidate manifest world).2 =
          { world with files := world.files.removeUnder place } := by
  unfold invalidate discarded
  dsimp only
  split
  · rename_i file files found removed
    obtain ⟨place, there, here⟩ := Files.fileOf_eq.mp found
    rw [Files.remove?, there] at removed
    cases removed
    rw [Files.place_of_locate there] at here ⊢
    exact Or.inr ⟨file, here, rfl⟩
  · exact Or.inl rfl

/-- To look up a graph is in no path's way. -/
theorem locate_look (syntactic : reader.IsSyntactic)
    (located : world.files.locate path = .ok location) :
    (cache.graph? reader manifest world).world.files.locate path = .ok location := by
  rcases @look_cases cache world reader manifest syntactic with same | ⟨text, put⟩
  · rw [same]
    exact located
  · exact Files.locate_store (World.files_of_store put).1 located

/-- To drop a graph is in no way of a path that leads elsewhere. -/
theorem locate_invalidate (aside : cache.IsAside location)
    (located : world.files.locate path = .ok location) :
    (cache.invalidate manifest world).2.files.locate path = .ok location := by
  rcases invalidate_cases cache manifest world with
    same | ⟨file, here, same⟩
  · rw [same]
    exact located
  · rw [same]
    refine Files.locate_removeUnder here ?_ located
    rintro rfl
    exact aside _ (List.prefix_refl _)

end GraphCache

namespace Resolution

open Manifest (Patch addTarget)
open Project (mapPath)

namespace Service

/-- Whether a service reads manifests from their text only, and keeps its map, its
graphs and a manifest in different files. -/
structure IsApart (service : Service) (manifest : Path) : Prop where
  syntactic : service.reader.IsSyntactic
  foreign : ¬service.Owns manifest.place
  separate : ¬service.cache.Owns (mapPath service.cacheDirectory).place
  home : (service.cache.fileFor manifest.place.path).IsChild

variable {service later : Service} {manifest : Path}

theorem IsApart.continues (apart : service.IsApart manifest)
    (continues : Continues service later) : later.IsApart manifest where
  syntactic := continues.reader ▸ apart.syntactic
  foreign := continues.owns ▸ apart.foreign
  separate := by
    have same : later.cache.Owns = service.cache.Owns := by
      funext location
      rw [GraphCache.Owns, GraphCache.Owns, continues.cache.fileFor]
    rw [same, continues.cacheDirectory]
    exact apart.separate
  home := by
    rw [continues.cache.fileFor]
    exact apart.home

/-- A service keeps its graphs under names in a directory of their own. -/
theorem IsApart.of_start {files : Files} {root : Path} {settings : Settings}
    (started : start files root settings = .ok service)
    (syntactic : service.reader.IsSyntactic) (foreign : ¬service.Owns manifest.place) :
    service.IsApart manifest := by
  obtain ⟨absolute, empty⟩ := start_eq started
  have inner : (service.cacheDirectory.child "graphs").isAbsolute :=
    isAbsolute_join absolute
  have graphs (path : Path) : service.cache.fileFor path =
      (service.cacheDirectory.child "graphs").child (path.key ++ ".json") := by
    rw [empty]
    rfl
  have named (path : Path) : IsName (path.key ++ ".json") :=
    isName_json (plain_key path)
  refine ⟨syntactic, foreign, ?_, ⟨_, _, inner, named _, graphs _⟩⟩
  rintro ⟨other, same⟩
  rw [graphs, Path.place_child _ (named other),
    Path.place_child _ (by decide), mapPath,
    Path.place_child _ Project.isName_mapFile, List.append_assoc] at same
  exact absurd (congrArg List.length same) (by simp)

theorem IsApart.not_owns (apart : service.IsApart manifest) :
    ¬service.cache.Owns manifest.place := by
  rintro ⟨other, same⟩
  refine apart.foreign (Or.inr ⟨other, ?_⟩)
  rw [same]

end Service

namespace Session

variable {session : Session} {manifest : Path} {graph : Graph}

/-- Where a graph is found, the edge is judged by it. -/
theorem ensure_of_graph {origin destination : String} {mode : Mode} {looked : Session}
    (found : (session.refreshed false).graph? manifest = (some graph, looked)) :
    session.ensure manifest origin destination mode =
      match looked.judge graph origin destination with
      | .error answer => (answer, looked)
      | .ok context =>
          if mode.allowsWrite then looked.fix graph.manifest origin destination context
          else
            (looked.suggest graph.manifest origin destination context, looked) := by
  unfold ensure
  generalize (session.refreshed false).graph? manifest = lookup at found
  cases found
  rfl

/-- Where no graph is found, nothing is judged. -/
theorem ensure_of_none {origin destination : String} {mode : Mode} {looked : Session}
    (found : (session.refreshed false).graph? manifest = (none, looked)) :
    session.ensure manifest origin destination mode =
      (.failed (.parseUnavailable manifest), looked) := by
  unfold ensure
  generalize (session.refreshed false).graph? manifest = lookup at found
  cases found
  rfl

/-- Whether the time of change of a manifest can be told. -/
def IsDated (session : Session) (manifest : Path) : Prop :=
  ∃ file, session.world.files.file? manifest.place = some file ∧
    file.modified.milliseconds?.isSome

/-- Whether a manifest can be read, has a graph, and nothing but that graph is
kept. -/
structure Tracks (manifest : Path) (graph : Graph) (session : Session) : Prop where
  apart : session.service.IsApart manifest
  led : session.world.files.locate manifest = .ok manifest.place
  ledCanonical : session.world.files.locate manifest.place.path = .ok manifest.place
  file : ∃ file text, session.world.files.file? manifest.place = some file ∧
    file.content = .text text ∧ Source.AllClosed (Source.ofText text) ∧
      Graph.ofFile? manifest.place.path file = some graph
  keeps : session.service.cache.KeepsOnly manifest.place.path graph session.world

namespace Tracks

/-- A manifest is tracked under all conditions. -/
theorem under (tracks : Tracks manifest graph session) (conditions : Conditions) :
    Tracks manifest graph (session.under conditions) where
  apart := tracks.apart
  led := tracks.led
  ledCanonical := tracks.ledCanonical
  file := tracks.file
  keeps := tracks.keeps.of_files (fun _ _ => rfl) id

/-- What becomes of a session that leaves the manifest where and as it is. -/
theorem stays (tracks : Tracks manifest graph session) {later : Session}
    (continues : Service.Continues session.service later.service)
    (led : ∀ path, session.world.files.locate path = .ok manifest.place →
      later.world.files.locate path = .ok manifest.place)
    (agree : Agree session.service.Owns session.world later.world)
    (keeps : later.service.cache.KeepsOnly manifest.place.path graph later.world) :
    Tracks manifest graph later where
  apart := tracks.apart.continues continues
  led := led manifest tracks.led
  ledCanonical := led _ tracks.ledCanonical
  file := by
    rw [agree _ tracks.apart.foreign]
    exact tracks.file
  keeps := keeps

/-- A manifest that can be read and has a graph is tracked where nothing else is kept
of it. -/
theorem of_apart (apart : session.service.IsApart manifest) {text : String}
    (readable : session.world.files.textOf? manifest = some text)
    (closed : Source.AllClosed (Source.ofText text))
    (built : Graph.ofManifest? session.world.files manifest = some graph)
    (keeps : session.service.cache.KeepsOnly manifest.place.path graph
      session.world) : Tracks manifest graph session := by
  rw [Files.textOf?, Option.bind_eq_some_iff] at readable
  obtain ⟨file, found, content⟩ := readable
  obtain ⟨location, located, here⟩ := Files.fileOf_eq.mp found
  have place := Files.place_of_locate located
  subst place
  rw [Graph.ofManifest?, Files.canonical, located] at built
  simp only [Option.bind_eq_some_iff] at built
  obtain ⟨other, foundOther, built⟩ := built
  obtain ⟨location, locatedOther, hereOther⟩ := Files.fileOf_eq.mp foundOther
  have place := Files.place_of_locate locatedOther
  rw [Location.place_path manifest.isPlain_place] at place
  subst place
  obtain rfl : file = other := Option.some.inj (here.symm.trans hereOther)
  refine ⟨apart, located, locatedOther, ⟨file, text, here, ?_, closed, built⟩, keeps⟩
  cases kind : file.content with
  | text content' =>
      rw [kind] at content
      exact congrArg Content.text (Option.some.inj content)
  | binary octets =>
      rw [kind] at content
      cases content

/-- A refresh leaves the manifest and its graph alone. -/
theorem refreshed (tracks : Tracks manifest graph session) (force : Bool) :
    Tracks manifest graph (session.refreshed force) := by
  obtain ⟨cache, cases⟩ := refreshed_cases session force
  have continues := continues_refreshed session force
  have agree := agree_refreshed session force
  rcases cases with same | ⟨text, stored⟩
  · refine tracks.stays continues (fun path led => ?_) agree ?_
    · rw [same]
      exact led
    · rw [cache, same]
      exact tracks.keeps
  · refine tracks.stays continues (fun path led => ?_) agree ?_
    · exact Files.locate_store (World.files_of_store stored).1 led
    · rw [cache]
      exact tracks.keeps.of_store stored tracks.apart.separate

/-- What is looked up leads to the file of the manifest. -/
theorem identify (tracks : Tracks manifest graph session) {file : File}
    (here : session.world.files.file? manifest.place = some file) :
    GraphCache.identify? session.world.files manifest =
      file.modified.milliseconds?.map fun modified => (manifest.place.path, modified) := by
  rw [GraphCache.identify?, Files.canonical, tracks.led]
  dsimp only
  rw [Files.fileOf_eq.mpr ⟨_, tracks.ledCanonical, here⟩, Option.bind_some]

/-- The graph that is looked up is that of the manifest, and it is what is kept then.
Without a time of change that can be told there is none, and all stays. -/
theorem look (tracks : Tracks manifest graph session) :
    ((session.graph? manifest).1 = some graph ∨
        (session.graph? manifest).1 = none ∧ ¬session.IsDated manifest) ∧
      Tracks manifest graph (session.graph? manifest).2 := by
  obtain ⟨file, text, here, -, -, built⟩ := tracks.file
  have same := tracks.identify here
  cases told : file.modified.milliseconds? with
  | none =>
      rw [told, Option.map_none] at same
      have still : session.graph? manifest = (none, session) := by
        rw [graph?, withCached, GraphCache.graph?, same]
      rw [still]
      refine ⟨Or.inr ⟨rfl, ?_⟩, tracks⟩
      rintro ⟨other, found, dated⟩
      obtain rfl : file = other := Option.some.inj (here.symm.trans found)
      rw [told] at dated
      cases dated
  | some modified =>
      have canonical : session.world.files.canonical manifest =
          .ok manifest.place.path := by
        rw [Files.canonical, tracks.led]
      obtain ⟨found, keeps⟩ := tracks.keeps.look tracks.apart.home
        tracks.apart.syntactic canonical
        (Files.fileOf_eq.mpr ⟨_, tracks.ledCanonical, here⟩) told built
      refine ⟨Or.inl found, tracks.stays (continues_graph session manifest)
        (fun path led => ?_)
        (agree_graph session manifest (.of_syntactic tracks.apart.syntactic)) keeps⟩
      exact GraphCache.locate_look tracks.apart.syntactic led

theorem named (tracks : Tracks manifest graph session) :
    graph.manifest = manifest.place.path := by
  obtain ⟨file, text, -, -, -, built⟩ := tracks.file
  exact (Graph.names_of_ofFile built).1

/-- The graph of the manifest as it is. -/
theorem ofManifest (tracks : Tracks manifest graph session) :
    Graph.ofManifest? session.world.files manifest = some graph := by
  obtain ⟨file, text, here, -, -, built⟩ := tracks.file
  have found : session.world.files.fileOf? manifest.place.path = some file :=
    Files.fileOf_eq.mpr ⟨_, tracks.ledCanonical, here⟩
  rw [Graph.ofManifest?, Files.canonical, tracks.led]
  simp only [found, Option.bind_some, built]

/-- The manifest holds the text that is read there. -/
theorem holds (tracks : Tracks manifest graph session) {text : String}
    (readable : session.world.files.textOf? manifest.place.path = some text) :
    ∃ file, session.world.files.file? manifest.place = some file ∧
      file.content = .text text ∧ Source.AllClosed (Source.ofText text) ∧
      Graph.ofFile? manifest.place.path file = some graph := by
  obtain ⟨file, old, here, content, closed, built⟩ := tracks.file
  rw [Files.textOf?, Files.fileOf_eq.mpr ⟨_, tracks.ledCanonical, here⟩,
    Option.bind_some, content] at readable
  exact ⟨file, here, Option.some.inj readable ▸ content,
    Option.some.inj readable ▸ closed, built⟩

/-- When another text that declares targets is written, its graph is known, and the
old one is dropped. -/
theorem rewritten (tracks : Tracks manifest graph session) {text : String}
    {world : World} (closed : Source.AllClosed (Source.ofText text))
    (declares : (Manifest.Outline.ofText text).package.targets ≠ [])
    (written : session.world.overwrite manifest.place.path text = .ok world) :
    let dropped := ({ session with world := world } : Session).invalidate
      manifest.place.path
    ∃ later file, file.content = .text text ∧
      file.modified.milliseconds?.isSome ∧
      Graph.ofFile? manifest.place.path file = some later ∧
      dropped.world.files.file? manifest.place = some file ∧
      Tracks manifest later dropped := by
  have place : manifest.place.path.place = manifest.place :=
    Location.place_path manifest.isPlain_place
  have stored := (World.files_of_store written).1
  obtain ⟨file, here, content, dated⟩ : ∃ file,
      world.files.file? manifest.place = some file ∧
        file.content = .text text ∧ file.modified.milliseconds?.isSome := by
    obtain ⟨executable, found⟩ := Files.file_store_place stored
    rw [place] at found
    exact ⟨_, found, rfl, by rw [FileTime.milliseconds_ofMilliseconds]; rfl⟩
  have built := @Graph.ofFile_of_declares manifest.place.path file text content declares
  have aside : session.service.cache.IsAside manifest.place :=
    Service.aside_of_not_owns tracks.apart.foreign
  have led (path : Path)
      (located : session.world.files.locate path = .ok manifest.place) :
      (session.service.cache.invalidate manifest.place.path world).2.files.locate
        path = .ok manifest.place :=
    GraphCache.locate_invalidate aside (Files.locate_store stored located)
  have keeps : session.service.cache.KeepsOnly manifest.place.path graph world := by
    have ticked : session.service.cache.KeepsOnly manifest.place.path graph
        session.world.tick := tracks.keeps.of_files (fun _ _ => rfl) id
    refine ticked.of_store written ?_
    rw [place]
    exact tracks.apart.not_owns
  have kept : (session.service.cache.invalidate manifest.place.path world).2.files.file?
      manifest.place = some file := (GraphCache.file_of_invalidate aside).trans here
  generalize Graph.ofPackage _ _ _ = later at built
  refine ⟨later, file, content, dated, built, kept, ?_⟩
  exact
    { apart := tracks.apart.continues
        (continues_invalidate { session with world := world } manifest.place.path)
      led := led manifest tracks.led
      ledCanonical := led _ tracks.ledCanonical
      file := ⟨file, text, kept, content, closed, built⟩
      keeps := keeps.invalidate (by rw [place]) later }

/-- A target that is added to another in the text is a dependency in the graph of
the new text, and the old graph is dropped. -/
theorem patched (tracks : Tracks manifest graph session) {text : String}
    {origin destination : String} {patch : Patch} {world : World}
    (readable : session.world.files.textOf? manifest.place.path = some text)
    (added : addTarget text manifest.place.path origin destination = .ok patch)
    (changes : patch.changes ≠ [])
    (written : session.world.overwrite manifest.place.path patch.text = .ok world) :
    ∃ later,
      (graph.withDependency origin (.bare destination)).SameTargets later ∧
        Tracks manifest later
          (({ session with world := world } : Session).invalidate
            manifest.place.path) := by
  obtain ⟨old, -, content, closed, built⟩ := tracks.holds readable
  obtain ⟨closedLater, -, front, target, rest, -, targets⟩ :=
    Manifest.addTarget_gains closed added changes
  obtain ⟨later, file, contentLater, -, builtLater, -, tracksLater⟩ :=
    tracks.rewritten closedLater (by rw [targets]; simp) written
  obtain ⟨same, rebuilt, grown⟩ :=
    Graph.ofFile_of_addTarget built content closed added changes contentLater
  obtain rfl : later = same := Option.some.inj (builtLater.symm.trans rebuilt)
  exact ⟨later, grown, tracksLater⟩

end Tracks

end Session

end Resolution

end PackageLayers

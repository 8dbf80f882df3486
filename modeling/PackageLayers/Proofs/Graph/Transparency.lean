/-
Purpose: What is kept of a graph is what would be built.
Main exports: Graph.ofManifest?, Graph.ofDatedManifest?, GraphCache.Truthful,
  GraphCache.look_truthful, GraphCache.look_eq_ofManifest
-/
import Mathlib.Data.List.Induction
import PackageLayers.Proofs.Graph.Aside
import PackageLayers.Proofs.Graph.Documents

namespace PackageLayers

open Manifest (Package Reader)

/-!
A graph that is kept names the manifest that it was built from and the time of
change that the manifest had.  Whether it is kept in memory or on disk, under its
own name or, since two manifests may share a file, under that of another, it
answers for a manifest only if it names that manifest and its present time.  If a
manifest never has one time with two contents, then what is kept is what would be
built.

So of what is kept only this matters: every graph in memory, and every graph that
one of the cache's files writes, was built from a manifest as it was at some time
(`Truthful`).  Each operation keeps that, whatever others do to the manifests.
-/

/-! ### Graphs without a cache -/

namespace Graph

/-- The time of change of a file in milliseconds; zero if it cannot be told. -/
def dateOf (file : File) : Nat :=
  file.modified.milliseconds?.getD 0

theorem dateOf_of_told {file : File} {modified : Nat}
    (told : file.modified.milliseconds? = some modified) :
    dateOf file = modified := by
  rw [dateOf, told, Option.getD_some]

/-- The graph of the manifest with a canonical path, built from its file. -/
def ofFile? (path : Path) (file : File) : Option Graph :=
  (file.content.text?.bind Package.ofText?).bind fun package =>
    if package.targets.isEmpty then none
    else some (ofPackage (Reader.named path package) path (dateOf file))

/-- The graph of a manifest, built from its file as it is: none if there is no
file, or none that declares a target. -/
def ofManifest? (files : Files) (manifest : Path) : Option Graph :=
  match files.canonical manifest with
  | .error _ => none
  | .ok path => (files.fileOf? path).bind (ofFile? path)

/-- The graph of a manifest, built from its file as it is, if its time of change can be
told. -/
def ofDatedManifest? (files : Files) (manifest : Path) : Option Graph :=
  (GraphCache.identify? files manifest).bind fun _ => ofManifest? files manifest

variable {path : Path} {file : File} {graph : Graph}

/-- What is built names the manifest and its time. -/
theorem names_of_ofFile (built : ofFile? path file = some graph) :
    graph.manifest = path ∧ graph.modified = dateOf file := by
  rw [ofFile?, Option.bind_eq_some_iff] at built
  obtain ⟨package, -, built⟩ := built
  split at built
  · cases built
  · cases built
    exact ⟨rfl, rfl⟩

/-- What is built depends on the content of the file and on its time as it is told. -/
theorem ofFile_congr {other : File} (content : file.content = other.content)
    (modified : file.modified.milliseconds? = other.modified.milliseconds?) :
    ofFile? path file = ofFile? path other := by
  rw [ofFile?, ofFile?, dateOf, dateOf, content, modified]

end Graph

namespace Manifest.Reader

variable {reader : Reader} {path : Path} {world : World} {file : File}
  {modified : Nat}

/-- A reader that runs no program leaves the world as it is. -/
theorem read_of_syntactic (syntactic : reader.IsSyntactic)
    (found : world.files.fileOf? path = some file)
    (told : file.modified.milliseconds? = some modified) :
    (reader.read path world).2 = world ∧
      (reader.read path world).1.toOption.map
          (Graph.ofPackage · path modified) =
        Graph.ofFile? path file := by
  rw [read, syntactic.readExternally]
  simp only [readText, Files.textOf?, found, Option.bind_some, Graph.ofFile?,
    Graph.dateOf_of_told told]
  cases file.content.text?.bind Package.ofText? with
  | none => exact ⟨rfl, rfl⟩
  | some package =>
      simp only [Option.bind_some]
      split
      · exact ⟨rfl, rfl⟩
      · exact ⟨rfl, rfl⟩

end Manifest.Reader

namespace GraphCache

variable {cache : GraphCache} {world : World} {reader : Reader}
  {good : Graph → Prop} {own : Location → Prop} {graph : Graph}
  {manifest path : Path} {file : File} {modified : Nat}

/-! ### What is kept is true -/

/-- Whether the file at a location writes a graph. -/
def Writes (files : Files) (location : Location) (graph : Graph) : Prop :=
  ∃ file text, files.file? location = some file ∧
    file.content.text? = some text ∧
    (Json.read? text).bind Graph.ofJson? = some graph

/-- What is kept is good: every graph in memory, which is under the path that it
names, and every graph on disk, wherever it is. -/
structure Truthful (good : Graph → Prop) (own : Location → Prop)
    (cache : GraphCache) (world : World) : Prop where
  memory : ∀ key graph, cache.memory.get? key = some graph →
    good graph ∧ graph.manifest.text = key
  disk : ∀ location, own location → ∀ graph, Writes world.files location graph →
    good graph
  files : ∀ manifest, own (cache.fileFor manifest).place

/-- What a build returns and keeps, where no program is run. -/
theorem build_of_syntactic (syntactic : reader.IsSyntactic)
    (found : world.files.fileOf? path = some file)
    (told : file.modified.milliseconds? = some modified) :
    cache.build reader path modified world =
      match Graph.ofFile? path file with
      | none => { value := none, cache := cache, world := world }
      | some graph =>
          { value := some graph
            cache := cache.remember path graph
            world := cache.stored path graph world } := by
  obtain ⟨still, built⟩ := Reader.read_of_syntactic syntactic found told
  unfold build
  cases read : reader.read path world with
  | mk answer later =>
      rw [read] at still built
      subst still
      rw [← built]
      cases answer <;> rfl

namespace Truthful

theorem clear (truthful : Truthful good own cache world) :
    Truthful good own cache.clear world where
  memory key graph found := by
    rw [GraphCache.clear, Dict.get?_empty] at found
    cases found
  disk := truthful.disk
  files := truthful.files

theorem forget (truthful : Truthful good own cache world) (manifest : Path) :
    Truthful good own (cache.forget manifest) world where
  memory key graph found := by
    rw [GraphCache.forget, Dict.get?_erase] at found
    split at found
    · cases found
    · exact truthful.memory key graph found
  disk := truthful.disk
  files := truthful.files

theorem remember (truthful : Truthful good own cache world)
    (isGood : good graph) (named : graph.manifest.text = manifest.text) :
    Truthful good own (cache.remember manifest graph) world where
  memory key other found := by
    rw [GraphCache.remember, Dict.get?_insert] at found
    split at found
    · rename_i same
      cases found
      exact ⟨isGood, named.trans same.symm⟩
    · exact truthful.memory key other found
  disk := truthful.disk
  files := truthful.files

/-- Another world is as good if its files write good graphs. -/
theorem of_disk (truthful : Truthful good own cache world) {later : World}
    (disk : ∀ location, own location → ∀ graph, Writes later.files location graph →
      good graph) : Truthful good own cache later where
  memory := truthful.memory
  disk := disk
  files := truthful.files

/-- Files of the cache that are gone, or as they were, are no worse. -/
theorem of_kept (truthful : Truthful good own cache world) {later : World}
    (kept : ∀ location, own location → ∀ file,
      later.files.file? location = some file →
        world.files.file? location = some file) :
    Truthful good own cache later :=
  truthful.of_disk fun location owned graph ⟨file, text, found, written, read⟩ =>
    truthful.disk location owned graph
      ⟨file, text, kept location owned file found, written, read⟩

theorem stored (truthful : Truthful good own cache world) (isGood : good graph)
    (manifest : Path) :
    Truthful good own cache (cache.stored manifest graph world) := by
  unfold GraphCache.stored
  split
  · rename_i later put
    have stored := (World.files_of_store put).1
    refine truthful.of_disk fun location owned other ⟨file, text, found, written, read⟩ => ?_
    by_cases here : location = (cache.fileFor manifest).place
    · obtain ⟨executable, same⟩ := Files.file_store_place stored
      rw [here, same, Option.some.injEq] at found
      subst found
      have whole : documentText graph.toJson = text := Option.some.inj written
      subst whole
      rw [Graph.eq_of_read read]
      exact isGood
    · rw [Files.file_store stored location here] at found
      exact truthful.disk location owned other ⟨file, text, found, written, read⟩
  · exact truthful

theorem discarded (truthful : Truthful good own cache world) (manifest : Path) :
    Truthful good own cache (cache.discarded manifest world) :=
  truthful.of_kept fun _ _ _ => file_of_discarded

theorem invalidate (truthful : Truthful good own cache world) (manifest : Path) :
    Truthful good own (cache.invalidate manifest world).1
      (cache.invalidate manifest world).2 :=
  (truthful.discarded _).forget _

/-- To build a good graph keeps the cache truthful. -/
theorem build (truthful : Truthful good own cache world)
    (syntactic : reader.IsSyntactic) (found : world.files.fileOf? path = some file)
    (told : file.modified.milliseconds? = some modified)
    (fresh : ∀ graph, Graph.ofFile? path file = some graph → good graph) :
    Truthful good own (cache.build reader path modified world).cache
      (cache.build reader path modified world).world := by
  rw [build_of_syntactic syntactic found told]
  cases built : Graph.ofFile? path file with
  | none => exact truthful
  | some graph =>
      have named := (Graph.names_of_ofFile built).1
      dsimp only
      exact (truthful.stored (fresh graph built) path).remember
        (fresh graph built) (by rw [named])

end Truthful

/-! ### Answers -/

/-- Whether what is good answers for a manifest with a file and a time: what would be
built is good, and nothing else is that names the manifest and the time. -/
structure Answers (good : Graph → Prop) (path : Path) (file : File)
    (modified : Nat) : Prop where
  fresh : ∀ graph, Graph.ofFile? path file = some graph → good graph
  exact : ∀ graph, good graph → graph.manifest.sameAs path →
    graph.modified = modified → Graph.ofFile? path file = some graph

/-- A manifest that is identified is the file at its place, and its time can be
told. -/
theorem identified {files : Files}
    (same : identify? files manifest = some (path, modified)) :
    ∃ file, files.canonical manifest = .ok path ∧ path = manifest.place.path ∧
      files.fileOf? path = some file ∧ files.file? manifest.place = some file ∧
      file.modified.milliseconds? = some modified := by
  obtain ⟨canonical, file, found, time⟩ := canonical_of_identify same
  obtain ⟨-, named⟩ := Files.canonical_place canonical
  obtain ⟨location, located, here⟩ := Files.fileOf_eq.mp found
  have place := Files.place_of_locate located
  rw [named, Location.place_path manifest.isPlain_place] at place
  exact ⟨file, canonical, named, found, place ▸ here, time⟩

theorem memory_truthful (truthful : Truthful good own cache world)
    (kept : cache.fromMemory? path modified = some graph) :
    good graph ∧ graph.manifest.sameAs path ∧ graph.modified = modified := by
  rw [fromMemory?, Option.filter_eq_some_iff, beq_iff_eq] at kept
  obtain ⟨isGood, named⟩ := truthful.memory path.text graph kept.1
  have same : graph.manifest = path := congrArg Path.mk named
  exact ⟨isGood, by rw [same, Path.sameAs, beq_self_eq_true], kept.2⟩

/-- A document is read from the file at the place of its path. -/
theorem writes_of_document {files : Files}
    (read : files.document? path Graph.ofJson? = .ok (some graph)) :
    Writes files path.place graph := by
  obtain ⟨text, readable, decoded⟩ := Files.document_eq_some_iff.mp read
  rw [Files.textOf?, Option.bind_eq_some_iff] at readable
  obtain ⟨file, found, written⟩ := readable
  obtain ⟨location, located, here⟩ := Files.fileOf_eq.mp found
  rw [Files.place_of_locate located] at here
  exact ⟨file, text, here, written, decoded⟩

theorem disk_truthful (truthful : Truthful good own cache world)
    (kept : cache.fromDisk? world.files path modified = some graph) :
    good graph ∧ graph.manifest.sameAs path ∧ graph.modified = modified := by
  obtain ⟨read, names, time⟩ := current_of_fromDisk kept
  exact ⟨truthful.disk _ (truthful.files path) _ (writes_of_document read), names,
    time⟩

/-- A truthful cache gives what would be built, if the time of the manifest can be
told, and stays truthful. -/
theorem look_truthful (truthful : Truthful good own cache world)
    (syntactic : reader.IsSyntactic)
    (answers : ∀ file modified, world.files.file? manifest.place = some file →
      file.modified.milliseconds? = some modified →
        Answers good manifest.place.path file modified) :
    (cache.graph? reader manifest world).value =
        Graph.ofDatedManifest? world.files manifest ∧
      Truthful good own (cache.graph? reader manifest world).cache
        (cache.graph? reader manifest world).world := by
  unfold graph? Graph.ofDatedManifest?
  cases same : identify? world.files manifest with
  | none => exact ⟨rfl, truthful⟩
  | some pair =>
      obtain ⟨path, modified⟩ := pair
      obtain ⟨file, canonical, named, found, here, told⟩ := identified same
      have answer : Answers good path file modified :=
        named ▸ answers file modified here told
      have built : Graph.ofManifest? world.files manifest =
          Graph.ofFile? path file := by
        simp only [Graph.ofManifest?, canonical, found, Option.bind_some]
      rw [Option.bind_some, built]
      dsimp only
      cases memory : cache.fromMemory? path modified with
      | some graph =>
          obtain ⟨isGood, names, time⟩ := memory_truthful truthful memory
          exact ⟨(answer.exact graph isGood names time).symm, truthful⟩
      | none =>
          dsimp only
          cases disk : cache.fromDisk? world.files path modified with
          | some graph =>
              obtain ⟨isGood, names, time⟩ := disk_truthful truthful disk
              have exact := answer.exact graph isGood names time
              exact ⟨exact.symm, truthful.remember isGood
                (by rw [(Graph.names_of_ofFile exact).1])⟩
          | none =>
              dsimp only
              refine ⟨?_, truthful.build syntactic found told answer.fresh⟩
              rw [build_of_syntactic syntactic found told]
              cases Graph.ofFile? path file <;> rfl

/-- To build anew keeps a truthful cache truthful. -/
theorem rebuild_truthful (truthful : Truthful good own cache world)
    (syntactic : reader.IsSyntactic)
    (answers : ∀ file modified, world.files.file? manifest.place = some file →
      file.modified.milliseconds? = some modified →
        Answers good manifest.place.path file modified) :
    Truthful good own (cache.rebuild? reader manifest world).cache
      (cache.rebuild? reader manifest world).world := by
  have dropped := truthful.invalidate manifest
  unfold rebuild?
  dsimp only
  cases same : identify? (cache.invalidate manifest world).2.files manifest with
  | none => exact dropped
  | some pair =>
      obtain ⟨path, modified⟩ := pair
      obtain ⟨file, -, named, found, here, told⟩ := identified same
      have answer : Answers good path file modified :=
        named ▸ answers file modified (file_of_discarded here) told
      exact dropped.build syntactic found told answer.fresh

/-! ### Runs -/

/-- A cache and the world that it is in. -/
structure State where
  cache : GraphCache
  world : World

/-- What happens to a cache: it is asked for the graph of a manifest, told to
build one anew or to drop one, emptied, or opened again over the same directory;
or others change the world, say write, touch or remove a manifest. -/
inductive Event where
  | look (manifest : Path)
  | rebuild (manifest : Path)
  | invalidate (manifest : Path)
  | clear
  | reopen
  | change (world : World)

/-- The manifest whose graph may be built. -/
def Event.manifest? : Event → Option Path
  | .look manifest | .rebuild manifest => some manifest
  | _ => none

namespace State

/-- The state after an event. -/
def after (reader : Reader) (state : State) : Event → State
  | .look manifest =>
      let cached := state.cache.graph? reader manifest state.world
      { cache := cached.cache, world := cached.world }
  | .rebuild manifest =>
      let cached := state.cache.rebuild? reader manifest state.world
      { cache := cached.cache, world := cached.world }
  | .invalidate manifest =>
      let (cache, world) := state.cache.invalidate manifest state.world
      { cache := cache, world := world }
  | .clear => { state with cache := state.cache.clear }
  | .reopen =>
      { state with
        cache :=
          { directory := state.cache.directory, nameOf := state.cache.nameOf } }
  | .change world => { state with world := world }

/-- The state after events. -/
def run (reader : Reader) (start : State) (events : List Event) : State :=
  events.foldl (after reader) start

/-- No event moves the files of a cache. -/
theorem fileFor_after (reader : Reader) (state : State) (event : Event) :
    (state.after reader event).cache.fileFor = state.cache.fileFor := by
  cases event with
  | look manifest => exact (Follows.look _ _ _ _).1.fileFor
  | rebuild manifest => exact (Follows.rebuild _ _ _ _).fileFor
  | invalidate manifest => rfl
  | clear => rfl
  | reopen => rfl
  | change world => rfl

end State

/-- Whether a location is that of a file of the cache. -/
def Owns (cache : GraphCache) (location : Location) : Prop :=
  ∃ manifest, location = (cache.fileFor manifest).place

/-- Whether the graph of a manifest is asked for among events. -/
def IsAsked (events : List Event) (manifest : Path) : Prop :=
  ∃ event ∈ events, event.manifest? = some manifest

/-- What is assumed of a run: manifests are read from their text, nothing is kept
at the start, nobody else writes the files of the cache, and a manifest never has
two contents with times of change that are told alike. -/
structure Orderly (reader : Reader) (start : State) (events : List Event) :
    Prop where
  syntactic : reader.IsSyntactic
  empty : start.cache.memory = Dict.empty
  bare : ∀ location, start.cache.Owns location →
    start.world.files.file? location = none
  untouched : ∀ before world, before ++ [.change world] <+: events →
    ∀ location, start.cache.Owns location → ∀ file,
      world.files.file? location = some file →
        (start.run reader before).world.files.file? location = some file
  timely : ∀ manifest, IsAsked events manifest →
    ∀ first second, first <+: events → second <+: events → ∀ file other,
      (start.run reader first).world.files.file? manifest.place = some file →
      (start.run reader second).world.files.file? manifest.place = some other →
        ∀ modified, file.modified.milliseconds? = some modified →
          other.modified.milliseconds? = some modified →
            file.content = other.content

/-- Whether a graph was that of a manifest at some time of a run, and could be dated. -/
def WasBuilt (reader : Reader) (start : State) (events : List Event)
    (graph : Graph) : Prop :=
  ∃ manifest, IsAsked events manifest ∧ ∃ before, before <+: events ∧ ∃ file,
    (start.run reader before).world.files.file? manifest.place = some file ∧
      file.modified.milliseconds? = some graph.modified ∧
      Graph.ofFile? manifest.place.path file = some graph

variable {start : State} {events before : List Event}

/-- What was that of a manifest at any time answers for the manifest as it is. -/
theorem Orderly.answers (orderly : Orderly reader start events)
    (asked : IsAsked events manifest) (here : before <+: events)
    (found : (start.run reader before).world.files.file? manifest.place =
      some file) (told : file.modified.milliseconds? = some modified) :
    Answers (WasBuilt reader start events) manifest.place.path file modified where
  fresh graph built := by
    have dated := (Graph.names_of_ofFile built).2
    rw [Graph.dateOf_of_told told] at dated
    exact ⟨manifest, asked, before, here, file, found, dated ▸ told, built⟩
  exact := by
    rintro graph ⟨other, askedOther, earlier, there, old, was, dated, built⟩ names time
    rw [(Graph.names_of_ofFile built).1] at names
    have place := Location.eq_of_sameAs other.isPlain_place
      manifest.isPlain_place names
    rw [place] at was built
    rw [time] at dated
    have content := orderly.timely manifest asked earlier before there here old
      file was found modified dated told
    rw [← built, Graph.ofFile_congr content (dated.trans told.symm)]

/-- Every event keeps the cache truthful. -/
theorem Orderly.after (orderly : Orderly reader start events) {event : Event}
    (here : before ++ [event] <+: events)
    (truthful : Truthful (WasBuilt reader start events) start.cache.Owns
      (start.run reader before).cache (start.run reader before).world) :
    Truthful (WasBuilt reader start events) start.cache.Owns
      (start.run reader (before ++ [event])).cache
      (start.run reader (before ++ [event])).world := by
  have member : event ∈ events := here.subset (by simp)
  have earlier : before <+: events := (List.prefix_append before _).trans here
  rw [State.run, List.foldl_append, List.foldl_cons, List.foldl_nil]
  cases event with
  | look manifest =>
      exact (look_truthful truthful orderly.syntactic fun _ _ found told =>
        orderly.answers ⟨_, member, rfl⟩ earlier found told).2
  | rebuild manifest =>
      exact rebuild_truthful truthful orderly.syntactic fun _ _ found told =>
        orderly.answers ⟨_, member, rfl⟩ earlier found told
  | invalidate manifest => exact truthful.invalidate manifest
  | clear => exact truthful.clear
  | reopen => exact truthful.clear
  | change world => exact truthful.of_kept (orderly.untouched before world here)

/-- A cache is truthful throughout a run. -/
theorem Orderly.truthful (orderly : Orderly reader start events)
    (here : before <+: events) :
    Truthful (WasBuilt reader start events) start.cache.Owns
      (start.run reader before).cache (start.run reader before).world := by
  induction before using List.reverseRecOn with
  | nil =>
      exact
        { memory := fun key graph found => by
            rw [State.run, List.foldl_nil, orderly.empty, Dict.get?_empty] at found
            cases found
          disk := fun location owned graph ⟨file, _, found, _⟩ => by
            rw [State.run, List.foldl_nil, orderly.bare location owned] at found
            cases found
          files := fun manifest => ⟨manifest, rfl⟩ }
  | append_singleton before event inductionHypothesis =>
      exact orderly.after here
        (inductionHypothesis ((List.prefix_append before _).trans here))

/-- Whenever a cache is asked for the graph of a manifest, whatever happened
before, it gives what would be built from the manifest as it is, and none if its time
of change cannot be told. -/
theorem look_eq_ofManifest (orderly : Orderly reader start events)
    (here : before ++ [.look manifest] <+: events) :
    ((start.run reader before).cache.graph? reader manifest
        (start.run reader before).world).value =
      Graph.ofDatedManifest? (start.run reader before).world.files manifest :=
  have earlier : before <+: events := (List.prefix_append before _).trans here
  (look_truthful (orderly.truthful earlier) orderly.syntactic fun _ _ found told =>
    orderly.answers ⟨.look manifest, here.subset (by simp), rfl⟩ earlier found told).1

/-! A cache that keeps all graphs in one file, and a manifest that is looked up,
edited and looked up again. -/

/-- A manifest with one target. -/
def sampleOld : File where
  content := .text "Package(targets: [.target(name: \"App\")])"
  modified := .ofMilliseconds 1

/-- The manifest with another target, at a later time. -/
def sampleNew : File where
  content := .text "Package(targets: [.target(name: \"App\"), .target(name: \"Core\")])"
  modified := .ofMilliseconds 2

/-- A machine with one manifest. -/
def sampleWorld (file : File) : World where
  files := (Files.empty.put ["p"] .directory).put ["p", "Package.swift"] (.file file)
  stamp := 5
  now := 0

/-- A cache that keeps all graphs in one file, beside a manifest. -/
def sampleState : State where
  cache := { directory := ⟨"/c"⟩, nameOf := fun _ => "all" }
  world := sampleWorld sampleOld

/-- The manifest is looked up, edited and looked up again. -/
def sampleEvents : List Event :=
  [.look ⟨"/p/Package.swift"⟩, .change (sampleWorld sampleNew),
    .look ⟨"/p/Package.swift"⟩]

/-- A reader that runs no program. -/
def sampleReader : Reader where
  strategies := [.syntactic]
  timeout := 0

theorem sample_fileFor {cache : GraphCache}
    (same : cache.fileFor = sampleState.cache.fileFor) (manifest : Path) :
    (cache.fileFor manifest).place = ["c", "all.json"] := by
  rw [same]
  change ((⟨"/c"⟩ : Path).child ("all" ++ ".json")).place = _
  decide +kernel

theorem sample_file {before : List Event} (here : before <+: sampleEvents) :
    ∃ file, (file = sampleOld ∨ file = sampleNew) ∧
      (sampleState.run sampleReader before).world.files.file?
        ["p", "Package.swift"] = some file := by
  have aside {cache : GraphCache}
      (same : cache.fileFor = sampleState.cache.fileFor) :
      cache.IsAside ["p", "Package.swift"] := fun manifest => by
    rw [sample_fileFor same]
    decide
  have looked (state : State)
      (same : state.cache.fileFor = sampleState.cache.fileFor) :
      (state.after sampleReader (.look ⟨"/p/Package.swift"⟩)).world.files.file?
          ["p", "Package.swift"] =
        state.world.files.file? ["p", "Package.swift"] :=
    file_of_look (aside same) fun _ => rfl
  simp only [sampleEvents, List.prefix_cons_iff, List.prefix_nil] at here
  rcases here with rfl | ⟨_, rfl, rfl | ⟨_, rfl, rfl | ⟨_, rfl, rfl⟩⟩⟩ <;>
    simp only [State.run, List.foldl_cons, List.foldl_nil]
  · exact ⟨sampleOld, Or.inl rfl, rfl⟩
  · exact ⟨sampleOld, Or.inl rfl, looked sampleState rfl⟩
  · exact ⟨sampleNew, Or.inr rfl, rfl⟩
  · rw [looked _ (by rw [State.fileFor_after, State.fileFor_after])]
    exact ⟨sampleNew, Or.inr rfl, rfl⟩

theorem look_eq_ofManifest_edited :
    let state := sampleState.run sampleReader (sampleEvents.take 2)
    (state.cache.graph? sampleReader ⟨"/p/Package.swift"⟩ state.world).value =
        Graph.ofDatedManifest? (sampleWorld sampleNew).files ⟨"/p/Package.swift"⟩ ∧
      (Graph.ofDatedManifest? (sampleWorld sampleNew).files
        ⟨"/p/Package.swift"⟩).map Graph.order = some ["App", "Core"] := by
  intro state
  have place : (⟨"/p/Package.swift"⟩ : Path).place = ["p", "Package.swift"] := by
    decide +kernel
  have bare (file : File) (location : Location)
      (owned : sampleState.cache.Owns location) :
      (sampleWorld file).files.file? location = none := by
    obtain ⟨manifest, rfl⟩ := owned
    rw [sample_fileFor rfl]
    rfl
  have orderly : Orderly sampleReader sampleState sampleEvents :=
    { syntactic := by simp [Reader.IsSyntactic, sampleReader, Manifest.Strategy.isExternal]
      empty := rfl
      bare := bare sampleOld
      untouched := by
        intro before world here location owned file found
        have member := here.subset (List.mem_append_right _ List.mem_cons_self)
        simp only [sampleEvents, List.mem_cons, List.not_mem_nil, reduceCtorEq,
          Event.change.injEq, or_false, false_or] at member
        rw [member, bare sampleNew location owned] at found
        cases found
      timely := by
        intro manifest asked first second here there file other found foundOther
        obtain ⟨event, member, asks⟩ := asked
        have only : manifest = ⟨"/p/Package.swift"⟩ := by
          simp only [sampleEvents, List.mem_cons, List.not_mem_nil, or_false] at member
          rcases member with rfl | rfl | rfl <;> cases asks <;> rfl
        obtain ⟨known, either, same⟩ := sample_file here
        obtain ⟨knownOther, eitherOther, sameOther⟩ := sample_file there
        rw [only, place] at found foundOther
        cases found.symm.trans same
        cases foundOther.symm.trans sameOther
        intro modified told toldOther
        have alike := told.trans toldOther.symm
        rcases either with rfl | rfl <;> rcases eitherOther with rfl | rfl <;>
          first
            | rfl
            | exact absurd alike (by decide) }
  exact ⟨look_eq_ofManifest orderly (List.prefix_refl _), by decide +kernel⟩

end GraphCache

end PackageLayers

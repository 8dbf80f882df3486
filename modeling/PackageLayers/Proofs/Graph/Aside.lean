/-
Purpose: What a cache of graphs leaves as it is, and what it leaves to chance.
Main exports: World.Replays, GraphCache.IsAside, GraphCache.IsNamed,
  GraphCache.replays_look, GraphCache.file_of_look, GraphCache.file_of_rebuild,
  GraphCache.file_of_invalidate
-/
import PackageLayers.Graph.Cache
import PackageLayers.Proofs.Files.Storing
import PackageLayers.Proofs.Tables

namespace PackageLayers

/-- Whether a reader reads manifests from their text only. -/
def Manifest.Reader.IsSyntactic (reader : Manifest.Reader) : Prop :=
  ∀ strategy ∈ reader.strategies, strategy.isExternal = false

/-- A reader of texts runs no program. -/
theorem Manifest.Reader.IsSyntactic.readExternally {reader : Manifest.Reader}
    (syntactic : reader.IsSyntactic) (manifest : Path) (world : World) :
    reader.readExternally manifest world = (none, world) := by
  have nothing : reader.strategies.filter Strategy.isExternal = [] := by
    rw [List.filter_eq_nil_iff]
    intro strategy member
    rw [syntactic strategy member]
    exact Bool.false_ne_true
  rw [Reader.readExternally, nothing]
  rfl

/-! ### The machine and chance -/

/-!
What is beyond the library stays as it is, whatever the library does: its programs,
and which writes the disk refuses.  Where programs are deterministic, all that is done
with manifests is done in the same way whatever chance may decide.
-/

namespace World

variable {world middle later : World} {path : Path} {content : Content}

/-- Whether a world is on the machine of another. -/
structure SameMachine (world later : World) : Prop where
  programs : later.programs = world.programs
  disk : later.disk = world.disk

namespace SameMachine

theorem refl : SameMachine world world :=
  ⟨rfl, rfl⟩

theorem trans (first : SameMachine world middle) (second : SameMachine middle later) :
    SameMachine world later :=
  ⟨second.programs.trans first.programs, second.disk.trans first.disk⟩

theorem of_store (stored : world.store path content = .ok later) :
    SameMachine world later := by
  rw [(files_of_store stored).2]
  exact ⟨rfl, rfl⟩

theorem isWritable (machine : SameMachine world later) (writable : world.IsWritable) :
    later.IsWritable := by
  rw [IsWritable, machine.disk]
  exact writable

end SameMachine

/-- The world in which chance may decide otherwise. -/
def withChance (world : World) (chance : Nat) : World :=
  { world with chance := chance }

/-- To store a file is nothing that chance decides. -/
theorem store_withChance (world : World) (path : Path) (content : Content)
    (chance : Nat) :
    (world.withChance chance).store path content =
      (world.store path content).map fun later => later.withChance chance := by
  change (unlessRefused (world.refusal? path content)
    (world.files.store path content world.stamp)).map _ = _
  rw [store]
  cases unlessRefused (world.refusal? path content)
    (world.files.store path content world.stamp) <;> rfl

/-- Whether something ends on the machine on which it begins, and is done in the same
way whatever chance decides. -/
structure Replays {α : Type} (act : World → α × World) (world : World) : Prop where
  machine : SameMachine world (act world).2
  again : ∀ chance, act (world.withChance chance) =
    ((act world).1, (act world).2.withChance chance)

end World

namespace Manifest

open World (Replays)

variable {world : World} (deterministic : world.programs.IsDeterministic)
  (timeout : Nat) (manifest : Path)

include deterministic

theorem replays_start (program : Path) (arguments : List String) (input : String)
    (chance : Nat) :
    (world.withChance chance).start program arguments input =
      world.start program arguments input := by
  rw [World.start, World.start]
  exact congrFun (congrFun (congrFun (congrFun (congrFun
    (deterministic chance world.chance) _) _) _) _) _

theorem replays_strategy (strategy : Strategy) :
    Replays (strategy.read timeout manifest) world := by
  cases strategy with
  | syntactic => exact ⟨.refl, fun _ => rfl⟩
  | helper command =>
      constructor
      · simp only [Strategy.read]
        split <;> exact ⟨rfl, rfl⟩
      · intro chance
        simp only [Strategy.read, replays_start deterministic]
        split <;> rfl
  | toolchainDump swift =>
      constructor
      · simp only [Strategy.read]
        split <;> exact ⟨rfl, rfl⟩
      · intro chance
        simp only [Strategy.read, replays_start deterministic]
        split <;> rfl

theorem replays_firstWithTargets (strategies : List Strategy) :
    Replays (Reader.firstWithTargets timeout manifest strategies) world := by
  induction strategies generalizing world with
  | nil => exact ⟨.refl, fun _ => rfl⟩
  | cons strategy strategies inductionHypothesis =>
      obtain ⟨machine, again⟩ := replays_strategy deterministic timeout manifest strategy
      cases read : strategy.read timeout manifest world with
      | mk answer later =>
          rw [read] at machine again
          have rest := inductionHypothesis (machine.programs ▸ deterministic)
          constructor
          · rw [Reader.firstWithTargets, read]
            cases answer with
            | error failure => exact machine.trans rest.machine
            | ok package =>
                dsimp only
                split
                · exact machine.trans rest.machine
                · exact machine
          · intro chance
            rw [Reader.firstWithTargets, Reader.firstWithTargets, again, read]
            cases answer with
            | error failure => exact rest.again chance
            | ok package =>
                dsimp only
                split
                · exact rest.again chance
                · rfl

theorem replays_read (reader : Reader) : Replays (reader.read manifest) world := by
  obtain ⟨machine, again⟩ := replays_firstWithTargets deterministic reader.timeout
    manifest (reader.strategies.filter Strategy.isExternal)
  have external (world : World) : reader.readExternally manifest world =
      Reader.firstWithTargets reader.timeout manifest
        (reader.strategies.filter Strategy.isExternal) world := rfl
  cases read : reader.readExternally manifest world with
  | mk package later =>
      rw [← external, read] at machine
      constructor
      · rw [Reader.read, read]
        cases package with
        | some package => exact machine
        | none =>
            dsimp only
            split
            · exact machine
            · split <;> exact machine
      · intro chance
        rw [Reader.read, Reader.read, external, again, ← external, read]
        cases package with
        | some package => rfl
        | none =>
            have files : (later.withChance chance).files = later.files := rfl
            dsimp only
            rw [files]
            cases readText later.files manifest with
            | error failure => rfl
            | ok package =>
                dsimp only
                split <;> rfl

end Manifest

namespace GraphCache

open Manifest (Reader)

/-!
A cache writes and removes the files of its graphs and touches no other.  What
else may change a file while a graph is built are the programs that a reader
runs; those are asked to leave alone what the cache leaves alone.

A graph that is kept names the manifest that it is of.
-/

variable {cache : GraphCache} {world : World} {reader : Reader}
  {manifest path : Path} {location : Location} {graph : Graph} {modified : Nat}

/-- Whether no file of the cache is at a location or above it. -/
def IsAside (cache : GraphCache) (location : Location) : Prop :=
  ∀ manifest, ¬(cache.fileFor manifest).place <+: location

/-- Whether the programs that a reader runs on a manifest leave the file at a
location as it is. -/
def Spares (reader : Reader) (location : Location) (manifest : Path)
    (world : World) : Prop :=
  (reader.readExternally manifest world).2.files.file? location =
    world.files.file? location

/-- To read a manifest changes what the programs change. -/
theorem file_of_read (spares : Spares reader location manifest world) :
    (reader.read manifest world).2.files.file? location =
      world.files.file? location := by
  rw [Spares] at spares
  unfold Reader.read
  cases external : reader.readExternally manifest world with
  | mk package later =>
      rw [external] at spares
      cases package with
      | some package => exact spares
      | none =>
          dsimp only
          split
          · exact spares
          · split <;> exact spares

theorem file_of_stored (aside : cache.IsAside location) :
    (cache.stored manifest graph world).files.file? location =
      world.files.file? location := by
  unfold stored
  split
  · rename_i later put
    refine Files.file_store (World.files_of_store put).1 location ?_
    rintro rfl
    exact aside manifest (List.prefix_refl _)
  · rfl

/-- To drop the file of a graph brings no file. -/
theorem file_of_discarded {file : File}
    (found : (cache.discarded manifest world).files.file? location = some file) :
    world.files.file? location = some file := by
  unfold discarded at found
  dsimp only at found
  split at found
  · rename_i files _ removed
    rw [Files.remove?] at removed
    split at removed
    · cases removed
      rw [Files.file_removeUnder] at found
      split at found
      · cases found
      · exact found
    · cases removed
  · exact found

theorem file_of_invalidate (aside : cache.IsAside location) :
    (cache.invalidate manifest world).2.files.file? location =
      world.files.file? location := by
  unfold invalidate discarded
  dsimp only
  split
  · rename_i files _ removed
    rw [Files.remove?] at removed
    split at removed
    · rename_i place located
      cases removed
      rw [Files.file_removeUnder, if_neg]
      rw [Files.place_of_locate located]
      exact aside _
    · cases removed
  · rfl

theorem file_of_build (aside : cache.IsAside location)
    (spares : Spares reader location path world) :
    (cache.build reader path modified world).world.files.file? location =
      world.files.file? location := by
  have same := file_of_read spares
  unfold build
  split
  · rename_i later read
    rw [read] at same
    exact same
  · rename_i package later read
    rw [read] at same
    dsimp only
    rw [file_of_stored aside]
    exact same

/-- To look up a graph changes no file aside from the cache. -/
theorem file_of_look (aside : cache.IsAside location)
    (spares : ∀ path, Spares reader location path world) :
    (cache.graph? reader manifest world).world.files.file? location =
      world.files.file? location := by
  unfold graph?
  split
  · rfl
  · split
    · rfl
    · split
      · rfl
      · exact file_of_build aside (spares _)

/-- To build a graph anew changes no file aside from the cache. -/
theorem file_of_rebuild (aside : cache.IsAside location)
    (spares : ∀ path,
      Spares reader location path (cache.invalidate manifest world).2) :
    (cache.rebuild? reader manifest world).world.files.file? location =
      world.files.file? location := by
  have dropped : (cache.invalidate manifest world).2.files.file? location =
      world.files.file? location := file_of_invalidate aside
  rw [← dropped]
  unfold rebuild?
  dsimp only
  split
  · rfl
  · exact file_of_build aside (spares _)

/-! ### Graphs that are looked up again -/

theorem stored_withChance (chance : Nat) :
    cache.stored manifest graph (world.withChance chance) =
      (cache.stored manifest graph world).withChance chance := by
  unfold stored
  rw [World.store_withChance]
  generalize world.store _ _ = written
  cases written <;> rfl

theorem sameMachine_stored :
    world.SameMachine (cache.stored manifest graph world) := by
  unfold stored
  split
  · rename_i put
    exact .of_store put
  · exact .refl

theorem sameMachine_invalidate :
    world.SameMachine (cache.invalidate manifest world).2 := by
  unfold invalidate discarded
  dsimp only
  split <;> exact ⟨rfl, rfl⟩

section

variable (deterministic : world.programs.IsDeterministic)

include deterministic

theorem replays_build (cache : GraphCache) (reader : Reader) (path : Path)
    (modified : Nat) :
    World.Replays (fun world =>
      let cached := cache.build reader path modified world
      ((cached.value, cached.cache), cached.world)) world := by
  obtain ⟨machine, again⟩ := Manifest.replays_read deterministic path reader
  constructor
  · unfold build
    cases read : reader.read path world with
    | mk answer later =>
        rw [read] at machine
        cases answer with
        | error failure => exact machine
        | ok package =>
            dsimp only at machine ⊢
            generalize Graph.ofPackage package path modified = graph
            have written := @sameMachine_stored cache later path graph
            generalize cache.stored path graph later = last at written ⊢
            exact machine.trans written
  · intro chance
    unfold build
    rw [again]
    cases read : reader.read path world with
    | mk answer later =>
        cases answer with
        | error failure => rfl
        | ok package =>
            dsimp only
            generalize Graph.ofPackage package path modified = graph
            rw [stored_withChance]

/-- A graph is looked up in the same way whatever chance decides. -/
theorem replays_look (cache : GraphCache) (reader : Reader) (manifest : Path) :
    World.Replays (fun world =>
      let cached := cache.graph? reader manifest world
      ((cached.value, cached.cache), cached.world)) world := by
  have files (chance : Nat) : (world.withChance chance).files = world.files := rfl
  constructor
  · unfold graph?
    split
    · exact .refl
    · split
      · exact .refl
      · split
        · exact .refl
        · exact (replays_build deterministic _ _ _ _).machine
  · intro chance
    unfold graph?
    rw [files]
    split
    · rfl
    · split
      · rfl
      · split
        · rfl
        · exact (replays_build deterministic _ _ _ _).again chance

end

/-! ### Names of graphs that are kept -/

/-- A manifest that is identified is the file at its place, and its time can be
told. -/
theorem canonical_of_identify {files : Files}
    (same : identify? files manifest = some (path, modified)) :
    files.canonical manifest = .ok path ∧
      ∃ file, files.fileOf? path = some file ∧
        file.modified.milliseconds? = some modified := by
  rw [identify?] at same
  split at same
  · cases same
  · rename_i other canonical
    obtain ⟨file, found, dated⟩ := Option.bind_eq_some_iff.mp same
    obtain ⟨time, told, pair⟩ := Option.map_eq_some_iff.mp dated
    cases pair
    exact ⟨canonical, file, found, told⟩

/-- A graph from disk is current. -/
theorem current_of_fromDisk {files : Files}
    (kept : cache.fromDisk? files path modified = some graph) :
    files.document? (cache.fileFor path) Graph.ofJson? = .ok (some graph) ∧
      graph.manifest.sameAs path ∧ graph.modified = modified := by
  unfold fromDisk? at kept
  split at kept
  · rename_i other read
    split at kept
    · rename_i current
      cases kept
      simp only [isCurrent, Bool.and_eq_true, beq_iff_eq] at current
      exact ⟨read, current.2, current.1.2⟩
    · cases kept
  · cases kept

/-- Whether every graph in memory is under the path of its manifest. -/
def IsNamed (cache : GraphCache) : Prop :=
  ∀ key graph, cache.memory.get? key = some graph → graph.manifest.sameAs ⟨key⟩

/-- Whether a cache has the files of another, and its graphs are under the paths
of their manifests if those of the other are. -/
structure Follows (cache later : GraphCache) : Prop where
  fileFor : later.fileFor = cache.fileFor
  named : cache.IsNamed → later.IsNamed

namespace Follows

theorem refl : Follows cache cache where
  fileFor := rfl
  named := id

theorem trans {middle later : GraphCache} (first : Follows cache middle)
    (second : Follows middle later) : Follows cache later where
  fileFor := second.fileFor.trans first.fileFor
  named := second.named ∘ first.named

theorem clear : Follows cache cache.clear where
  fileFor := rfl
  named _ key graph found := by
    rw [GraphCache.clear, Dict.get?_empty] at found
    cases found

theorem forget (manifest : Path) : Follows cache (cache.forget manifest) where
  fileFor := rfl
  named named key graph found := by
    rw [GraphCache.forget, Dict.get?_erase] at found
    split at found
    · cases found
    · exact named key graph found

theorem remember (same : graph.manifest.sameAs manifest) :
    Follows cache (cache.remember manifest graph) where
  fileFor := rfl
  named named key other found := by
    rw [GraphCache.remember, Dict.get?_insert] at found
    split at found
    · rename_i here
      cases found
      rw [here]
      exact same
    · exact named key other found

theorem build (cache : GraphCache) (reader : Reader) (path : Path)
    (modified : Nat) (world : World) :
    Follows cache (cache.build reader path modified world).cache ∧
      ∀ graph ∈ (cache.build reader path modified world).value,
        graph.manifest.sameAs path := by
  unfold GraphCache.build
  split
  · exact ⟨refl, fun graph member => nomatch member⟩
  · refine ⟨remember (beq_self_eq_true _), fun graph member => ?_⟩
    cases member
    exact beq_self_eq_true _

/-- A graph that is looked up is that of the manifest. -/
theorem look (cache : GraphCache) (reader : Reader) (manifest : Path)
    (world : World) :
    Follows cache (cache.graph? reader manifest world).cache ∧
      (cache.IsNamed → ∀ graph ∈ (cache.graph? reader manifest world).value,
        ∃ path, world.files.canonical manifest = .ok path ∧
          graph.manifest.sameAs path) := by
  unfold GraphCache.graph?
  split
  · exact ⟨refl, fun _ graph member => nomatch member⟩
  · rename_i path modified same
    obtain ⟨canonical, -⟩ := canonical_of_identify same
    split
    · rename_i graph kept
      refine ⟨refl, fun named other member => ⟨path, canonical, ?_⟩⟩
      cases member
      rw [fromMemory?, Option.filter_eq_some_iff] at kept
      exact named path.text graph kept.1
    · split
      · rename_i graph kept
        have names := (current_of_fromDisk kept).2.1
        refine ⟨remember names, fun _ other member => ⟨path, canonical, ?_⟩⟩
        cases member
        exact names
      · obtain ⟨follows, names⟩ := build cache reader path modified world
        exact ⟨follows, fun _ graph member =>
          ⟨path, canonical, names graph member⟩⟩

theorem invalidate (manifest : Path) (world : World) :
    Follows cache (cache.invalidate manifest world).1 :=
  forget _

theorem rebuild (cache : GraphCache) (reader : Reader) (manifest : Path)
    (world : World) : Follows cache (cache.rebuild? reader manifest world).cache := by
  have dropped : Follows cache (cache.invalidate manifest world).1 :=
    invalidate manifest world
  unfold rebuild?
  dsimp only
  split
  · exact dropped
  · exact dropped.trans (build _ _ _ _ _).1

end Follows

end GraphCache

end PackageLayers

/-
Purpose: To update a map once more changes nothing.
Main exports: Project.updateMap_again
-/
import PackageLayers.Proofs.Project.Findings
import PackageLayers.Proofs.Project.Histories

namespace PackageLayers.Project

/-!
An update reads what the one before has stored, and finds the same manifests with
the same texts, since the map is none of them.  What they say is in the tables
already, and the graph, which has no memory, is made of them alone.  So nothing
differs but the moment, and that alone is no reason to store the map.
-/

variable {options : MergeOptions} {root cache : Path} {world later again : World}

/-- An update that makes the same map, the moment of its making aside, stores
nothing. -/
theorem updateMap_of_timeless {previous : ProjectMap}
    (read : storedMap? world.files cache = .ok (some previous))
    (same : (previous.updated options root world.moment
      (discoveriesOf world.files root cache)).timeless = previous.timeless) :
    updateMap options root cache world =
      .ok (⟨false, (manifestsOf world.files root cache).length⟩, world) := by
  have still : differs (some previous) (previous.updated options root world.moment
      (discoveriesOf world.files root cache)) = false := by
    rw [differs, Option.map_some, same]
    exact bne_self_eq_false _
  simp only [updateMap, read, bind, Except.bind, Option.getD_some, still,
    Bool.false_eq_true, if_false]
  rfl

/-- An update that makes another map stores it. -/
theorem updateMap_of_differs {previous : Option ProjectMap} {map : ProjectMap}
    (read : storedMap? world.files cache = .ok previous)
    (made : (previous.getD {}).updated options root world.moment
      (discoveriesOf world.files root cache) = map)
    (news : differs previous map)
    (stored : world.store (mapPath cache) (.text (documentText map.toJson)) =
      .ok later) :
    updateMap options root cache world =
      .ok (⟨true, (manifestsOf world.files root cache).length⟩, later) := by
  simp only [updateMap, read, made, bind, Except.bind, news, stored, if_true]
  rfl

/-- A map that does not differ from what was stored before is stored already. -/
theorem stored_of_same {previous : Option ProjectMap} {map : ProjectMap}
    (same : differs previous map = false) :
    ∃ held, previous = some held ∧ map.timeless = held.timeless := by
  rw [differs, bne_eq_false_iff_eq] at same
  obtain ⟨held, rfl, equal⟩ := Option.map_eq_some_iff.mp same
  exact ⟨held, rfl, equal.symm⟩

/-- Where a map is stored and nothing is refused, an update is made. -/
theorem updateMap_of_stored {map : ProjectMap} (writable : world.IsWritable)
    (read : storedMap? world.files cache = .ok (some map)) :
    ∃ done, updateMap options root cache world = .ok done := by
  obtain ⟨text, readable, -⟩ := Files.document_eq_some_iff.mp read
  rw [Files.textOf?, Option.bind_eq_some_iff] at readable
  obtain ⟨file, found, -⟩ := readable
  obtain ⟨location, located, here⟩ := Files.fileOf_eq.mp found
  cases news : differs (some map) (map.updated options root world.moment
      (discoveriesOf world.files root cache)) with
  | true =>
      obtain ⟨later, stored⟩ : ∃ later, world.store (mapPath cache)
          (.text (documentText (map.updated options root world.moment
            (discoveriesOf world.files root cache)).toJson)) = .ok later := by
        generalize documentText _ = text
        exact ⟨_, World.store_of_accepted (writable _ _)
          (Files.store_of_file located here _ _)⟩
      exact ⟨_, updateMap_of_differs read rfl news stored⟩
  | false =>
      obtain ⟨held, same, equal⟩ := stored_of_same news
      cases same
      exact ⟨_, updateMap_of_timeless read equal⟩

/-- After an update a map is stored that is the one before with all that can be found,
and the same can be found as before. -/
theorem settled_of_updateMap {location : Location} {summary : UpdateSummary}
    (tree : world.files.IsTree) (located : world.files.locate root = .ok location)
    (inCalendar : Timestamp.isInCalendar world.now)
    (updated : updateMap options root cache world = .ok (summary, later)) :
    manifestsOf later.files root cache = manifestsOf world.files root cache ∧
      ∃ previous held, storedMap? world.files cache = .ok previous ∧
        storedMap? later.files cache = .ok (some held) ∧
        held.timeless = ((previous.getD {}).updated options root world.moment
          (discoveriesOf world.files root cache)).timeless ∧
        ∀ moment, (held.updated options root moment
          (discoveriesOf later.files root cache)).timeless = held.timeless := by
  obtain ⟨previous, map, read, rfl, -, ⟨same, rfl⟩ | stored⟩ :=
    updateMap_eq_ok updated
  · obtain ⟨held, rfl, equal⟩ := stored_of_same same
    refine ⟨rfl, _, held, read, read, equal.symm, fun moment => ?_⟩
    rw [← equal]
    exact ProjectMap.timeless_updated options root moment later.moment _ held
  · obtain ⟨put, -⟩ := World.files_of_store stored
    have dated := isDated_updated options root
      (discoveriesOf world.files root cache) (previous.getD {})
      (Timestamp.ofText_ofMilliseconds inCalendar)
    have version := lt_of_eq_of_lt
      (ProjectMap.schemaVersion_updated options root world.moment
        (discoveriesOf world.files root cache) (previous.getD {}))
      (Nat.one_lt_two_pow (by decide : 32 ≠ 0))
    refine ⟨manifestsOf_store tree located put, _, _, read,
      storedMap_of_store version dated stored, rfl, fun moment => ?_⟩
    rw [discoveriesOf_store tree located put]
    exact ProjectMap.updated_again options root world.moment moment _ _

/-- Whatever map was stored before, and in which way conflicts are settled: after an
update the next one, at any time, finds nothing to change, and leaves the map as
it is. -/
theorem updateMap_again {location : Location} {summary : UpdateSummary}
    (tree : world.files.IsTree) (located : world.files.locate root = .ok location)
    (inCalendar : Timestamp.isInCalendar world.now)
    (updated : updateMap options root cache world = .ok (summary, later))
    (untouched : again.files = later.files) :
    updateMap options root cache again =
      .ok ({ changed := false, scanned := summary.scanned }, again) := by
  obtain ⟨manifests, -, held, -, read, -, same⟩ :=
    settled_of_updateMap tree located inCalendar updated
  obtain ⟨previous, map, _, _, rfl, _⟩ := updateMap_eq_ok updated
  rw [← untouched] at manifests read same
  rw [updateMap_of_timeless read (same again.moment), manifests]

/-- The corrected map, and two manifests that claim the same name. -/
def rivalWorld : World :=
  { sampleWorld with
    files := (sampleWorld.files.put ["p", "rival"] .directory).put
      ["p", "rival", "Package.swift"]
      (.file { content := .text "Package(name: \"Core\")", modified := some 0 }) }

/-- What the two manifests contribute. -/
def rivals : List Discovery :=
  [{ name := "Core"
     directory := ⟨"/p"⟩
     manifest := ⟨"/p/Package.swift"⟩
     package :=
       { name := some "Core"
         products := [{ name := "CoreKit", kind := "library" }] } },
    { name := "Core"
      directory := ⟨"/p/rival"⟩
      manifest := ⟨"/p/rival/Package.swift"⟩
      package := { name := some "Core" } }]

/-- Rivals that take each other's place in every scan leave the map as it is. -/
theorem updateMap_again_rivals :
    discoveriesOf rivalWorld.files ⟨"/p"⟩ ⟨"/c"⟩ = rivals ∧
      ∃ later,
        updateMap { overrideConflicts := true } ⟨"/p"⟩ ⟨"/c"⟩ rivalWorld =
            .ok ({ changed := true, scanned := 2 }, later) ∧
          updateMap { overrideConflicts := true } ⟨"/p"⟩ ⟨"/c"⟩
              { later with now := later.now + 1000 } =
            .ok ({ changed := false, scanned := 2 },
              { later with now := later.now + 1000 }) := by
  have found : discoveriesOf rivalWorld.files ⟨"/p"⟩ ⟨"/c"⟩ = rivals := by
    decide +kernel
  refine ⟨found, ?_⟩
  have read := @sample_stored rivalWorld.files (by decide +kernel) rfl
  have news : differs (some sampleMap) (sampleMap.updated
      { overrideConflicts := true } ⟨"/p"⟩ rivalWorld.moment rivals) = true := by
    decide +kernel
  obtain ⟨later, stored⟩ : ∃ later, rivalWorld.store (mapPath ⟨"/c"⟩)
      (.text (documentText (sampleMap.updated { overrideConflicts := true } ⟨"/p"⟩
        rivalWorld.moment rivals).toJson)) = .ok later := by
    generalize documentText _ = text
    have put := @Files.store_of_file rivalWorld.files (mapPath ⟨"/c"⟩)
      ["c", "project-map.json"] _ (by decide +kernel) rfl (.text text)
      rivalWorld.stamp
    exact ⟨_, World.store_of_accepted rfl put⟩
  have first := updateMap_of_differs read (by rw [found]; rfl) news stored
  have counted : (manifestsOf rivalWorld.files ⟨"/p"⟩ ⟨"/c"⟩).length = 2 := by
    decide +kernel
  rw [counted] at first
  exact ⟨later, first, updateMap_again (by decide +kernel)
    (by decide +kernel : rivalWorld.files.locate ⟨"/p"⟩ = .ok ["p"]) (by decide)
    first rfl⟩

end PackageLayers.Project

/-
Purpose: What the stored map of a project keeps over all updates.
Main exports: storedMap_of_store, Turn, Undisturbed, first_findings_stay
-/
import PackageLayers.Proofs.Project.Documents
import PackageLayers.Proofs.Project.Merging
import PackageLayers.Proofs.Project.Moments
import PackageLayers.Proofs.Project.Scanning

namespace PackageLayers.Project

/-!
An update reads the map, adds to it and stores it, and the next update reads what
was stored.  The document of a map is read back as the map, so nothing is lost on
the way over the file, and what one update keeps all updates keep.

Between updates everything else about the project may change, as long as the
document of the map stays what it is.
-/

/-! ### The map after an update -/

/-- The map whose document a file holds is the one that is stored. -/
theorem storedMap_of_document {files : Files} {cache : Path} {map : ProjectMap}
    (version : map.schemaVersion < Text.wordCount 32) (dated : map.graph.isDated)
    (held : files.textOf? (mapPath cache) = some (documentText map.toJson)) :
    storedMap? files cache = .ok (some map) := by
  exact Files.document_eq_some_iff.mpr
    ⟨_, held, ProjectMap.read_documentText version dated⟩

/-- The map that is stored is the one that is read from then on. -/
theorem storedMap_of_store {cache : Path} {world later : World} {map : ProjectMap}
    (version : map.schemaVersion < Text.wordCount 32) (dated : map.graph.isDated)
    (stored : world.store (mapPath cache) (.text (documentText map.toJson)) =
      .ok later) :
    storedMap? later.files cache = .ok (some map) := by
  obtain ⟨files, -⟩ := World.files_of_store stored
  obtain ⟨-, -, -, absolute, -⟩ := Files.store_eq files
  exact storedMap_of_document version dated (Files.textOf_store_child
    (Path.absolute_of_child isName_mapFile absolute) isName_mapFile files)

theorem isDated_updated (options : MergeOptions) (root : Path) {moment : Timestamp}
    (discoveries : List Discovery) (previous : ProjectMap)
    (read : Timestamp.ofText? moment.text = some moment) :
    (previous.updated options root moment discoveries).graph.isDated := by
  change (Timestamp.ofText? moment.text == some moment) = true
  rw [read, beq_self_eq_true]

/-- What happens to a project: its map is brought up to date, or the machine
becomes another one. -/
inductive Turn where
  | update (options : MergeOptions)
  | elsewhere (world : World)

section

variable (root cache : Path)

/-- The machine after an update.  One that fails leaves it as it was. -/
def broughtUpToDate (options : MergeOptions) (world : World) : World :=
  match updateMap options root cache world with
  | .ok (_, later) => later
  | .error _ => world

/-- The machine after a turn. -/
def turned (world : World) : Turn → World
  | .update options => broughtUpToDate root cache options world
  | .elsewhere other => other

/-- The machine after some turns. -/
def turnedBy (world : World) (turns : List Turn) : World :=
  turns.foldl (turned root cache) world

/-- Whether nothing but updates changes the map, and all times are of the
calendar. -/
def Undisturbed : World → List Turn → Prop
  | world, [] => Timestamp.isInCalendar world.now
  | world, turn :: turns =>
      Timestamp.isInCalendar world.now ∧
        (∀ other, turn = .elsewhere other →
          storedMap? other.files cache = storedMap? world.files cache) ∧
        Undisturbed (turned root cache world turn) turns

/-- Whether one of some updates overrides conflicts and finds a declaration of an
origin that states the name. -/
def DeclaredAmong (world : World) (turns : List Turn) (name : String)
    (origin : Origin) : Prop :=
  ∃ before options after, turns = before ++ .update options :: after ∧
    options.overrideConflicts = true ∧
      DeclaresByName
        (discoveriesOf (turnedBy root cache world before).files root cache) name origin

end

/-- Whether first findings stay in all of some turns. -/
def FirstStays (turns : List Turn) : Prop :=
  ∀ options, .update options ∈ turns → options.overrideConflicts = false

variable {root cache : Path}

theorem broughtUpToDate_cases (options : MergeOptions) (world : World) :
    (∃ summary, updateMap options root cache world =
        .ok (summary, broughtUpToDate root cache options world)) ∨
      broughtUpToDate root cache options world = world := by
  unfold broughtUpToDate
  cases updateMap options root cache world with
  | ok done => exact Or.inl ⟨done.1, rfl⟩
  | error fault => exact Or.inr rfl

/-- An update takes no time. -/
theorem now_broughtUpToDate (options : MergeOptions) (world : World) :
    (broughtUpToDate root cache options world).now = world.now := by
  rcases broughtUpToDate_cases options world with ⟨summary, updated⟩ | same
  · obtain ⟨previous, read, still | stored⟩ := updateMap_cases updated
    · rw [still]
    · rw [(World.files_of_store stored).2]
  · rw [same]

/-- Updates alone disturb nothing. -/
theorem undisturbed_updates {world : World}
    (inCalendar : Timestamp.isInCalendar world.now) (updates : List MergeOptions) :
    Undisturbed root cache world (updates.map .update) := by
  induction updates generalizing world with
  | nil => exact inCalendar
  | cons options updates inductionHypothesis =>
      have later : Timestamp.isInCalendar
          (broughtUpToDate root cache options world).now := by
        rw [now_broughtUpToDate]
        exact inCalendar
      exact ⟨inCalendar, by rintro other ⟨⟩, inductionHypothesis later⟩

theorem undisturbed_append {before after : List Turn} {world : World}
    (undisturbed : Undisturbed root cache world (before ++ after)) :
    Undisturbed root cache world before ∧
      Undisturbed root cache (turnedBy root cache world before) after := by
  induction before generalizing world with
  | nil =>
      refine ⟨?_, undisturbed⟩
      cases after with
      | nil => exact undisturbed
      | cons turn after => exact undisturbed.1
  | cons turn before inductionHypothesis =>
      obtain ⟨inCalendar, spared, rest⟩ := undisturbed
      obtain ⟨first, second⟩ := inductionHypothesis rest
      exact ⟨⟨inCalendar, spared, first⟩, second⟩

/-- One update keeps what the stored map holds. -/
theorem keeps_of_updateMap {options : MergeOptions} {world later : World}
    {summary : UpdateSummary} {previous : Option ProjectMap}
    (inCalendar : Timestamp.isInCalendar world.now)
    (read : storedMap? world.files cache = .ok previous)
    (updated : updateMap options root cache world = .ok (summary, later)) :
    ∃ map, storedMap? later.files cache = .ok map ∧
      ProjectMap.Keeps (options.overrideConflicts = false)
        (DeclaresByName (discoveriesOf world.files root cache))
        (previous.getD {}) (map.getD {}) := by
  obtain ⟨other, readAgain, same | stored⟩ := updateMap_cases updated
  · subst same
    exact ⟨previous, read, .refl _⟩
  · cases read.symm.trans readAgain
    have moment : Timestamp.ofText? world.moment.text = some world.moment :=
      Timestamp.ofText_ofMilliseconds inCalendar
    have dated := isDated_updated options root
      (discoveriesOf world.files root cache) (previous.getD {}) moment
    have version : ((previous.getD {}).updated options root world.moment
        (discoveriesOf world.files root cache)).schemaVersion <
          Text.wordCount 32 :=
      lt_of_eq_of_lt (ProjectMap.schemaVersion_updated options root _ _ _)
        (Nat.one_lt_two_pow (by decide))
    exact ⟨_, storedMap_of_store version dated stored,
      ProjectMap.keeps_updated options root world.moment _ _⟩

/-- One turn keeps what the stored map holds. -/
theorem keeps_of_turn {world : World} {turn : Turn} {previous : Option ProjectMap}
    (inCalendar : Timestamp.isInCalendar world.now)
    (spared : ∀ other, turn = .elsewhere other →
      storedMap? other.files cache = storedMap? world.files cache)
    (read : storedMap? world.files cache = .ok previous) :
    ∃ map, storedMap? (turned root cache world turn).files cache = .ok map ∧
      ProjectMap.Keeps (FirstStays [turn]) (DeclaredAmong root cache world [turn])
        (previous.getD {}) (map.getD {}) := by
  cases turn with
  | elsewhere other => exact ⟨previous, (spared other rfl).trans read, .refl _⟩
  | update options =>
      change ∃ map, storedMap? (broughtUpToDate root cache options world).files
        cache = .ok map ∧ _
      rcases broughtUpToDate_cases options world with ⟨summary, updated⟩ | same
      · obtain ⟨map, stored, keeps⟩ := keeps_of_updateMap inCalendar read updated
        by_cases overrides : options.overrideConflicts = true
        · refine ⟨map, stored, keeps.mono (fun first => ?_) fun name origin found =>
            ⟨[], options, [], rfl, overrides, found⟩⟩
          exact first options List.mem_cons_self
        · have first : options.overrideConflicts = false := by simpa using overrides
          exact ⟨map, stored, keeps.settle first⟩
      · rw [same]
        exact ⟨previous, read, .refl _⟩

theorem DeclaredAmong.later {turn : Turn} {turns : List Turn} {world : World}
    {name : String} {origin : Origin}
    (declared : DeclaredAmong root cache (turned root cache world turn) turns name
      origin) :
    DeclaredAmong root cache world (turn :: turns) name origin := by
  obtain ⟨before, options, after, rfl, overrides, found⟩ := declared
  exact ⟨turn :: before, options, after, rfl, overrides, found⟩

theorem DeclaredAmong.now {turn : Turn} {turns : List Turn} {world : World}
    {name : String} {origin : Origin}
    (declared : DeclaredAmong root cache world [turn] name origin) :
    DeclaredAmong root cache world (turn :: turns) name origin := by
  obtain ⟨before, options, after, same, overrides, found⟩ := declared
  cases before with
  | cons other before => simp at same
  | nil =>
      cases same
      exact ⟨[], options, turns, rfl, overrides, found⟩

/-- All turns keep what each keeps. -/
theorem keeps_of_turns {world : World} {turns : List Turn}
    {previous : Option ProjectMap}
    (undisturbed : Undisturbed root cache world turns)
    (read : storedMap? world.files cache = .ok previous) :
    ∃ map, storedMap? (turnedBy root cache world turns).files cache = .ok map ∧
      ProjectMap.Keeps (FirstStays turns) (DeclaredAmong root cache world turns)
        (previous.getD {}) (map.getD {}) := by
  induction turns generalizing world previous with
  | nil => exact ⟨previous, read, .refl _⟩
  | cons turn turns inductionHypothesis =>
      obtain ⟨inCalendar, spared, rest⟩ := undisturbed
      obtain ⟨middle, between, first⟩ := keeps_of_turn inCalendar spared read
      obtain ⟨map, stored, second⟩ := inductionHypothesis rest between
      refine ⟨map, stored, (first.mono (fun all options asked => ?_) ?_).trans
        (second.mono (fun all options asked => ?_) ?_)⟩
      · cases List.mem_singleton.mp asked
        exact all options List.mem_cons_self
      · exact fun _ _ => DeclaredAmong.now
      · exact all options (List.mem_cons_of_mem turn asked)
      · exact fun _ _ => DeclaredAmong.later

/-- What the stored map holds at some time stays, whatever updates follow and
whatever else happens to the project.  No name leaves a table and the policy does
not change.  As long as no update overrides conflicts, packages keep their places,
products keep their names, kinds, packages and known targets, and origins stay as
they are.  Where one does, an origin still gives way only to one that a manifest
declares by name. -/
theorem first_findings_stay {start : World} {before after : List Turn}
    {map : ProjectMap} (read : storedMap start.files cache = .ok map)
    (undisturbed : Undisturbed root cache start (before ++ after)) :
    ∃ earlier later,
      storedMap (turnedBy root cache start before).files cache = .ok earlier ∧
        storedMap (turnedBy root cache start (before ++ after)).files cache =
          .ok later ∧
        ProjectMap.Keeps (FirstStays after)
          (DeclaredAmong root cache (turnedBy root cache start before) after)
          earlier later := by
  obtain ⟨first, second⟩ := undisturbed_append undisturbed
  obtain ⟨previous, held⟩ : ∃ previous,
      storedMap? start.files cache = .ok previous := by
    rw [storedMap] at read
    cases held : storedMap? start.files cache with
    | ok previous => exact ⟨previous, rfl⟩
    | error fault =>
        rw [held] at read
        cases read
  obtain ⟨middle, between, -⟩ := keeps_of_turns first held
  obtain ⟨last, stored, keeps⟩ := keeps_of_turns second between
  have whole : turnedBy root cache start (before ++ after) =
      turnedBy root cache (turnedBy root cache start before) after :=
    List.foldl_append
  refine ⟨middle.getD {}, last.getD {}, ?_, ?_, keeps⟩
  · rw [storedMap, between]
    rfl
  · rw [whole, storedMap, stored]
    rfl

/-- A map in which a product was given another package by hand. -/
def sampleMap : ProjectMap :=
  { products := Dict.empty.insert "CoreKit"
      { kind := "product", name := "CoreKit", package := "HandEdited" } }

/-- The files of a machine with the corrected map and no project. -/
def sampleFiles : Files :=
  (Files.empty.put ["c"] .directory).put ["c", "project-map.json"]
    (.file { content := .text (documentText sampleMap.toJson), modified := some 0 })

/-- The machine with these files. -/
def sampleStart : World where
  files := sampleFiles
  stamp := 0
  now := 0

/-- The same machine when a package has come that declares the product. -/
def sampleWorld : World where
  files := (sampleFiles.put ["p"] .directory).put ["p", "Package.swift"]
    (.file
      { content :=
          .text "Package(name: \"Core\", products: [.library(name: \"CoreKit\")])"
        modified := some 0 })
  stamp := 0
  now := 1700000000000

/-- The package comes, and the map is brought up to date. -/
def sampleTurns : List Turn := [.elsewhere sampleWorld, .update {}]

theorem sample_stored {files : Files}
    (there : files.locate (mapPath ⟨"/c"⟩) = .ok ["c", "project-map.json"])
    (same : files.get? ["c", "project-map.json"] = some (.file
      { content := .text (documentText sampleMap.toJson), modified := some 0 })) :
    storedMap? files ⟨"/c"⟩ = .ok (some sampleMap) := by
  refine storedMap_of_document (Nat.one_lt_two_pow (by decide)) rfl ?_
  rw [Files.textOf?, Files.fileOf?, Files.entryOf?, there]
  simp only [same, Option.bind_some, Content.text?]

theorem first_findings_stay_corrected :
    ((discoveriesOf sampleWorld.files ⟨"/p"⟩ ⟨"/c"⟩).map fun discovery =>
        (discovery.name, discovery.package.products.map Manifest.Product.name)) =
          [("Core", ["CoreKit"])] ∧
      ∃ later,
        storedMap (turnedBy ⟨"/p"⟩ ⟨"/c"⟩ sampleStart sampleTurns).files
            ⟨"/c"⟩ = .ok later ∧
          (later.products.get? "CoreKit").map ProductEntry.package =
            some "HandEdited" := by
  refine ⟨by decide +kernel, ?_⟩
  have stored := @sample_stored sampleStart.files (by decide +kernel) rfl
  have spared := @sample_stored sampleWorld.files (by decide +kernel) rfl
  have undisturbed : Undisturbed ⟨"/p"⟩ ⟨"/c"⟩ sampleStart sampleTurns := by
    refine ⟨rfl, fun other same => ?_, undisturbed_updates (by decide) [{}]⟩
    cases same
    rw [spared, stored]
  have before : storedMap sampleStart.files ⟨"/c"⟩ = .ok sampleMap := by
    rw [storedMap, stored]
    rfl
  obtain ⟨earlier, later, first, last, keeps⟩ :=
    @first_findings_stay ⟨"/p"⟩ ⟨"/c"⟩ sampleStart [] sampleTurns sampleMap
      before undisturbed
  obtain rfl : earlier = sampleMap := Except.ok.inj (first.symm.trans before)
  have held : sampleMap.products.get? "CoreKit" = some
      { kind := "product", name := "CoreKit", package := "HandEdited" } := by decide
  obtain ⟨entry, after, stays⟩ := keeps.products _ _ held
  have firstStays : FirstStays sampleTurns := by
    intro options asked
    simp only [sampleTurns, List.mem_cons, reduceCtorEq, Turn.update.injEq,
      List.not_mem_nil, or_false, false_or] at asked
    rw [asked]
  refine ⟨later, last, ?_⟩
  rw [after, Option.map_some, (stays firstStays).package]

end PackageLayers.Project

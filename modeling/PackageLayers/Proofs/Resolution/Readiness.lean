/-
Purpose: What a service knows of its project while it answers about one manifest.
Main exports: Session.discoveries, Session.Spares, Session.Knows, Session.Ready,
  Session.Ready.look, Session.Ready.renewed, Session.Ready.ensure
-/
import PackageLayers.Proofs.Project.Repetition
import PackageLayers.Proofs.Project.Rescans
import PackageLayers.Proofs.Resolution.Tracking

namespace PackageLayers

/-!
A request is judged by the map as the refresh before it leaves it, and that has the
graph of the packages as they are.  All that a service writes for itself has other
names than manifests have, so what it finds changes with the one manifest that is
edited.

So a service that is ready to answer about a manifest is ready again after every
request: it tracks the manifest, and its map is the one to which what there is adds
nothing.  When the manifest was edited, the map is the one before with what was found
then.
-/

/-- The file for a graph is no manifest. -/
theorem GraphCache.fileFor_apart {cache : GraphCache} {path : Path}
    (home : (cache.fileFor path).IsChild) :
    (cache.fileFor path).place.getLast? ≠ some Project.manifestName := by
  obtain ⟨directory, name, -, named, same⟩ := home
  rw [same, Path.place_child directory named, List.getLast?_concat, ne_eq,
    Option.some.injEq]
  rintro rfl
  have stored : (cache.fileFor path).text.toList.getLast? = some 'n' :=
    Path.getLast_child (by simp)
  rw [same, Path.getLast_child (by decide : _ = some 't')] at stored
  cases stored

namespace Resolution

open Manifest (Addition Declarable Outline Patch ProductContext addDependency patchFile
  proposal)
open Project (Discovery IsGround PackageGraph ProjectMap Replaced UpdateSummary
  Untouched discoveriesOf discoveriesOf_edited mapPath nodesOf revised storedMap?
  updateMap)

/-- A service starts at a directory of the tree. -/
theorem Service.isGround_of_start {files : Files} {root : Path} {settings : Settings}
    {service : Service} (started : start files root settings = .ok service)
    (tree : files.IsTree) (directory : files.isDirectory root.place) :
    IsGround files service.root := by
  rw [start] at started
  split at started
  · cases started
  · rename_i canonical same
    cases started
    rw [(Files.canonical_place same).2]
    exact .of_directory tree directory

/-- Whether the product of an owner may be added to a target of a graph, as far as a
map tells. -/
structure Across (map : ProjectMap) (known : List String) (graph : Graph)
    (origin destination : String) (context : ProductContext) : Prop where
  present : graph.hasTarget origin
  unknown : known.contains destination = false
  outside : graph.hasTarget destination = false
  owner : map.owner? destination = some ⟨context.package, context.product⟩
  foreign : Text.sameFolded context.package (packageOf map graph) = false
  unlisted : listsProduct graph origin context.product context.package = false
  qualified : ((graph.unresolved origin).any fun dependency =>
    dependency.name == destination) = false
  apart : map.graph.cycleThrough? (packageOf map graph) context.package = none
  provenance : context.provenance = map.provenance context.package graph.manifest

/-- These are the products that are to be added. -/
theorem judgement_across_iff {files : Files} {map : ProjectMap} {known : List String}
    {graph : Graph} {origin destination : String} {context : ProductContext} :
    judgeEdge files map known graph origin destination = .ok (some context) ↔
      Across map known graph origin destination context := by
  have inside : judgeInside graph known origin destination ≠ .ok (some context) := by
    intro judged
    rw [judgeInside] at judged
    split at judged
    · cases judged
    · cases judged
    · split at judged <;> cases judged
  constructor
  · intro judged
    rw [judgeEdge] at judged
    split at judged
    · cases judged
    rename_i present
    split at judged
    · cases judged
    rename_i unknown
    split at judged
    · exact absurd judged inside
    rename_i outside
    split at judged
    · cases judged
    rename_i owner found
    rw [judgeAcross] at judged
    split at judged
    · cases judged
    rename_i foreign
    split at judged
    · cases judged
    rename_i unlisted
    split at judged
    · cases judged
    rename_i qualified
    split at judged
    · cases judged
    rename_i apart
    cases judged
    exact
      { present := by simpa using present
        unknown := Bool.eq_false_iff.mpr unknown
        outside := Bool.eq_false_iff.mpr outside
        owner := found
        foreign := Bool.eq_false_iff.mpr foreign
        unlisted := Bool.eq_false_iff.mpr unlisted
        qualified := Bool.eq_false_iff.mpr qualified
        apart := apart
        provenance := rfl }
  · intro across
    rw [judgeEdge, across.present, across.unknown, across.outside, across.owner]
    simp only [Bool.not_true, Bool.false_eq_true, if_false]
    rw [judgeAcross]
    simp only [across.foreign, across.unlisted, across.qualified, across.apart,
      ← across.provenance, Bool.false_eq_true, if_false]

/-- Whether no write is refused, and the calendar lasts. -/
structure Conditions.AreOrdinary (conditions : Conditions) : Prop where
  inCalendar : Timestamp.isInCalendar conditions.now
  writable : ∀ path content, conditions.disk path content = none

namespace Session

variable {session later : Session} {manifest : Path} {graph : Graph} {map : ProjectMap}
  {origin destination : String}

/-- What a service finds in its project. -/
def discoveries (session : Session) : List Discovery :=
  discoveriesOf session.world.files session.service.root
    session.service.cacheDirectory

/-- The graph of the packages as they are. -/
def packages (session : Session) (moment : Timestamp) : PackageGraph :=
  .ofDiscoveries session.service.root moment session.discoveries

/-! ### What calls leave of the project -/

/-- Whether a service is another after some calls, and no manifest is changed. -/
structure Spares (session later : Session) : Prop where
  continues : Service.Continues session.service later.service
  untouched : Untouched session.service.root session.world.files later.world.files
  machine : session.world.SameMachine later.world
  now : later.world.now = session.world.now

namespace Spares

theorem trans {middle : Session} (first : Spares session middle)
    (second : Spares middle later) : Spares session later where
  continues := first.continues.trans second.continues
  untouched := first.untouched.trans (first.continues.root ▸ second.untouched)
  machine := first.machine.trans second.machine
  now := second.now.trans first.now

theorem ground (spares : Spares session later) :
    IsGround later.world.files later.service.root := by
  rw [spares.continues.root]
  exact spares.untouched.still

theorem discoveries_eq (spares : Spares session later) :
    later.discoveries = session.discoveries := by
  rw [discoveries, discoveries, spares.continues.root, spares.continues.cacheDirectory]
  exact spares.untouched.discoveriesOf_eq _

theorem packages_eq (spares : Spares session later) (moment : Timestamp) :
    later.packages moment = session.packages moment := by
  rw [packages, packages, spares.continues.root, spares.discoveries_eq]

end Spares

section

variable (ground : IsGround session.world.files session.service.root)

include ground

theorem spares_refreshed (force : Bool) : session.Spares (session.refreshed force) := by
  have continues := continues_refreshed session force
  have machine := sameMachine_refreshed session force
  obtain ⟨-, same | ⟨text, put⟩⟩ := refreshed_cases session force
  · exact ⟨continues, by rw [same]; exact .refl ground, machine, by rw [same]⟩
  · obtain ⟨stored, same⟩ := World.files_of_store put
    exact ⟨continues, .store ground (Project.mapPath_apart _) stored, machine,
      by rw [same]⟩

theorem spares_look (apart : session.service.IsApart manifest) :
    session.Spares (session.graph? manifest).2 := by
  have continues := continues_graph session manifest
  rcases GraphCache.look_cases apart.syntactic with same | ⟨text, put⟩
  · refine ⟨continues, ?_, ?_, ?_⟩ <;> rw [graph?, withCached, same]
    · exact .refl ground
    · exact .refl
  · obtain ⟨stored, same⟩ := World.files_of_store put
    refine ⟨continues, .store ground (GraphCache.fileFor_apart apart.home) stored,
      .of_store put, ?_⟩
    rw [graph?, withCached, same]

omit ground in
theorem world_invalidate (session : Session) (path : Path) :
    (session.invalidate path).world =
      (session.service.cache.invalidate path session.world).2 := rfl

theorem spares_invalidate (apart : session.service.IsApart manifest) :
    session.Spares (session.invalidate manifest.place.path) := by
  have continues := continues_invalidate session manifest.place.path
  have kept := GraphCache.invalidate_cases session.service.cache manifest.place.path
    session.world
  rw [GraphCache.placeOf_canonical _
    (by rw [Location.place_path manifest.isPlain_place])] at kept
  have machine : session.world.SameMachine
      (session.invalidate manifest.place.path).world := GraphCache.sameMachine_invalidate
  rcases kept with same | ⟨file, here, same⟩
  · refine ⟨continues, ?_, machine, ?_⟩ <;> rw [world_invalidate, same]
    exact .refl ground
  · refine ⟨continues, ?_, machine, ?_⟩ <;> rw [world_invalidate, same]
    exact .removeUnder ground (GraphCache.fileFor_apart apart.home) here

end

/-! ### What a service knows of its project -/

/-- Whether a map is stored to which an update adds nothing. -/
structure Knows (map : ProjectMap) (session : Session) : Prop where
  stored : storedMap? session.world.files session.service.cacheDirectory =
    .ok (some map)
  settled : ∀ moment, (map.updated session.service.mergeOptions session.service.root
    moment session.discoveries).timeless = map.timeless

namespace Knows

/-- An update that is made leaves a map that is known: the one before, with all that was
found. -/
theorem of_updateMap {summary : UpdateSummary} {world : World}
    (ground : IsGround session.world.files session.service.root)
    (inCalendar : Timestamp.isInCalendar session.world.now)
    (updated : updateMap session.service.mergeOptions session.service.root
      session.service.cacheDirectory session.world = .ok (summary, world))
    (last : Option Nat) :
    ∃ previous map,
      storedMap? session.world.files session.service.cacheDirectory = .ok previous ∧
        Knows map ⟨{ session.service with lastRefresh := last }, world⟩ ∧
        map.timeless = ((previous.getD {}).updated session.service.mergeOptions
          session.service.root session.world.moment session.discoveries).timeless := by
  obtain ⟨-, previous, map, read, stored, made, settled⟩ :=
    Project.settled_of_updateMap ground.tree ground.located inCalendar updated
  exact ⟨previous, map, read, ⟨stored, settled⟩, made⟩

/-- A refresh that is made leaves a map that is known. -/
theorem of_refresh {force : Bool} {summary : UpdateSummary}
    (ground : IsGround session.world.files session.service.root)
    (inCalendar : Timestamp.isInCalendar session.world.now)
    (made : session.refresh force = .ok (some summary, later)) :
    ∃ map, Knows map later := by
  rw [refresh, update] at made
  split at made
  · cases updated : updateMap session.service.mergeOptions
        session.service.root session.service.cacheDirectory session.world with
    | error fault =>
        rw [updated] at made
        cases made
    | ok pair =>
        rw [updated] at made
        cases made
        obtain ⟨-, map, -, knows, -⟩ := of_updateMap ground inCalendar updated
          (some pair.2.now)
        exact ⟨map, knows⟩
  · cases made

/-- Where a map is stored and no write is refused, a refresh that is forced leaves it with
all that was found, and that is known. -/
theorem of_stored (writable : session.world.IsWritable)
    (ground : IsGround session.world.files session.service.root)
    (inCalendar : Timestamp.isInCalendar session.world.now)
    (stored : storedMap? session.world.files session.service.cacheDirectory =
      .ok (some map)) :
    ∃ later, Knows later (session.refreshed true) ∧
      later.timeless = (map.updated session.service.mergeOptions
        session.service.root session.world.moment session.discoveries).timeless := by
  obtain ⟨pair, updated⟩ := @Project.updateMap_of_stored session.service.mergeOptions
    session.service.root session.service.cacheDirectory session.world map writable stored
  obtain ⟨previous, later, read, knows, made⟩ := of_updateMap ground inCalendar updated
    (some pair.2.now)
  rw [stored, Except.ok.injEq] at read
  rw [← read] at made
  refine ⟨later, ?_, made⟩
  rw [refreshed, refresh, update, Bool.true_or, if_pos rfl, updated]
  exact knows

/-- A refresh leaves a known map known, since it has nothing to store. -/
theorem refreshed (knows : Knows map session) (force : Bool) :
    Knows map (session.refreshed force) := by
  have still := Project.updateMap_of_timeless knows.stored
    (knows.settled session.world.moment)
  rw [Session.refreshed, refresh, update, still]
  split
  · rename_i due
    split at due
    · cases due
      exact ⟨knows.stored, knows.settled⟩
    · cases due
      exact knows
  · exact knows

/-- What is known of the packages is the graph of the packages as they are. -/
theorem graph_eq (knows : Knows map session) (moment : Timestamp) :
    ({ map.graph with generatedAt := some moment } : PackageGraph) =
      session.packages moment := by
  have same := congrArg (fun map : ProjectMap =>
    ({ map.graph with generatedAt := some moment } : PackageGraph))
      (knows.settled moment)
  exact same.symm

theorem cycleThrough_eq (knows : Knows map session) (moment : Timestamp)
    (origin destination : String) :
    map.graph.cycleThrough? origin destination =
      (session.packages moment).cycleThrough? origin destination := by
  rw [← knows.graph_eq moment]
  rfl

theorem packageOf?_eq (knows : Knows map session) (moment : Timestamp) :
    map.graph.packageOf? = (session.packages moment).packageOf? := by
  rw [← knows.graph_eq moment]
  rfl

theorem judge_eq (knows : Knows map session) :
    session.judge graph origin destination =
      judgeEdge session.world.files map session.service.settings.systemModules graph
        origin destination := by
  have stored : session.map = .ok map := by
    rw [Session.map, Project.storedMap, knows.stored]
    rfl
  rw [judge, stored]

/-- A map is known as long as its file and the manifests stay. -/
theorem spared (knows : Knows map session) (spares : Spares session later)
    (led : ∀ location,
      session.world.files.locate (mapPath session.service.cacheDirectory) =
          .ok location →
        later.world.files.locate (mapPath session.service.cacheDirectory) =
          .ok location)
    (same : later.world.files.file? (mapPath session.service.cacheDirectory).place =
      session.world.files.file? (mapPath session.service.cacheDirectory).place) :
    Knows map later where
  stored := by
    rw [spares.continues.cacheDirectory]
    exact Files.document_of_kept led same knows.stored
  settled moment := by
    have options : later.service.mergeOptions = session.service.mergeOptions := by
      rw [Service.mergeOptions, Service.mergeOptions, spares.continues.settings]
    rw [spares.discoveries_eq, spares.continues.root, options]
    exact knows.settled moment

/-- To look up a graph leaves the map known. -/
theorem look (knows : Knows map session)
    (ground : IsGround session.world.files session.service.root)
    (apart : session.service.IsApart manifest) :
    Knows map (session.graph? manifest).2 := by
  refine knows.spared (spares_look ground apart)
    (fun location => GraphCache.locate_look apart.syntactic) ?_
  rcases GraphCache.look_cases apart.syntactic with same | ⟨text, put⟩
  · rw [graph?, withCached, same]
  · refine Files.file_store (World.files_of_store put).1 _ fun same => ?_
    exact apart.separate ⟨_, same⟩

end Knows

/-- The package of a manifest that is a node has the name of the node. -/
theorem Knows.packageOf_eq (knows : Knows map session) {user : Discovery}
    (spelled : ∀ discovery ∈ session.discoveries,
      '\\' ∉ discovery.manifest.text.toList)
    (member : user ∈ nodesOf [] session.discoveries)
    (named : user.manifest = graph.manifest) : packageOf map graph = user.name := by
  have found (node : Discovery) (member : node ∈ nodesOf [] session.discoveries) :
      node ∈ session.discoveries :=
    (PackageGraph.nodesOf_sublist []).subset member
  have alone : ∀ node ∈ nodesOf [] session.discoveries,
      node.manifest.storedText = user.manifest.storedText → node = user := by
    intro node also same
    have here := Project.ofFile_of_mem (found node also)
    have there := Project.ofFile_of_mem (found user member)
    rw [Path.storedText_eq (spelled node (found node also)),
      Path.storedText_eq (spelled user (found user member))] at same
    have manifest : node.manifest = user.manifest := congrArg Path.mk same
    rw [manifest, there] at here
    exact (Option.some.inj here).symm
  have known := @PackageGraph.packageOf_eq user session.discoveries
    session.service.root (.ofMilliseconds 0) member alone
  rw [packageOf, ← named, knows.packageOf?_eq (.ofMilliseconds 0), packages, known,
    Option.getD_some]

/-- A manifest that is tracked is read at its canonical path too. -/
theorem Tracks.textOf_eq (tracks : Tracks manifest graph session) :
    session.world.files.textOf? manifest =
        session.world.files.textOf? manifest.place.path ∧
      session.world.files.textOf? manifest.place.path =
        (session.world.files.file? manifest.place).bind fun file =>
          file.content.text? := by
  rw [Files.textOf?, Files.textOf?, Files.fileOf_of_locate tracks.led,
    Files.fileOf_of_locate tracks.ledCanonical]
  exact ⟨rfl, rfl⟩

/-- What is read of a tracked manifest stays where the files of others agree. -/
theorem Tracks.textOf_agree (tracks : Tracks manifest graph session)
    (tracksLater : Tracks manifest graph later)
    (agree : Agree session.service.Owns session.world later.world) :
    later.world.files.textOf? manifest = session.world.files.textOf? manifest := by
  rw [tracks.textOf_eq.1, tracks.textOf_eq.2, tracksLater.textOf_eq.1,
    tracksLater.textOf_eq.2, agree _ tracks.apart.foreign]

/-- The time of a tracked manifest can be told still where the files of others agree. -/
theorem Tracks.isDated_agree (tracks : Tracks manifest graph session)
    (dated : session.IsDated manifest)
    (agree : Agree session.service.Owns session.world later.world) :
    later.IsDated manifest := by
  rw [IsDated, agree _ tracks.apart.foreign]
  exact dated

/-! ### Readiness -/

/-- Whether a service is ready to answer about a manifest with a text: it tracks the
manifest, whose time of change can be told, it knows its map, and no write is
refused. -/
structure Ready (manifest : Path) (text : String) (graph : Graph) (map : ProjectMap)
    (session : Session) : Prop where
  tracks : Tracks manifest graph session
  readable : session.world.files.textOf? manifest = some text
  knows : Knows map session
  ground : IsGround session.world.files session.service.root
  inCalendar : Timestamp.isInCalendar session.world.now
  dated : session.IsDated manifest
  writable : session.world.IsWritable
  spelled : ∀ discovery ∈ session.discoveries,
    '\\' ∉ discovery.manifest.text.toList

namespace Ready

variable {text : String}

/-- A refresh that is made makes a service ready that tracks the manifest. -/
theorem of_refresh {force : Bool} {summary : UpdateSummary}
    (tracks : Tracks manifest graph session)
    (readable : session.world.files.textOf? manifest = some text)
    (ground : IsGround session.world.files session.service.root)
    (inCalendar : Timestamp.isInCalendar session.world.now)
    (dated : session.IsDated manifest) (writable : session.world.IsWritable)
    (spelled : ∀ discovery ∈ session.discoveries,
      '\\' ∉ discovery.manifest.text.toList)
    (made : session.refresh force = .ok (some summary, later)) :
    ∃ map, Ready manifest text graph map later := by
  obtain ⟨map, knows⟩ := Knows.of_refresh ground inCalendar made
  have same : session.refreshed force = later := by rw [Session.refreshed, made]
  have tracksLater := tracks.refreshed force
  have spares := spares_refreshed ground force
  have agree := agree_refreshed session force
  rw [same] at tracksLater spares agree
  refine ⟨map, ?_⟩
  exact
    { tracks := tracksLater
      readable := (tracks.textOf_agree tracksLater agree).trans readable
      knows := knows
      ground := spares.ground
      inCalendar := by
        rw [spares.now]
        exact inCalendar
      dated := tracks.isDated_agree dated agree
      writable := spares.machine.isWritable writable
      spelled := by
        rw [spares.discoveries_eq]
        exact spelled }

variable (ready : Ready manifest text graph map session)

include ready

/-- The manifest is read at its canonical path too. -/
theorem canonical : session.world.files.textOf? manifest.place.path = some text :=
  ready.tracks.textOf_eq.1.symm.trans ready.readable

/-- Where no manifest is changed and the map is known still, a service stays ready. -/
theorem spared (spares : Spares session later) (tracks : Tracks manifest graph later)
    (knows : Knows map later)
    (agree : Agree session.service.Owns session.world later.world) :
    Ready manifest text graph map later where
  tracks := tracks
  readable := (ready.tracks.textOf_agree tracks agree).trans ready.readable
  knows := knows
  ground := spares.ground
  inCalendar := by
    rw [spares.now]
    exact ready.inCalendar
  dated := ready.tracks.isDated_agree ready.dated agree
  writable := spares.machine.isWritable ready.writable
  spelled := by
    rw [spares.discoveries_eq]
    exact ready.spelled

/-- A service is ready under all conditions in which no write is refused, while the
calendar lasts. -/
theorem under {conditions : Conditions} (ordinary : conditions.AreOrdinary) :
    Ready manifest text graph map (session.under conditions) where
  tracks := ready.tracks.under conditions
  readable := ready.readable
  knows := ⟨ready.knows.stored, ready.knows.settled⟩
  ground := ready.ground
  inCalendar := ordinary.inCalendar
  dated := ready.dated
  writable := ordinary.writable
  spelled := ready.spelled

theorem refreshed (force : Bool) :
    Ready manifest text graph map (session.refreshed force) :=
  ready.spared (spares_refreshed ready.ground force) (ready.tracks.refreshed force)
    (ready.knows.refreshed force) (agree_refreshed session force)

/-- The graph that is looked up is the one that is tracked. -/
theorem look : ∃ looked, session.graph? manifest = (some graph, looked) ∧
    Spares session looked ∧ Ready manifest text graph map looked := by
  obtain ⟨either, tracks⟩ := ready.tracks.look
  have found := either.resolve_right fun nothing => nothing.2 ready.dated
  have spares := spares_look ready.ground ready.tracks.apart
  refine ⟨_, Prod.ext found rfl, spares, ready.spared spares tracks ?_ ?_⟩
  · exact ready.knows.look ready.ground ready.tracks.apart
  · exact agree_graph session manifest (.of_syntactic ready.tracks.apart.syntactic)

/-- A product is added as the map tells. -/
theorem across {owner : ProductContext}
    (judged : session.judge graph origin destination = .ok (some owner)) :
    Across map session.service.settings.systemModules graph origin destination
      owner := by
  rw [ready.knows.judge_eq] at judged
  exact judgement_across_iff.mp judged

end Ready

/-! ### A text that is replaced -/

/-- Whether the same is found, but that the package of one manifest may be read anew. -/
def Rereads (manifest : Path) (text new : String) (before after : List Discovery) :
    Prop :=
  after = before ∨ ∃ user, Discovery.ofText? manifest.place.path text = some user ∧
    after = before.map (revised user { user with package := (Outline.ofText new).package })

/-- The manifests are those that were found. -/
theorem Rereads.manifests {text new : String} {before after : List Discovery}
    (rereads : Rereads manifest text new before after) :
    after.map Discovery.manifest = before.map Discovery.manifest := by
  rcases rereads with rfl | ⟨user, -, rfl⟩
  · rfl
  · rw [List.map_map]
    refine List.map_congr_left fun discovery _ => ?_
    rw [Function.comp_apply, revised]
    split
    · rename_i same
      rw [same]
    · rfl

/-- What becomes of a session in which the text of a manifest is replaced by one of a
package with the same name, and its graph is dropped. -/
structure Replaces (manifest : Path) (text new : String) (session dropped : Session) :
    Prop where
  continues : Service.Continues session.service dropped.service
  ground : IsGround dropped.world.files dropped.service.root
  machine : session.world.SameMachine dropped.world
  now : dropped.world.now = session.world.now
  rereads : Rereads manifest text new session.discoveries dropped.discoveries

/-- When another text is written, the package of the manifest is read anew. -/
theorem Tracks.replaces {text new : String} {world : World}
    (tracks : Tracks manifest graph session)
    (ground : IsGround session.world.files session.service.root)
    (readable : session.world.files.textOf? manifest.place.path = some text)
    (name : (Outline.ofText new).package.name = (Outline.ofText text).package.name)
    (written : session.world.overwrite manifest.place.path new = .ok world) :
    Replaces manifest text new session
      (({ session with world := world } : Session).invalidate manifest.place.path) := by
  obtain ⟨file, here, content, -, -⟩ := tracks.holds readable
  obtain ⟨stored, same⟩ := World.files_of_store written
  let patched : Session := { session with world := world }
  have still : IsGround patched.world.files patched.service.root := ground.store stored
  have dropped : patched.Spares (patched.invalidate manifest.place.path) :=
    spares_invalidate still tracks.apart
  have place : manifest.place.path.place = manifest.place :=
    Location.place_path manifest.isPlain_place
  have replaced : Replaced session.world.files world.files manifest.place text new := by
    rw [← place] at here ⊢
    exact .of_store stored ⟨file, here, content⟩ name
  have machine : session.world.tick.SameMachine world := .of_store written
  refine ⟨dropped.continues, dropped.ground,
    ⟨dropped.machine.programs.trans machine.programs,
      dropped.machine.disk.trans machine.disk⟩, ?_, ?_⟩
  · rw [dropped.now]
    change world.now = _
    rw [same]
    rfl
  · rw [dropped.discoveries_eq]
    exact discoveriesOf_edited ground still replaced

/-- The map stays stored when a manifest is written and its graph is dropped. -/
theorem Tracks.stored_kept {new : String} {world : World}
    (tracks : Tracks manifest graph session)
    (ground : IsGround session.world.files session.service.root)
    (stored : storedMap? session.world.files session.service.cacheDirectory =
      .ok (some map))
    (written : session.world.overwrite manifest.place.path new = .ok world) :
    let dropped := ({ session with world := world } : Session).invalidate
      manifest.place.path
    storedMap? dropped.world.files dropped.service.cacheDirectory = .ok (some map) := by
  intro dropped
  have put := (World.files_of_store written).1
  have place : manifest.place.path.place = manifest.place :=
    Location.place_path manifest.isPlain_place
  have other : (mapPath session.service.cacheDirectory).place ≠
      manifest.place.path.place := by
    rw [place]
    intro same
    exact tracks.apart.foreign (Or.inl (same ▸ List.prefix_refl _))
  have middle : storedMap? world.files session.service.cacheDirectory =
      .ok (some map) :=
    Files.document_of_kept (fun _ located => Files.locate_store put located)
      (Files.file_store put _ other) stored
  have continues := continues_invalidate { session with world := world }
    manifest.place.path
  rw [continues.cacheDirectory]
  have kept := GraphCache.invalidate_cases session.service.cache manifest.place.path world
  rw [GraphCache.placeOf_canonical _ (by rw [place])] at kept
  rcases kept with same | ⟨file, here, same⟩
  · rw [world_invalidate, same]
    exact middle
  · have apart : (mapPath session.service.cacheDirectory).place ≠
        (session.service.cache.fileFor manifest.place.path).place := fun equal =>
      tracks.apart.separate ⟨_, equal⟩
    rw [world_invalidate, same]
    refine Files.document_of_kept (fun location located => ?_)
      ((ground.store put).tree.file_of_removed here apart) middle
    refine Files.locate_removeUnder here (fun equal => apart ?_) located
    exact (Files.place_of_locate located).symm.trans equal

/-- What becomes of a session that is ready, when another text is written and everything
is brought up to date. -/
structure Renewed (manifest : Path) (text new : String) (map held : ProjectMap)
    (later : Graph) (session last : Session) : Prop where
  ready : Ready manifest new later held last
  continues : Service.Continues session.service last.service
  rereads : Rereads manifest text new session.discoveries last.discoveries
  made : held.timeless = (map.updated session.service.mergeOptions session.service.root
    session.world.moment last.discoveries).timeless

/-- When another text of a package with the same name is written, the service is ready
for it, and its map is the one before with what is found then. -/
theorem Ready.renewed {text new : String} {world : World}
    (ready : Ready manifest text graph map session)
    (closed : Source.AllClosed (Source.ofText new))
    (name : (Outline.ofText new).package.name = (Outline.ofText text).package.name)
    (declares : (Outline.ofText new).package.targets ≠ [])
    (written : session.world.overwrite manifest.place.path new = .ok world) :
    ∃ next held, Renewed manifest text new map held next session
      ((({ session with world := world } : Session).invalidate
        manifest.place.path).refreshed true) := by
  obtain ⟨next, file, content, told, -, here, tracksDropped⟩ :=
    ready.tracks.rewritten closed declares written
  have replaces := ready.tracks.replaces ready.ground ready.canonical name written
  have stored := ready.tracks.stored_kept ready.ground ready.knows.stored written
  generalize ({ session with world := world } : Session).invalidate manifest.place.path =
    dropped at *
  have spares := spares_refreshed replaces.ground true
  have tracksLast := tracksDropped.refreshed true
  have inCalendar : Timestamp.isInCalendar dropped.world.now := by
    rw [replaces.now]
    exact ready.inCalendar
  have writable := replaces.machine.isWritable ready.writable
  obtain ⟨held, knowsLast, made⟩ :=
    Knows.of_stored writable replaces.ground inCalendar stored
  have rereads : Rereads manifest text new session.discoveries
      (dropped.refreshed true).discoveries := by
    rw [spares.discoveries_eq]
    exact replaces.rereads
  refine ⟨next, held, ?_⟩
  exact
    { ready :=
        { tracks := tracksLast
          readable := by
            rw [tracksLast.textOf_eq.1, tracksLast.textOf_eq.2,
              agree_refreshed dropped true _ tracksDropped.apart.foreign, here,
              Option.bind_some, content]
            rfl
          knows := knowsLast
          ground := spares.ground
          inCalendar := by
            rw [spares.now]
            exact inCalendar
          dated := tracksDropped.isDated_agree ⟨file, here, told⟩
            (agree_refreshed dropped true)
          writable := spares.machine.isWritable writable
          spelled := by
            intro discovery found
            have listed : discovery.manifest ∈ _ := List.mem_map_of_mem found
            rw [rereads.manifests] at listed
            obtain ⟨earlier, member, same⟩ := List.mem_map.mp listed
            rw [← same]
            exact ready.spelled earlier member }
      continues := replaces.continues.trans spares.continues
      rereads := rereads
      made := by
        rw [made, spares.discoveries_eq, Service.mergeOptions, Service.mergeOptions,
          replaces.continues.settings, replaces.continues.root, World.moment,
          World.moment, replaces.now] }

/-! ### Requests -/

/-- A fix without a change leaves the session as it is. -/
theorem fix_of_unchanged {text : String} {context : Option ProductContext} {patch : Patch}
    (readable : session.world.files.textOf? manifest = some text)
    (proposed : addDependency session.service.settings.policy.versionFloor text manifest
      origin destination context = .ok patch) (still : patch.changes = []) :
    session.fix manifest origin destination context = (.patched .unchanged, session) := by
  have same : proposal session.service.settings.policy.versionFloor session.world.files
      manifest origin destination context = .ok patch := by
    rw [proposal, readable]
    exact proposed
  rw [fix, patchFile, same]
  dsimp only
  rw [still, List.isEmpty_nil, if_pos rfl]
  rfl

/-- A fix leaves the session as it is, and then finds nothing to change if it succeeds,
or it writes the text with the changes and brings everything up to date. -/
theorem fix_cases {text : String} {context : Option ProductContext}
    (readable : session.world.files.textOf? manifest = some text) :
    (∃ outcome, session.fix manifest origin destination context =
        (.patched outcome, session) ∧
      (outcome.ok → ∃ patch,
        addDependency session.service.settings.policy.versionFloor text manifest origin
          destination context = .ok patch ∧ patch.changes = [])) ∨
      ∃ patch world,
        addDependency session.service.settings.policy.versionFloor text manifest origin
          destination context = .ok patch ∧ patch.changes ≠ [] ∧
        session.world.overwrite manifest patch.text = .ok world ∧
        session.fix manifest origin destination context =
          (.patched (.applied patch.changes),
            (({ session with world := world } : Session).invalidate
              manifest).refreshed true) := by
  cases proposed : addDependency session.service.settings.policy.versionFloor text manifest
      origin destination context with
  | error failure =>
      refine Or.inl ⟨.failed failure, ?_, fun ok => by cases ok⟩
      rw [fix, patchFile, proposal, readable]
      simp only [proposed]
      rfl
  | ok patch =>
      by_cases still : patch.changes = []
      · exact Or.inl ⟨.unchanged, fix_of_unchanged readable proposed still,
          fun _ => ⟨patch, rfl, still⟩⟩
      cases written : session.world.overwrite manifest patch.text with
      | error fault =>
          refine Or.inl ⟨.notWritten fault, ?_, fun ok => by cases ok⟩
          have same : patchFile session.service.settings.policy.versionFloor
              session.world manifest origin destination context =
                (.notWritten fault, session.world) := by
            rw [patchFile, proposal, readable]
            simp only [proposed, written, List.isEmpty_iff, still, if_false]
          rw [fix, same]
          rfl
      | ok world =>
          refine Or.inr ⟨patch, world, rfl, still, written, ?_⟩
          have same : patchFile session.service.settings.policy.versionFloor
              session.world manifest origin destination context =
                (.applied patch.changes, world) := by
            rw [patchFile, proposal, readable]
            simp only [proposed, written, List.isEmpty_iff, still, if_false]
          rw [fix, same]
          rfl

namespace Ready

variable {text : String}

/-- What a fix leaves of a service that is ready: all as it was, and nothing to change if
it succeeds, or everything renewed. -/
theorem fix_cases {context : Option ProductContext}
    (ready : Ready manifest text graph map session)
    (declarable : ∀ owner ∈ context, Declarable owner text) :
    (∃ outcome, session.fix manifest.place.path origin destination context =
        (.patched outcome, session) ∧
      (outcome.ok → ∃ patch,
        addDependency session.service.settings.policy.versionFloor text
          manifest.place.path origin destination context = .ok patch ∧
        patch.changes = [])) ∨
      ∃ patch next held,
        addDependency session.service.settings.policy.versionFloor text
          manifest.place.path origin destination context = .ok patch ∧
        patch.changes ≠ [] ∧
        Addition origin destination (Outline.ofText text).package
          (Outline.ofText patch.text).package context ∧
        Renewed manifest text patch.text map held next session
          (session.fix manifest.place.path origin destination context).2 := by
  refine (Session.fix_cases ready.canonical).imp_right ?_
  rintro ⟨patch, world, added, changes, written, same⟩
  obtain ⟨-, -, -, closed, -⟩ := ready.tracks.holds ready.canonical
  obtain ⟨closedLater, addition⟩ :=
    Manifest.addition_of_changes closed declarable added changes
  obtain ⟨next, held, renewed⟩ := ready.renewed closedLater addition.name
    addition.declares written
  rw [same]
  exact ⟨patch, next, held, added, changes, addition, renewed⟩

/-- What a request does: the graph is looked up and the edge is judged, and then it is
fixed at most. -/
theorem ensure_eq (ready : Ready manifest text graph map (session.refreshed false))
    (origin destination : String) :
    ∃ looked, Ready manifest text graph map looked ∧
      Spares (session.refreshed false) looked ∧
      ∀ mode, session.ensure manifest origin destination mode =
        match looked.judge graph origin destination with
        | .error answer => (answer, looked)
        | .ok context =>
            if mode.allowsWrite then
              looked.fix manifest.place.path origin destination context
            else
              (looked.suggest manifest.place.path origin destination context,
                looked) := by
  obtain ⟨looked, found, spares, readyLooked⟩ := ready.look
  refine ⟨looked, readyLooked, spares, fun mode => ?_⟩
  have requested := @ensure_of_graph _ _ _ origin destination mode _ found
  rw [readyLooked.tracks.named] at requested
  exact requested

/-- A service that is ready when a request is made is ready after it, if the owner of what
is to be added can be declared. -/
theorem ensure (ready : Ready manifest text graph map (session.refreshed false))
    {mode : Mode} (declarable : mode.allowsWrite → ∀ owner,
      Across map session.service.settings.systemModules graph origin destination owner →
        Declarable owner text) :
    ∃ new next held, Ready manifest new next held
      (session.ensure manifest origin destination mode).2 := by
  obtain ⟨looked, readyLooked, spares, same⟩ := ready.ensure_eq origin destination
  have settings := ((continues_refreshed session false).trans spares.continues).settings
  rw [same]
  cases judged : looked.judge graph origin destination with
  | error answer => exact ⟨text, graph, map, readyLooked⟩
  | ok context =>
      dsimp only
      split
      · rename_i write
        have careful : ∀ owner ∈ context, Declarable owner text := by
          intro owner written
          apply declarable write owner
          rw [← settings]
          exact readyLooked.across (written ▸ judged)
        rcases readyLooked.fix_cases careful with
          ⟨outcome, still, -⟩ | ⟨patch, next, held, -, -, -, renewed⟩
        · rw [still]
          exact ⟨text, graph, map, readyLooked⟩
        · exact ⟨patch.text, next, held, renewed.ready⟩
      · exact ⟨text, graph, map, readyLooked⟩

end Ready

end Session

end Resolution

end PackageLayers

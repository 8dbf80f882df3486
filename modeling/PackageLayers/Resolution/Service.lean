/-
Purpose: Answering requests for dependencies in a project.
Main exports: Mode, Mode.ofText?, Service, Session, Service.start, Service.load,
  Session.refresh, Session.ensure
-/
import PackageLayers.Graph.Cache
import PackageLayers.Project.Update
import PackageLayers.Resolution.Judgement
import PackageLayers.Settings.Document

namespace PackageLayers.Resolution

open Manifest (ProductContext Reader patchFile proposal)
open Project (MergeOptions ProjectMap UpdateSummary storedMap updateMap)

/-!
A service keeps graphs and the time of its last refresh for one project.  A
session is a service at work in a world; every operation of a session returns its
result with the session after it.

A request is answered in four steps: the map of the project is refreshed if that
is due, the graph of the manifest is looked up, the edge is judged, and then the
manifest is changed or the change is described.  After a change the graph is
dropped and the map refreshed.
-/

/-! ### Modes

Every mode judges an edge in the same way.  Only `fix` writes it; `suggest`
describes what would be written, and `off` is for callers that want the
judgement alone.
-/

/-- How far a request may go. -/
inductive Mode where
  | off
  | suggest
  | fix
deriving Repr, Inhabited, DecidableEq

namespace Mode

/-- The word for a mode. -/
def label : Mode → String
  | .off => "off"
  | .suggest => "suggest"
  | .fix => "fix"

/-- Whether manifests may be written. -/
def allowsWrite : Mode → Bool
  | .fix => true
  | _ => false

/-- How a mode is looked up: without white space around it and in small
letters. -/
def normalText (text : String) : String :=
  Text.fold (Text.trim text)

/-- The mode that a text names. -/
def ofText? (text : String) : Option Mode :=
  let word := normalText text
  [off, suggest, fix].find? fun mode => mode.label == word

/-- The complaint about a text that names no mode. -/
def unknownMessage (text : String) : String :=
  s!"unknown resolution mode '{normalText text}' (expected off, suggest or fix)"

end Mode

/-! ### Services and sessions -/

/-- What is kept for one project. -/
structure Service where
  root : Path
  settings : Settings
  cache : GraphCache
  lastRefresh : Option Nat := none

namespace Service

/-- The directory of the service's files. -/
def cacheDirectory (service : Service) : Path :=
  service.settings.cacheDirectory service.root

/-- The reader of the service's manifests. -/
def reader (service : Service) : Reader :=
  { strategies := service.settings.strategies
    timeout := service.settings.reading.timeout }

/-- How findings are added to the map. -/
def mergeOptions (service : Service) : MergeOptions :=
  { aggressive := service.settings.map.aggressive
    overrideConflicts := service.settings.map.overrideConflicts }

/-- A service for the project below a root, with given settings. -/
def start (files : Files) (root : Path) (settings : Settings) :
    Except FileFault Service :=
  match files.canonical root with
  | .error _ => .error (.notRoot root)
  | .ok root =>
      .ok
        { root := root
          settings := settings
          cache := { directory :=
            (settings.cacheDirectory root).child "graphs" } }

/-- A service for the project below a root, with the settings of its file. -/
def load (files : Files) (root : Path) : Except FileFault Service := do
  let settings ← Settings.load files root
  start files root settings

/-- Whether a refresh is due. -/
def isDue (service : Service) (now : Nat) : Bool :=
  service.lastRefresh.all fun last =>
    service.settings.map.refreshInterval ≤ now - last

end Service

/-- A service at work in a world. -/
structure Session where
  service : Service
  world : World

namespace Session

/-- The session with another cache and world. -/
def withCached {α : Type} (session : Session) (cached : Cached α) : Session :=
  { service := { session.service with cache := cached.cache }
    world := cached.world }

/-- The graph of a manifest. -/
def graph? (session : Session) (manifest : Path) : Option Graph × Session :=
  let cached :=
    session.service.cache.graph? session.service.reader manifest session.world
  (cached.value, session.withCached cached)

/-- The graph of a manifest, newly built. -/
def rebuild? (session : Session) (manifest : Path) : Option Graph × Session :=
  let cached :=
    session.service.cache.rebuild? session.service.reader manifest session.world
  (cached.value, session.withCached cached)

/-- Drop what is kept of the graph of a manifest. -/
def invalidate (session : Session) (manifest : Path) : Session :=
  let (cache, world) :=
    session.service.cache.invalidate manifest session.world
  { service := { session.service with cache := cache }, world := world }

/-- Drop all graphs from memory. -/
def close (session : Session) : Session :=
  { session with
    service := { session.service with cache := session.service.cache.clear } }

/-- The stored map of the project. -/
def map (session : Session) : Except FileFault ProjectMap :=
  storedMap session.world.files session.service.cacheDirectory

/-- Bring the map of the project up to date. -/
def update (session : Session) (options : MergeOptions) :
    Except FileFault (UpdateSummary × Session) :=
  (updateMap options session.service.root session.service.cacheDirectory
    session.world).map fun (summary, world) =>
      (summary, { session with world := world })

/-- Bring the map up to date if that is due or forced; nothing if it is not. -/
def refresh (session : Session) (force : Bool) :
    Except FileFault (Option UpdateSummary × Session) :=
  if force || session.service.isDue session.world.now then
    (session.update session.service.mergeOptions).map fun (summary, session) =>
      (some summary,
        { session with
          service :=
            { session.service with lastRefresh := some session.world.now } })
  else .ok (none, session)

/-- The session after a refresh, or as it was if the refresh fails. -/
def refreshed (session : Session) (force : Bool) : Session :=
  match session.refresh force with
  | .ok (_, session) => session
  | .error _ => session

/-- The judgement of an edge from a target of a graph. -/
def judge (session : Session) (graph : Graph) (origin destination : String) :
    Except Answer (Option ProductContext) :=
  let map :=
    match session.map with
    | .ok map => map
    | .error _ => {}
  judgeEdge session.world.files map session.service.settings.systemModules graph
    origin destination

/-- Describe the change that adds a dependency. -/
def suggest (session : Session) (manifest : Path)
    (origin destination : String) (context : Option ProductContext) : Answer :=
  match proposal session.service.settings.policy.versionFloor
    session.world.files manifest origin destination context with
  | .error failure => .failed failure
  | .ok patch =>
      if patch.changes.isEmpty then .satisfied (.listed origin destination)
      else .proposed origin destination patch.changes

/-- Make the change that adds a dependency. -/
def fix (session : Session) (manifest : Path)
    (origin destination : String) (context : Option ProductContext) :
    Answer × Session :=
  let (outcome, world) :=
    patchFile session.service.settings.policy.versionFloor session.world
      manifest origin destination context
  let session := { session with world := world }
  let session :=
    if outcome.changed then (session.invalidate manifest).refreshed true
    else session
  (.patched outcome, session)

/-- Make `origin` depend on `destination` in a manifest, as far as the mode
allows. -/
def ensure (session : Session) (manifest : Path)
    (origin destination : String) (mode : Mode) : Answer × Session :=
  match (session.refreshed false).graph? manifest with
  | (none, session) => (.failed (.parseUnavailable manifest), session)
  | (some graph, session) =>
      match session.judge graph origin destination with
      | .error answer => (answer, session)
      | .ok context =>
          if mode.allowsWrite then
            session.fix graph.manifest origin destination context
          else
            (session.suggest graph.manifest origin destination context, session)

end Session

end PackageLayers.Resolution

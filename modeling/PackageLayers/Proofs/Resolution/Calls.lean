/-
Purpose: The calls of a service, and the files that it keeps for itself.
Main exports: Call, Session.perform, Session.run, Request, Session.serveAll,
  Service.Owns, Service.inside_of_owns, Service.Continues
-/
import PackageLayers.Proofs.Graph.Aside
import PackageLayers.Resolution.Service

namespace PackageLayers.Resolution

open Project (MergeOptions mapPath)

/-!
A service is called in any order, and between calls time passes and others may do
anything.  Where nobody else touches the files, each request still finds other times,
another chance, and other writes that are refused.

A service keeps a map and graphs in files of its own.  Which ones these are stays the
same from call to call, and all of them are in its directory.
-/

/-- What a service is called for. -/
inductive Call where
  | ensure (manifest : Path) (origin destination : String) (mode : Mode)
  | refresh (force : Bool)
  | update (options : MergeOptions)
  | graph (manifest : Path)
  | rebuild (manifest : Path)
  | invalidate (manifest : Path)
  | close
deriving Repr, DecidableEq

/-- A call, or what others do to the world. -/
inductive Step where
  | call (call : Call)
  | elsewhere (world : World)

namespace Session

/-- The session after an update, or as it was if the update fails. -/
def updated (session : Session) (options : MergeOptions) : Session :=
  match session.update options with
  | .ok (_, session) => session
  | .error _ => session

/-- The session after a call, and the answer if the call is a request. -/
def perform (session : Session) : Call → Option Answer × Session
  | .ensure manifest origin destination mode =>
      let (answer, later) := session.ensure manifest origin destination mode
      (some answer, later)
  | .refresh force => (none, session.refreshed force)
  | .update options => (none, session.updated options)
  | .graph manifest => (none, (session.graph? manifest).2)
  | .rebuild manifest => (none, (session.rebuild? manifest).2)
  | .invalidate manifest => (none, session.invalidate manifest)
  | .close => (none, session.close)

/-- The session after a step. -/
def after (session : Session) : Step → Session
  | .call call => (session.perform call).2
  | .elsewhere world => { session with world := world }

/-- The session after steps. -/
def run (session : Session) (steps : List Step) : Session :=
  steps.foldl after session

end Session

/-! ### Requests about one manifest -/

/-- What a request finds besides files: what the clocks show, what chance decides, and
which writes the disk refuses. -/
structure Conditions where
  now : Nat
  stamp : Nat
  chance : Nat := 0
  disk : Path → Content → Option WriteFault := fun _ _ => none

/-- A request about a manifest: which target is to depend on which, how far the request
may go, and when it is made. -/
structure Request where
  origin : String
  destination : String
  mode : Mode
  conditions : Conditions

namespace Session

/-- The session under other conditions. -/
def under (session : Session) (conditions : Conditions) : Session :=
  { session with
    world :=
      { session.world with
        now := conditions.now
        stamp := conditions.stamp
        chance := conditions.chance
        disk := conditions.disk } }

/-- The session after a request about a manifest. -/
def serve (manifest : Path) (session : Session) (request : Request) : Session :=
  ((session.under request.conditions).ensure manifest request.origin
    request.destination request.mode).2

/-- The session after requests about a manifest, each under its own conditions. -/
def serveAll (manifest : Path) (session : Session) (requests : List Request) :
    Session :=
  requests.foldl (serve manifest) session

theorem serveAll_concat (manifest : Path) (session : Session) (before : List Request)
    (request : Request) :
    session.serveAll manifest (before ++ [request]) =
      serve manifest (session.serveAll manifest before) request := by
  rw [serveAll, List.foldl_append]
  rfl

end Session

/-! ### Files of the service -/

namespace Service

/-- Whether a location is that of a file which a service keeps for itself, or
below it. -/
def Owns (service : Service) (location : Location) : Prop :=
  (mapPath service.cacheDirectory).place <+: location ∨
    ∃ manifest, (service.cache.fileFor manifest).place <+: location

theorem aside_of_not_owns {service : Service} {location : Location}
    (foreign : ¬service.Owns location) : service.cache.IsAside location :=
  fun manifest below => foreign (Or.inr ⟨manifest, below⟩)

theorem isName_json {text : String} (plain : ∀ c ∈ text.toList, (c == '/') = false) :
    IsName (text ++ ".json") := by
  have long : 5 ≤ (text ++ ".json").toList.length := by simp
  exact
    { filled := fun same => by rw [same] at long; simp at long
      notHere := fun same => by rw [same] at long; simp at long
      notUp := fun same => by rw [same] at long; simp at long
      whole := by
        simp only [String.toList_append, List.mem_append]
        rintro c (front | back)
        · exact plain c front
        · exact List.all_iff_forall_prop.mp
            (by decide : ".json".toList.all fun c => (c == '/') = false) c back }

theorem plain_key (path : Path) : ∀ c ∈ path.key.toList, (c == '/') = false := by
  have digit : ∀ value, value < 16 → (Text.hexDigit value == '/') = false := by
    decide
  intro c member
  rw [Path.key, Text.hexOf, String.toList_ofList, List.mem_flatMap] at member
  obtain ⟨byte, -, written⟩ := member
  have small := byte.toNat_lt
  simp only [List.mem_cons, List.not_mem_nil, or_false] at written
  rcases written with rfl | rfl
  · exact digit _ (by omega)
  · exact digit _ (by omega)

theorem isAbsolute_join {path other : Path} (absolute : path.isAbsolute) :
    (path.join other).isAbsolute := by
  obtain ⟨chars, rooted⟩ := Path.rooted_of_absolute absolute
  have filled : path.text.isEmpty = false := by
    rw [String.isEmpty_eq_false_iff]
    intro empty
    rw [empty] at rooted
    cases rooted
  rw [Path.join, filled, Bool.or_false]
  split
  · assumption
  · split <;> simp [Path.isAbsolute, rooted]

/-- A service starts with nothing in memory and its graphs in its directory. -/
theorem start_eq {files : Files} {root : Path} {settings : Settings}
    {service : Service} (started : start files root settings = .ok service) :
    service.cacheDirectory.isAbsolute ∧
      service.cache =
        { directory := service.cacheDirectory.child "graphs" } := by
  rw [start] at started
  split at started
  · cases started
  · rename_i canonical same
    cases started
    have absolute : canonical.isAbsolute := by
      rw [(Files.canonical_place same).2]
      exact Location.isAbsolute_path _
    refine ⟨?_, rfl⟩
    rw [cacheDirectory, Settings.cacheDirectory]
    split
    · exact isAbsolute_join absolute
    · exact isAbsolute_join (isAbsolute_join absolute)

/-- The files of a service are in its directory. -/
theorem inside_of_owns {service : Service} {location : Location}
    (graphs : service.cache.fileFor = GraphCache.fileFor
      { directory := service.cacheDirectory.child "graphs" })
    (owns : service.Owns location) : service.cacheDirectory.place <+: location := by
  have map : IsName "project-map.json" := by decide
  have graphsName : IsName "graphs" := by decide
  rcases owns with map' | ⟨manifest, graph⟩
  · rw [mapPath, Path.place_child _ map] at map'
    exact (List.prefix_append _ _).trans map'
  · rw [graphs, GraphCache.fileFor,
      Path.place_child _ (isName_json (plain_key manifest)),
      Path.place_child _ graphsName, List.append_assoc] at graph
    exact (List.prefix_append _ _).trans graph

/-- Whether a service is another after some calls. -/
structure Continues (service later : Service) : Prop where
  root : later.root = service.root
  settings : later.settings = service.settings
  cache : GraphCache.Follows service.cache later.cache

namespace Continues

theorem refl {service : Service} : Continues service service where
  root := rfl
  settings := rfl
  cache := .refl

theorem trans {service middle later : Service} (first : Continues service middle)
    (second : Continues middle later) : Continues service later where
  root := second.root.trans first.root
  settings := second.settings.trans first.settings
  cache := first.cache.trans second.cache

variable {service later : Service} (continues : Continues service later)

include continues

theorem cacheDirectory : later.cacheDirectory = service.cacheDirectory := by
  rw [Service.cacheDirectory, Service.cacheDirectory, continues.root,
    continues.settings]

theorem owns : later.Owns = service.Owns := by
  funext location
  rw [Owns, Owns, continues.cacheDirectory, continues.cache.fileFor]

theorem reader : later.reader = service.reader := by
  rw [Service.reader, Service.reader, continues.settings]

end Continues

end Service

/-! ### What calls leave of a service -/

namespace Session

open Service (Continues)

variable (session : Session) (manifest : Path)

theorem continues_update (options : MergeOptions) {summary : Project.UpdateSummary}
    {later : Session} (done : session.update options = .ok (summary, later)) :
    later.service = session.service := by
  unfold update at done
  cases result : Project.updateMap options session.service.root
      session.service.cacheDirectory session.world with
  | error fault =>
      rw [result] at done
      cases done
  | ok pair =>
      rw [result] at done
      cases done
      rfl

theorem continues_updated (options : MergeOptions) :
    Continues session.service (session.updated options).service := by
  unfold updated
  split
  · rename_i done
    rw [continues_update session options done]
    exact .refl
  · exact .refl

theorem continues_refreshed (force : Bool) :
    Continues session.service (session.refreshed force).service := by
  unfold refreshed refresh
  split
  · rename_i summary later done
    split at done
    · cases result : session.update session.service.mergeOptions with
      | error fault =>
          rw [result] at done
          cases done
      | ok pair =>
          obtain ⟨summary, updated⟩ := pair
          rw [result] at done
          cases done
          have same := continues_update session _ result
          have root : updated.service.root = session.service.root := by rw [same]
          have settings : updated.service.settings = session.service.settings := by
            rw [same]
          exact
            { root := root
              settings := settings
              cache := by
                change GraphCache.Follows _ updated.service.cache
                rw [same]
                exact .refl }
    · cases done
      exact .refl
  · exact .refl

theorem continues_graph :
    Continues session.service (session.graph? manifest).2.service where
  root := rfl
  settings := rfl
  cache := (GraphCache.Follows.look _ _ _ _).1

theorem continues_rebuild :
    Continues session.service (session.rebuild? manifest).2.service where
  root := rfl
  settings := rfl
  cache := GraphCache.Follows.rebuild _ _ _ _

theorem continues_invalidate :
    Continues session.service (session.invalidate manifest).service where
  root := rfl
  settings := rfl
  cache := GraphCache.Follows.invalidate _ _

theorem continues_close : Continues session.service session.close.service where
  root := rfl
  settings := rfl
  cache := .clear

theorem continues_fix (origin destination : String)
    (context : Option Manifest.ProductContext) :
    Continues session.service
      (session.fix manifest origin destination context).2.service := by
  unfold fix
  cases patched : Manifest.patchFile session.service.settings.policy.versionFloor
      session.world manifest origin destination context with
  | mk outcome world =>
      dsimp only
      split
      · have dropped := continues_invalidate
          { session with world := world } manifest
        exact dropped.trans (continues_refreshed
          (({ session with world := world } : Session).invalidate manifest) true)
      · exact .refl

theorem continues_ensure (origin destination : String) (mode : Mode) :
    Continues session.service
      (session.ensure manifest origin destination mode).2.service := by
  have looked := (continues_refreshed session false).trans
    (continues_graph _ manifest)
  unfold ensure
  split
  · rename_i later same
    rw [same] at looked
    exact looked
  · rename_i graph later same
    rw [same] at looked
    split
    · exact looked
    · split
      · exact looked.trans (continues_fix _ _ _ _ _)
      · exact looked

theorem continues_perform (call : Call) :
    Continues session.service (session.perform call).2.service := by
  cases call with
  | ensure manifest origin destination mode =>
      exact continues_ensure session manifest origin destination mode
  | refresh force => exact continues_refreshed session force
  | update options => exact continues_updated session options
  | graph manifest => exact continues_graph session manifest
  | rebuild manifest => exact continues_rebuild session manifest
  | invalidate manifest => exact continues_invalidate session manifest
  | close => exact continues_close session

/-- Whatever a service is called for, it stays the service that it was. -/
theorem continues_run (steps : List Step) :
    Continues session.service (session.run steps).service := by
  induction steps generalizing session with
  | nil => exact .refl
  | cons step steps inductionHypothesis =>
      refine Continues.trans ?_ (inductionHypothesis (session.after step))
      cases step with
      | call call => exact continues_perform session call
      | elsewhere world => exact .refl

end Session

end PackageLayers.Resolution

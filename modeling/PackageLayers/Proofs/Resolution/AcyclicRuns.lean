/-
Purpose: Requests close no cycle of targets, and none of packages that names tell.
Main exports: judgement_inside, Session.ensure_extends, Session.requests_stay_acyclic,
  Session.ensure_keeps_acyclic, Session.requests_keep_acyclic
-/
import PackageLayers.Proofs.Resolution.Readiness

namespace PackageLayers.Resolution

/-!
A request for an edge between targets of one package is judged by the graph of the
manifest as it is.  What is allowed closes no cycle, and what is written is what
was judged.  So every request leaves an acyclic graph acyclic, with the targets
that it had and at most the requested edge more; and so do requests in any number,
one after the other.

An edge to another package is judged by the map.  What the package of the manifest
leads to besides is where the search for a cycle began, as long as the name of the owner
means one package: then no cycle of packages is closed either.
-/

open Manifest (Declarable ProductContext patchFile)
open Project (Discovery IsMeant PackageGraph nodesOf)

/-- An edge to a target of the package that is to be added is one that the graph of
the package allows, and it is added as a target. -/
theorem judgement_inside {files : Files} {map : Project.ProjectMap}
    {known : List String} {graph : Graph} {origin destination : String}
    {context : Option ProductContext} (hasDestination : graph.hasTarget destination)
    (judged : judgeEdge files map known graph origin destination = .ok context) :
    context = none ∧ graph.hasTarget origin ∧
      ∃ decision, graph.evaluate (graph.analyze known) origin destination =
        .judged decision ∧ decision.blocked = false := by
  rw [judgeEdge, hasDestination] at judged
  split at judged
  · cases judged
  · rename_i hasOrigin
    split at judged
    · cases judged
    · rw [if_pos rfl, judgeInside] at judged
      split at judged
      · cases judged
      · cases judged
      · rename_i decision evaluated
        split at judged
        · cases judged
        · rename_i allowed
          cases judged
          refine ⟨rfl, by simpa using hasOrigin, decision, evaluated, ?_⟩
          rw [Decision.blocked, allowed]
          rfl

namespace Session

variable {session : Session} {manifest : Path} {graph : Graph}
  {origin destination : String}

/-- What a fix of an edge that was judged leaves of the graph. -/
theorem fix_extends (tracks : Tracks manifest graph session)
    (acyclic : graph.IsAcyclic) (hasOrigin : graph.hasTarget origin)
    (hasDestination : graph.hasTarget destination) {analysis : Analysis}
    {decision : Decision}
    (judged : graph.evaluate analysis origin destination = .judged decision)
    (allowed : decision.blocked = false) :
    ∃ later,
      Tracks manifest later
          (session.fix manifest.place.path origin destination none).2 ∧
        graph.Extends later origin destination ∧ later.IsAcyclic := by
  unfold fix
  cases done : patchFile session.service.settings.policy.versionFloor session.world
      manifest.place.path origin destination none with
  | mk outcome world =>
      dsimp only
      rcases patchFile_cases done with ⟨still, rfl⟩ |
        ⟨text, patch, readable, added, changes, rfl, written⟩
      · rw [if_neg (by rw [still]; exact Bool.false_ne_true)]
        exact ⟨graph, tracks, .refl, acyclic⟩
      · have changed : (Manifest.PatchOutcome.applied patch.changes).changed := rfl
        rw [if_pos changed]
        obtain ⟨later, grown, tracksLater⟩ :=
          tracks.patched readable added changes written
        refine ⟨later, tracksLater.refreshed true, ?_, ?_⟩
        · exact Graph.extends_of_sameTargets grown hasOrigin hasDestination
        · exact Graph.acyclic_of_allowed acyclic grown hasOrigin hasDestination judged
            allowed

/-- A request leaves the targets of an acyclic graph, its edges and at most the
requested one more, and closes no cycle. -/
theorem ensure_extends (tracks : Tracks manifest graph session)
    (acyclic : graph.IsAcyclic) (hasDestination : graph.hasTarget destination)
    (origin : String) (mode : Mode) :
    ∃ later,
      Tracks manifest later (session.ensure manifest origin destination mode).2 ∧
        graph.Extends later origin destination ∧ later.IsAcyclic := by
  obtain ⟨same | ⟨nothing, -⟩, looked⟩ := (tracks.refreshed false).look
  swap
  · rw [ensure_of_none (Prod.ext nothing rfl)]
    exact ⟨graph, looked, .refl, acyclic⟩
  rw [ensure_of_graph (Prod.ext same rfl)]
  split
  · exact ⟨graph, looked, .refl, acyclic⟩
  · rename_i context judged
    split
    · obtain ⟨rfl, hasOrigin, decision, evaluated, allowed⟩ :=
        judgement_inside hasDestination judged
      rw [looked.named]
      exact fix_extends looked acyclic hasOrigin hasDestination evaluated allowed
    · exact ⟨graph, looked, .refl, acyclic⟩

/-- Requests keep the targets of an acyclic graph, and close no cycle. -/
theorem serveAll_acyclic {requests : List Request} (tracks : Tracks manifest graph session)
    (acyclic : graph.IsAcyclic)
    (inside : ∀ request ∈ requests, graph.hasTarget request.destination) :
    ∃ later, Tracks manifest later (session.serveAll manifest requests) ∧
      (∀ name, later.hasTarget name = graph.hasTarget name) ∧ later.IsAcyclic := by
  induction requests generalizing session graph with
  | nil => exact ⟨graph, tracks, fun _ => rfl, acyclic⟩
  | cons request requests inductionHypothesis =>
      rw [List.forall_mem_cons] at inside
      obtain ⟨next, tracksNext, extends', acyclicNext⟩ :=
        ensure_extends (tracks.under request.conditions) acyclic inside.1 request.origin
          request.mode
      obtain ⟨later, tracksLater, targets, acyclicLater⟩ :=
        inductionHypothesis tracksNext acyclicNext fun other member => by
          rw [extends'.targets]
          exact inside.2 other member
      refine ⟨later, tracksLater, fun name => ?_, acyclicLater⟩
      rw [targets, extends'.targets]

/-- Whatever is asked of a service about dependencies on targets of a manifest, in
whatever modes and order, at whatever times and whichever writes are refused: if the
graph of the manifest is acyclic at first, it is acyclic after every request; its
targets stay, and each request leaves its edges as they were, or adds the one that was
asked for. -/
theorem requests_stay_acyclic {files : Files} {root : Path} {settings : Settings}
    {start : Session} {text : String}
    (started : Service.start files root settings = .ok start.service)
    (syntactic : start.service.reader.IsSyntactic)
    (foreign : ¬start.service.Owns manifest.place)
    (readable : start.world.files.textOf? manifest = some text)
    (closed : Source.AllClosed (Source.ofText text))
    (built : Graph.ofManifest? start.world.files manifest = some graph)
    (keeps : start.service.cache.KeepsOnly manifest.place.path graph start.world)
    (acyclic : graph.IsAcyclic) (before : List Request) (request : Request)
    (inside : ∀ other ∈ before ++ [request], graph.hasTarget other.destination) :
    let earlier := start.serveAll manifest before
    let later := start.serveAll manifest (before ++ [request])
    ∃ old new,
      Graph.ofManifest? earlier.world.files manifest = some old ∧
        Graph.ofManifest? later.world.files manifest = some new ∧
        new.IsAcyclic ∧ (∀ name, new.hasTarget name = graph.hasTarget name) ∧
        old.Extends new request.origin request.destination := by
  intro earlier later
  have tracks := Tracks.of_apart (.of_start started syntactic foreign) readable closed
    built keeps
  obtain ⟨old, tracksOld, targets, acyclicOld⟩ := serveAll_acyclic tracks acyclic
    fun other member => inside other (List.mem_append_left _ member)
  have hasDestination : old.hasTarget request.destination := by
    rw [targets]
    exact inside request (by simp)
  obtain ⟨new, tracksNew, extends', acyclicNew⟩ :=
    ensure_extends (tracksOld.under request.conditions) acyclicOld hasDestination
      request.origin request.mode
  have last : later = serve manifest earlier request :=
    serveAll_concat manifest start before request
  refine ⟨old, new, tracksOld.ofManifest, ?_, acyclicNew, fun name => ?_, extends'⟩
  · rw [last]
    exact tracksNew.ofManifest
  · rw [extends'.targets, targets]

/-- The graph of the sample's manifest. -/
def sampleGraph : Graph :=
  Graph.ofPackage
    { name := some "p", targets := [{ name := "App" }, { name := "Core" }] }
    ⟨"/p/Package.swift"⟩ 0

theorem acyclic_sampleGraph : sampleGraph.IsAcyclic := by
  have none {name next : String} : ¬sampleGraph.Edge name next := by
    intro edge
    obtain ⟨-, dependency, listed, -⟩ := Graph.edge_iff.mp edge
    rw [Graph.dependenciesOf, sampleGraph, Graph.get?_ofPackage] at listed
    cases found : List.find? (fun target : Manifest.Target => target.name == name)
        _ with
    | none =>
        rw [found] at listed
        cases listed
    | some target =>
        rw [found] at listed
        have member := List.mem_of_find?_eq_some found
        simp only [List.mem_cons, List.not_mem_nil, or_false] at member
        rcases member with rfl | rfl <;> cases listed
  intro name cycle
  obtain ⟨next, edge, -⟩ := Relation.TransGen.head'_iff.mp cycle
  exact none edge

/-- The application is to depend on its core; the first time the disk is full. -/
def appRequests : List Request :=
  [{ origin := "App"
     destination := "Core"
     mode := .fix
     conditions :=
       { now := 0
         stamp := 5
         disk := fun _ _ => some ⟨.content, "No space left on device"⟩ } },
    { origin := "App"
      destination := "Core"
      mode := .fix
      conditions := { now := 60000, stamp := 9 } }]

/-- The core is to depend on the application, which would close a cycle. -/
def coreRequest : Request where
  origin := "Core"
  destination := "App"
  mode := .fix
  conditions := { now := 50, stamp := 3 }

theorem requests_stay_acyclic_sample :
    let earlier := sampleSession.serveAll ⟨"/p/Package.swift"⟩ appRequests
    let later := sampleSession.serveAll ⟨"/p/Package.swift"⟩
      (appRequests ++ [coreRequest])
    ∃ old new,
      Graph.ofManifest? earlier.world.files ⟨"/p/Package.swift"⟩ = some old ∧
        Graph.ofManifest? later.world.files ⟨"/p/Package.swift"⟩ = some new ∧
        new.IsAcyclic ∧ (∀ name, new.hasTarget name = sampleGraph.hasTarget name) ∧
        old.Extends new "Core" "App" := by
  have started : Service.start sampleWorld.files ⟨"/p"⟩ {} =
      .ok sampleSession.service := rfl
  have syntactic : sampleSession.service.reader.IsSyntactic := by
    simp [Service.reader, sampleSession, Settings.strategies,
      Manifest.Reader.IsSyntactic, Manifest.Strategy.isExternal]
  have directory : sampleSession.service.cacheDirectory.place =
      ["p", ".build", "spmdeps"] := by decide +kernel
  obtain ⟨-, empty⟩ := Service.start_eq started
  have inside (location : Location) (owns : sampleSession.service.Owns location) :
      ["p", ".build", "spmdeps"] <+: location :=
    directory ▸ Service.inside_of_owns (by rw [empty]) owns
  have foreign : ¬sampleSession.service.Owns (⟨"/p/Package.swift"⟩ : Path).place := by
    intro owned
    have below := inside _ owned
    revert below
    decide +kernel
  have bare (location : Location) (owned : sampleSession.service.cache.Owns location) :
      sampleSession.world.files.file? location = none := by
    obtain ⟨other, same⟩ := owned
    have owns : sampleSession.service.Owns location :=
      Or.inr ⟨other, same ▸ List.prefix_refl _⟩
    obtain ⟨rest, whole⟩ := inside location owns
    rw [← whole]
    rfl
  have readable : sampleSession.world.files.textOf? ⟨"/p/Package.swift"⟩ =
      some "Package(targets: [.target(name: \"App\"), .target(name: \"Core\")])" := by
    decide +kernel
  have built : Graph.ofManifest? sampleSession.world.files ⟨"/p/Package.swift"⟩ =
      some sampleGraph := by decide +kernel
  exact requests_stay_acyclic started syntactic foreign readable (by decide +kernel)
    built (.of_bare rfl bare) acyclic_sampleGraph appRequests coreRequest
    (by decide +kernel)

/-! ### Cycles of packages -/

/-- Whether the owner of a product can be declared in a manifest, and its name and the
declaration lead to no package but the one of just that name. -/
structure Means (session : Session) (manifest : Path) (text : String)
    (owner : ProductContext) : Prop where
  declarable : Declarable owner text
  meant : ∀ user ∈ nodesOf [] session.discoveries,
    user.manifest = manifest.place.path →
      IsMeant (nodesOf [] session.discoveries) user.directory owner

theorem Spares.means {later : Session} (spares : Spares session later) {text : String}
    {owner : ProductContext} (means : session.Means manifest text owner) :
    later.Means manifest text owner where
  declarable := means.declarable
  meant := by
    rw [spares.discoveries_eq]
    exact means.meant

section

variable {map : Project.ProjectMap} {text : String} {moment : Timestamp}

/-- A fix of what was judged leaves the packages without cycles, if the name of the owner
means its package. -/
theorem fix_keeps_acyclic {context : Option ProductContext}
    (ready : Ready manifest text graph map session)
    (acyclic : (session.packages moment).IsAcyclic)
    (judged : session.judge graph origin destination = .ok context)
    (means : ∀ owner ∈ context, session.Means manifest text owner)
    (moment' : Timestamp) :
    ((session.fix manifest.place.path origin destination context).2.packages
      moment').IsAcyclic := by
  rcases ready.fix_cases fun owner written => (means owner written).declarable with
    ⟨outcome, same, -⟩ | ⟨patch, next, held, -, -, addition, renewed⟩
  · rw [same]
    exact acyclic
  rw [packages, renewed.continues.root]
  rcases renewed.rereads with rescanned | ⟨user, contributed, rescanned⟩
  · rw [rescanned]
    exact acyclic
  rw [← Discovery.package_of_ofText contributed] at addition
  have place := Discovery.manifest_of_ofText contributed
  rw [rescanned]
  refine PackageGraph.acyclic_of_addition acyclic addition
    (fun member owner written => ?_) moment'
  obtain rfl : context = some owner := written
  have apart := (ready.across judged).apart
  rw [ready.knows.packageOf_eq ready.spelled member (place.trans ready.tracks.named.symm),
    ready.knows.cycleThrough_eq moment] at apart
  exact ⟨(means owner rfl).meant user member place, apart⟩

/-- A request leaves the packages of a project without cycles, if the refresh that it
begins with makes the service ready, and the name of the owner of what it may add means
its package. -/
theorem ensure_keeps_acyclic
    (ground : Project.IsGround session.world.files session.service.root)
    (ready : Ready manifest text graph map (session.refreshed false))
    (acyclic : (session.packages moment).IsAcyclic) {mode : Mode}
    (means : mode.allowsWrite → ∀ owner,
      Across map session.service.settings.systemModules graph origin destination owner →
        session.Means manifest text owner) (moment' : Timestamp) :
    ((session.ensure manifest origin destination mode).2.packages
      moment').IsAcyclic := by
  obtain ⟨looked, readyLooked, spares, same⟩ := ready.ensure_eq origin destination
  have all := (spares_refreshed ground false).trans spares
  have still : (looked.packages moment).IsAcyclic := by
    rw [all.packages_eq]
    exact acyclic
  rw [same]
  cases judged : looked.judge graph origin destination with
  | error answer => exact still
  | ok context =>
      dsimp only
      split
      swap
      · exact still
      rename_i write
      refine fix_keeps_acyclic readyLooked still judged (fun owner written => ?_) moment'
      have across := readyLooked.across (written ▸ judged)
      rw [all.continues.settings] at across
      exact all.means (means write owner across)

/-- Whether the owner of every product that a request may write into a manifest is as it
should be, for a text, a graph and a map by which that is judged. -/
def AddsOnly (session : Session) (manifest : Path) (request : Request)
    (proper : String → Graph → Project.ProjectMap → ProductContext → Prop) : Prop :=
  request.mode.allowsWrite → ∀ text graph map owner,
    Ready manifest text graph map (session.refreshed false) →
      Across map session.service.settings.systemModules graph request.origin
        request.destination owner → proper text graph map owner

/-- What holds when the first request is made, and when a request is made that follows
one for which it holds, holds whenever one is made. -/
theorem serveAll_induction {holds : Session → Prop} {requests before : List Request}
    {request : Request}
    (start : ∀ first ∈ requests.head?, holds (session.under first.conditions))
    (kept : ∀ before request next, before ++ [request, next] <+: requests →
      let earlier := session.serveAll manifest before
      holds (earlier.under request.conditions) →
        holds ((serve manifest earlier request).under next.conditions))
    (here : before ++ [request] <+: requests) :
    holds ((session.serveAll manifest before).under request.conditions) := by
  induction before using List.reverseRecOn generalizing request with
  | nil =>
      obtain ⟨rest, rfl⟩ := here
      exact start request rfl
  | append_singleton before last inductionHypothesis =>
      rw [serveAll_concat]
      have both : before ++ [last, request] <+: requests := by simpa using here
      exact kept before last request both
        (inductionHypothesis ((List.prefix_append _ _).trans here))

/-- Requests about a manifest leave the packages of a project without cycles, one after
the other and at whatever times, if what each of them may add is declared by a name that
means its package there and then. -/
theorem requests_keep_acyclic {requests : List Request}
    (ground : Project.IsGround session.world.files session.service.root)
    (ready : ∀ first ∈ requests.head?, Ready manifest text graph map
      ((session.under first.conditions).refreshed false))
    (ordinary : ∀ request ∈ requests, request.conditions.AreOrdinary)
    (acyclic : (session.packages moment).IsAcyclic)
    (means : ∀ before request, before ++ [request] <+: requests →
      let earlier := (session.serveAll manifest before).under request.conditions
      earlier.AddsOnly manifest request fun text _ _ owner =>
        earlier.Means manifest text owner) :
    ((session.serveAll manifest requests).packages moment).IsAcyclic := by
  let holds (session : Session) : Prop :=
    Project.IsGround session.world.files session.service.root ∧
      (∃ text graph map, Ready manifest text graph map (session.refreshed false)) ∧
        (session.packages moment).IsAcyclic
  have kept (before : List Request) (request : Request)
      (initial : before ++ [request] <+: requests)
      (held : holds ((session.serveAll manifest before).under request.conditions)) :
      (∃ text graph map, Ready manifest text graph map
          (serve manifest (session.serveAll manifest before) request)) ∧
        ((serve manifest (session.serveAll manifest before) request).packages
          moment).IsAcyclic := by
    obtain ⟨still, ⟨text', graph', map', ready'⟩, none⟩ := held
    have proper := fun write owner across =>
      means before request initial write text' graph' map' owner ready' across
    exact ⟨ready'.ensure fun write owner across => (proper write owner across).declarable,
      ensure_keeps_acyclic still ready' none proper moment⟩
  rcases List.eq_nil_or_concat requests with rfl | ⟨before, last, rfl⟩
  · exact acyclic
  rw [List.concat_eq_append] at *
  rw [serveAll_concat]
  refine (kept before last (List.prefix_refl _) ?_).2
  refine serveAll_induction (fun first member => ?_) ?_ (List.prefix_refl _)
  · exact ⟨ground, ⟨text, graph, map, ready first member⟩, acyclic⟩
  · intro before request next initial earlier held
    have short : before ++ [request] <+: _ :=
      List.IsPrefix.trans ⟨[next], by simp⟩ initial
    obtain ⟨⟨new, later, held, readyLater⟩, none⟩ := kept before request short held
    have mild := ordinary next (initial.subset (by simp))
    refine ⟨readyLater.ground, ⟨new, later, held, ?_⟩, none⟩
    exact (readyLater.under mild).refreshed false

end

end Session

end PackageLayers.Resolution

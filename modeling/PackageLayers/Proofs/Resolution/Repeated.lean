/-
Purpose: A request that succeeded changes nothing when it is made again.
Main exports: Graph.Gained, IsDone, Across.again, Session.Fulfils,
  Session.ensure_done, Session.requests_again
-/
import PackageLayers.Proofs.Project.Revisions
import PackageLayers.Proofs.Resolution.AcyclicRuns

namespace PackageLayers

/-!
The second of two requests does not see what the first one saw: the text of the
manifest is another one, its graph was dropped, and the map has been brought up to
date.  But the new graph differs in what was added only, and the map has learned of
the product at most.  So the same edge is there already, or is judged as before; and
then there is nothing left to add to the text.

A manifest may know the owner by a name that is taken for that of its own package.  The
map would then learn that the product is of this package, and the second request would
look for it among the targets.
-/

open Manifest (Dependency Firstly Outline Package Reader Target)

/-! ### The graph of the new text -/

namespace Graph

variable {graph later : Graph} {origin destination : String}
  {front rest : List Target} {target : Target} {added : List Dependency}

/-- Whether a graph is another one in which a target has more dependencies. -/
structure Gained (graph later : Graph) (origin : String) (added : List Dependency) :
    Prop where
  manifest : later.manifest = graph.manifest
  packageName : later.packageName = graph.packageName
  targets : ∀ name, later.hasTarget name = graph.hasTarget name
  dependencies : ∀ name, later.dependenciesOf name =
    graph.dependenciesOf name ++ if name = origin then added else []

/-- The graph of a package whose first target with a name has more dependencies. -/
theorem gained_ofPackage {before after : Package} (manifest : Path)
    (modified modifiedLater : Nat) (name : after.name = before.name)
    (firstly : Firstly before.targets origin front target rest)
    (targets : after.targets = front ++ target.grown added :: rest) :
    (ofPackage before manifest modified).Gained (ofPackage after manifest modifiedLater)
      origin added := by
  have find := Manifest.find_first target rest firstly.named firstly.first
  have findLater := Manifest.find_first (target.grown added) rest firstly.named
    firstly.first
  refine ⟨rfl, ?_, fun other => ?_, fun other => ?_⟩
  · rw [ofPackage, ofPackage, name]
  · rw [hasTarget, hasTarget, Dict.contains, Dict.contains, get?_ofPackage,
      get?_ofPackage, firstly.split, targets, find, findLater]
    split <;> rfl
  · rw [dependenciesOf, dependenciesOf, get?_ofPackage, get?_ofPackage, firstly.split,
      targets, find, findLater]
    split
    · rfl
    · rw [List.append_nil]

/-- What the graph of a manifest becomes when the first target with a name has more
dependencies in its text. -/
theorem gained_of_ofFile {path : Path} {file fileLater : File} {text new : String}
    (built : ofFile? path file = some graph) (holds : file.content = .text text)
    (builtLater : ofFile? path fileLater = some later)
    (holdsLater : fileLater.content = .text new)
    (name : (Outline.ofText new).package.name = (Outline.ofText text).package.name)
    (firstly : Firstly (Outline.ofText text).package.targets origin front target rest)
    (targets : (Outline.ofText new).package.targets =
      front ++ target.grown added :: rest) : graph.Gained later origin added := by
  rw [eq_of_ofFile built holds, eq_of_ofFile builtLater holdsLater]
  generalize (Outline.ofText new).package = after at name targets
  generalize (Outline.ofText text).package = before at name firstly
  refine @gained_ofPackage origin front rest target added (Reader.named path before)
    (Reader.named path after) path _ _ ?_ firstly targets
  rw [Reader.named, Reader.named, name]

namespace Gained

/-- A target of the package that was added is there. -/
theorem hasEdge (gained : graph.Gained later origin [.bare destination])
    (known : graph.hasTarget destination) : later.hasEdge origin destination := by
  rw [hasEdge_iff, edge_iff, gained.targets, gained.dependencies, if_pos rfl]
  exact ⟨known, .bare destination, by simp, rfl, rfl⟩

/-- Products are no entries without a package. -/
theorem unresolved (gained : graph.Gained later origin added)
    (qualified : ∀ dependency ∈ added, dependency.isUnqualified = false)
    (name : String) : later.unresolved name = graph.unresolved name := by
  rw [Graph.unresolved, Graph.unresolved, gained.dependencies, List.filter_append]
  simp only [gained.targets]
  have none : (if name = origin then added else []).filter (fun dependency =>
      dependency.isUnqualified && !graph.hasTarget dependency.name) = [] := by
    rw [List.filter_eq_nil_iff]
    intro dependency member
    split at member
    · rw [qualified dependency member, Bool.false_and]
      exact Bool.false_ne_true
    · cases member
  rw [none, List.append_nil]

end Gained

end Graph

namespace Resolution

open Manifest (Addition Declarable IsForeign Patch ProductAdded ProductContext
  addDependency)
open Project (Discovery PackageGraph ProjectMap isRevision_of_addition)

variable {files : Files} {map held : ProjectMap} {known : List String}
  {graph later : Graph} {manifest : Path} {origin destination floor text : String}

/-! ### What is judged the second time -/

/-- Whether what was judged leaves nothing to do: the dependency is there, or the text
has all that would be added. -/
inductive IsDone (floor text : String) (manifest : Path) (origin destination : String) :
    Except Answer (Option ProductContext) → Prop
  | answered {answer : Answer} (ok : answer.ok) :
      IsDone floor text manifest origin destination (.error answer)
  | unchanged {context : Option ProductContext} {patch : Patch}
      (proposed : addDependency floor text manifest origin destination context =
        .ok patch) (still : patch.changes = []) :
      IsDone floor text manifest origin destination (.ok context)

/-- What is done does not depend on the files, which are looked at only if the target is
missing. -/
theorem IsDone.of_files {other : Files}
    (done : IsDone floor text manifest origin destination
      (judgeEdge files map known graph origin destination)) :
    IsDone floor text manifest origin destination
      (judgeEdge other map known graph origin destination) := by
  cases present : graph.hasTarget origin with
  | true =>
      rw [judgeEdge, present] at done ⊢
      exact done
  | false =>
      rw [judgeEdge, present, missingTarget] at done
      cases done with
      | answered ok => split at ok <;> cases ok

/-- A target that is added is one of the package. -/
theorem judgement_local
    (judged : judgeEdge files map known graph origin destination = .ok none) :
    graph.hasTarget origin ∧ known.contains destination = false ∧
      graph.hasTarget destination := by
  rw [judgeEdge] at judged
  split at judged
  · cases judged
  rename_i present
  split at judged
  · cases judged
  rename_i unknown
  split at judged
  · rename_i inside
    exact ⟨by simpa using present, Bool.eq_false_iff.mpr unknown, inside⟩
  · split at judged
    · cases judged
    · rw [judgeAcross] at judged
      split at judged
      · cases judged
      split at judged
      · cases judged
      split at judged
      · cases judged
      split at judged <;> cases judged

/-- After a target was added, it is listed. -/
theorem judgement_local_again {other : Files}
    (judged : judgeEdge files map known graph origin destination = .ok none)
    (gained : graph.Gained later origin [.bare destination]) :
    judgeEdge other held known later origin destination =
      .error (.satisfied (.listed origin destination)) := by
  obtain ⟨present, unknown, inside⟩ := judgement_local judged
  rw [judgeEdge, gained.targets, gained.targets, present, unknown, inside]
  simp only [Bool.not_true, Bool.false_eq_true, if_false, if_true]
  rw [judgeInside, Graph.evaluate, if_pos (gained.hasEdge inside)]

/-- A product that is listed is there. -/
theorem judgement_of_listed {owner : Project.Owner} (present : graph.hasTarget origin)
    (unknown : known.contains destination = false)
    (outside : graph.hasTarget destination = false)
    (owned : map.owner? destination = some owner)
    (foreign : Text.sameFolded owner.package (packageOf map graph) = false)
    (listed : listsProduct graph origin owner.product owner.package) :
    judgeEdge files map known graph origin destination =
      .error (.satisfied (.productListed origin owner.product owner.package)) := by
  rw [judgeEdge, present, unknown, outside, owned]
  simp only [Bool.not_true, Bool.false_eq_true, if_false]
  rw [judgeAcross]
  simp only [foreign, listed, Bool.false_eq_true, if_false, if_true]

/-- After a product was added under a name that is not taken for that of the package
itself, it is listed, or is to be added in the same way. -/
theorem Across.again {context : ProductContext} {listed : String}
    {added : List Dependency}
    (across : Across map known graph origin destination context)
    (follows : map.Follows held context listed)
    (gained : graph.Gained later origin added)
    (few : added = [] ∨ added = [.product context.product listed])
    (lists : .product context.product listed ∈ later.dependenciesOf origin)
    (package : packageOf held later = packageOf map graph)
    (foreign : Text.sameFolded listed (packageOf map graph) = false)
    (apart : held.graph.cycleThrough? (packageOf map graph) context.package = none) :
    (∃ reason, judgeEdge files held known later origin destination =
        .error (.satisfied reason)) ∨
      judgeEdge files held known later origin destination = .ok (some context) := by
  have present := (gained.targets origin).trans across.present
  have outside := (gained.targets destination).trans across.outside
  have qualified : ∀ dependency ∈ added, dependency.isUnqualified = false := by
    rcases few with rfl | rfl
    · exact fun _ member => absurd member List.not_mem_nil
    · intro dependency member
      rw [List.mem_singleton.mp member]
      rfl
  rcases follows.owner across.owner with same | named
  · by_cases listedThere : listsProduct later origin context.product context.package
    · exact Or.inl ⟨_, judgement_of_listed present across.unknown outside same
        (package ▸ across.foreign) listedThere⟩
    · refine Or.inr (judgement_across_iff.mpr ?_)
      exact
        { present := present
          unknown := across.unknown
          outside := outside
          owner := same
          foreign := package ▸ across.foreign
          unlisted := Bool.eq_false_iff.mpr listedThere
          qualified := by
            rw [gained.unresolved qualified]
            exact across.qualified
          apart := package ▸ apart
          provenance := by
            rw [follows.provenance, gained.manifest]
            exact across.provenance }
  · have listedThere : listsProduct later origin context.product listed := by
      rw [listsProduct, List.any_eq_true]
      refine ⟨_, lists, ?_⟩
      dsimp only
      rw [beq_self_eq_true, Text.sameFolded_refl]
      rfl
    exact Or.inl ⟨_, judgement_of_listed present across.unknown outside named
      (package ▸ foreign) listedThere⟩

namespace Session

variable {session last : Session}

/-! ### Requests that are done -/

/-- Whether a request that a target depend on another is answered with success, and leaves
the manifest as it is. -/
structure Fulfils (session : Session) (manifest : Path) (origin destination : String) :
    Prop where
  ok : (session.ensure manifest origin destination .fix).1.ok
  unchanged : (session.ensure manifest origin destination .fix).1.changed = false
  same : (session.ensure manifest origin destination .fix).2.world.files.textOf?
    manifest = session.world.files.textOf? manifest

/-- A request that leaves nothing to do is answered so, and changes nothing. -/
theorem Ready.fulfils (ready : Ready manifest text graph map session)
    (done : IsDone session.service.settings.policy.versionFloor text manifest.place.path
      origin destination (session.judge graph origin destination)) :
    session.Fulfils manifest origin destination := by
  obtain ⟨looked, readyLooked, spares, requested⟩ :=
    (ready.refreshed false).ensure_eq origin destination
  have settings : looked.service.settings = session.service.settings :=
    ((continues_refreshed session false).trans spares.continues).settings
  have judgement : IsDone looked.service.settings.policy.versionFloor text
      manifest.place.path origin destination
      (looked.judge graph origin destination) := by
    rw [ready.knows.judge_eq] at done
    rw [readyLooked.knows.judge_eq, settings]
    exact done.of_files
  suffices answered : ∃ answer : Answer, answer.ok ∧ answer.changed = false ∧
      session.ensure manifest origin destination .fix = (answer, looked) by
    obtain ⟨answer, ok, unchanged, same⟩ := answered
    constructor
    · rw [same]
      exact ok
    · rw [same]
      exact unchanged
    · rw [same, readyLooked.readable, ready.readable]
  rw [requested]
  cases judged : looked.judge graph origin destination with
  | error answer =>
      rw [judged] at judgement
      cases judgement with
      | answered ok => exact ⟨answer, ok, looked.judgement_unchanged judged, rfl⟩
  | ok context =>
      rw [judged] at judgement
      cases judgement with
      | unchanged proposed still =>
          exact ⟨.patched .unchanged, rfl, rfl,
            fix_of_unchanged readyLooked.canonical proposed still⟩

/-- Whether a service is ready, and a request about the manifest leaves nothing to do. -/
def NeedsNothing (session : Session) (manifest : Path) (origin destination : String) :
    Prop :=
  ∃ text graph map, Ready manifest text graph map session ∧
    IsDone session.service.settings.policy.versionFloor text manifest.place.path origin
      destination (session.judge graph origin destination)

/-- What leaves nothing to do is answered so whenever it is asked for. -/
theorem NeedsNothing.fulfils (nothing : session.NeedsNothing manifest origin destination)
    {conditions : Conditions} (ordinary : conditions.AreOrdinary) :
    (session.under conditions).Fulfils manifest origin destination := by
  obtain ⟨text, graph, map, ready, done⟩ := nothing
  exact (ready.under ordinary).fulfils done

/-! ### What is known after a fix -/

namespace Renewed

variable {new : String} {context : Option ProductContext}

/-- The packages are known by the same manifests, and none leads to the one that got a
dependency unless it did before. -/
theorem kept (renewed : Renewed manifest text new map held later session last)
    (ready : Ready manifest text graph map session)
    (addition : Addition origin destination (Outline.ofText text).package
      (Outline.ofText new).package context) :
    held.graph.packageOf? = map.graph.packageOf? ∧
      ∀ other, map.graph.cycleThrough? (packageOf map graph) other = none →
        held.graph.cycleThrough? (packageOf map graph) other = none := by
  let moment := Timestamp.ofMilliseconds 0
  rw [renewed.ready.knows.packageOf?_eq moment, ready.knows.packageOf?_eq moment]
  simp only [renewed.ready.knows.cycleThrough_eq moment,
    ready.knows.cycleThrough_eq moment, packages, renewed.continues.root]
  rcases renewed.rereads with same | ⟨user, contributed, same⟩
  · rw [same]
    exact ⟨rfl, fun _ apart => apart⟩
  · rw [← Discovery.package_of_ofText contributed] at addition
    have revision := isRevision_of_addition addition
    rw [same]
    refine ⟨PackageGraph.packageOf_revised revision, fun other apart => ?_⟩
    refine PackageGraph.cycleThrough_revised revision (fun member => ?_) apart
    refine ready.knows.packageOf_eq ready.spelled member ?_
    rw [Discovery.manifest_of_ofText contributed, ready.tracks.named]

/-- The map has learned of the product at most. -/
theorem follows {owner : ProductContext} {listed : String}
    (renewed : Renewed manifest text new map held later session last)
    (ready : Ready manifest text graph map session)
    (defaults : session.service.mergeOptions = {})
    (added : ProductAdded owner origin (Outline.ofText text).package
      (Outline.ofText new).package)
    (uses : ∀ usage ∈ (Outline.ofText new).package.productUsages,
      usage ∈ (Outline.ofText text).package.productUsages ∨
        usage = (owner.product, listed)) : map.Follows held owner listed := by
  have settled := ready.knows.settled session.world.moment
  have made := renewed.made
  rw [defaults] at settled made
  refine ProjectMap.Follows.of_timeless ?_ made
  rcases renewed.rereads with same | ⟨user, contributed, same⟩
  · rw [same]
    exact ProjectMap.Follows.refl.of_timeless settled
  · rw [← Discovery.package_of_ofText contributed] at added uses
    rw [same]
    exact ProjectMap.follows_of_productAdded rfl rfl settled added uses

/-- After a fix the request is done, if the owner of a product could be declared and goes
by no name there that is taken for the package itself. -/
theorem done {patch : Patch}
    (renewed : Renewed manifest text patch.text map held later session last)
    (ready : Ready manifest text graph map session)
    (defaults : session.service.mergeOptions = {})
    (judged : session.judge graph origin destination = .ok context)
    (careful : ∀ owner ∈ context,
      Declarable owner text ∧ IsForeign owner text (packageOf map graph))
    (added : addDependency floor text manifest.place.path origin destination context =
      .ok patch)
    (addition : Addition origin destination (Outline.ofText text).package
      (Outline.ofText patch.text).package context) :
    IsDone floor patch.text manifest.place.path origin destination
      (last.judge later origin destination) := by
  obtain ⟨file, -, content, closed, built⟩ := ready.tracks.holds ready.canonical
  obtain ⟨fileLater, -, contentLater, -, builtLater⟩ :=
    renewed.ready.tracks.holds renewed.ready.canonical
  have again := (Manifest.addDependency_again closed
    (fun owner written => (careful owner written).1) added).2
  obtain ⟨places, apart⟩ := renewed.kept ready addition
  rw [renewed.ready.knows.judge_eq, renewed.continues.settings]
  cases addition with
  | target unmoved firstly targets =>
      have gained := Graph.gained_of_ofFile built content builtLater contentLater
        unmoved.name firstly targets
      rw [ready.knows.judge_eq] at judged
      rw [judgement_local_again judged gained]
      exact .answered rfl
  | @product owner adds =>
      obtain ⟨found, known, front, target, rest, more, listed, firstly, targets, few,
        lists, same⟩ := adds.declared
      have across := ready.across judged
      have gained := Graph.gained_of_ofFile built content builtLater contentLater
        adds.name firstly targets
      have listedLater : .product owner.product listed ∈ later.dependenciesOf origin := by
        rw [Graph.dependenciesOf, Graph.target_of_ofFile builtLater contentLater, targets,
          Manifest.find_first (target.grown more) rest firstly.named firstly.first,
          if_pos rfl]
        exact lists
      have beside : Text.sameFolded listed (packageOf map graph) = false := by
        obtain ⟨other, member, identity⟩ :=
          Manifest.declarationFor_added closed added adds known
        rcases same with same | same
        · rw [Text.sameFolded, Text.sameFolded_iff.mp same, identity]
          exact (careful owner rfl).2 other member
        · rw [Text.sameFolded, Text.sameFolded_iff.mp same]
          exact across.foreign
      have follows : map.Follows held owner listed :=
        renewed.follows ready defaults adds
          fun usage used => Project.usage_of_grown firstly.split targets few used
      have package : packageOf held later = packageOf map graph := by
        rw [packageOf, packageOf, places, gained.manifest, gained.packageName]
      rcases across.again follows gained few listedLater package beside
        (apart _ across.apart) with ⟨reason, answered⟩ | judgedAgain
      · rw [answered]
        exact .answered rfl
      · rw [judgedAgain]
        exact .unchanged again rfl

end Renewed

/-! ### The second request -/

/-- A fix of what was judged that succeeds leaves nothing to do. -/
theorem fix_done {context : Option ProductContext}
    (ready : Ready manifest text graph map session)
    (defaults : session.service.mergeOptions = {})
    (judged : session.judge graph origin destination = .ok context)
    (careful : ∀ owner ∈ context,
      Declarable owner text ∧ IsForeign owner text (packageOf map graph))
    (ok : (session.fix manifest.place.path origin destination context).1.ok) :
    (session.fix manifest.place.path origin destination context).2.NeedsNothing manifest
      origin destination := by
  rcases ready.fix_cases fun owner written => (careful owner written).1 with
    ⟨outcome, same, succeeded⟩ | ⟨patch, later, held, added, -, addition, renewed⟩
  · rw [same] at ok ⊢
    obtain ⟨patch, proposed, still⟩ := succeeded ok
    refine ⟨text, graph, map, ready, ?_⟩
    rw [judged]
    exact .unchanged proposed still
  · refine ⟨patch.text, later, held, renewed.ready, ?_⟩
    rw [renewed.continues.settings]
    exact renewed.done ready defaults judged careful added addition

/-- A request that succeeds leaves nothing to do, if the refresh that it begins with makes
the service ready, the first findings stay in the map, and the owner of a product to be
added can be declared and goes by no name there that is taken for the package itself. -/
theorem ensure_done (ready : Ready manifest text graph map (session.refreshed false))
    (defaults : session.service.mergeOptions = {})
    (careful : ∀ owner,
      Across map session.service.settings.systemModules graph origin destination owner →
        Declarable owner text ∧ IsForeign owner text (packageOf map graph))
    (ok : (session.ensure manifest origin destination .fix).1.ok) :
    (session.ensure manifest origin destination .fix).2.NeedsNothing manifest origin
      destination := by
  obtain ⟨looked, readyLooked, spares, same⟩ := ready.ensure_eq origin destination
  have settings : looked.service.settings = session.service.settings :=
    ((continues_refreshed session false).trans spares.continues).settings
  rw [same] at ok ⊢
  cases judged : looked.judge graph origin destination with
  | error answer =>
      rw [judged] at ok
      refine ⟨text, graph, map, readyLooked, ?_⟩
      rw [judged]
      exact .answered ok
  | ok context =>
      rw [judged] at ok
      refine fix_done readyLooked ?_ judged (fun owner written => careful owner ?_) ok
      · rw [Service.mergeOptions, settings]
        exact defaults
      · rw [← settings]
        exact readyLooked.across (written ▸ judged)

theorem mergeOptions_serveAll (manifest : Path) (requests : List Request) :
    (session.serveAll manifest requests).service.mergeOptions =
      session.service.mergeOptions := by
  induction requests using List.reverseRecOn with
  | nil => rfl
  | append_singleton before request inductionHypothesis =>
      rw [serveAll_concat, serve, Service.mergeOptions,
        (continues_ensure _ _ _ _ _).settings]
      exact inductionHypothesis

/-- After any requests about a manifest, at whatever times, one that succeeds is answered
with success when it is made once more at any time, without a change, if what each of them
may add is declared there and then by a name that is not taken for the package itself. -/
theorem requests_again {before : List Request} {request : Request} {later : Conditions}
    (ready : ∀ first ∈ (before ++ [request]).head?, Ready manifest text graph map
      ((session.under first.conditions).refreshed false))
    (ordinary : ∀ other ∈ before ++ [request], other.conditions.AreOrdinary)
    (ordinaryLater : later.AreOrdinary)
    (defaults : session.service.mergeOptions = {}) (fixes : request.mode = .fix)
    (careful : ∀ earlier other, earlier ++ [other] <+: before ++ [request] →
      ((session.serveAll manifest earlier).under other.conditions).AddsOnly manifest other
        fun text graph map owner =>
          Declarable owner text ∧ IsForeign owner text (packageOf map graph))
    (ok : (((session.serveAll manifest before).under request.conditions).ensure manifest
      request.origin request.destination request.mode).1.ok) :
    ((session.serveAll manifest (before ++ [request])).under later).Fulfils manifest
      request.origin request.destination := by
  let holds (session : Session) : Prop :=
    ∃ text graph map, Ready manifest text graph map (session.refreshed false)
  have all : holds ((session.serveAll manifest before).under request.conditions) := by
    refine serveAll_induction (fun first member => ⟨text, graph, map, ready first member⟩)
      ?_ (List.prefix_refl _)
    rintro earlier other next initial session' ⟨text', graph', map', ready'⟩
    have proper := careful earlier other (List.IsPrefix.trans ⟨[next], by simp⟩ initial)
    obtain ⟨new, last, held, readyLater⟩ := ready'.ensure fun write owner across =>
      (proper write text' graph' map' owner ready' across).1
    have mild := ordinary next (initial.subset (by simp))
    exact ⟨new, last, held, (readyLater.under mild).refreshed false⟩
  obtain ⟨text', graph', map', ready'⟩ := all
  rw [serveAll_concat, serve]
  have write : request.mode.allowsWrite := by
    rw [fixes]
    rfl
  rw [fixes] at ok ⊢
  refine (ensure_done ready' ?_ (fun owner across => ?_) ok).fulfils ordinaryLater
  · exact (mergeOptions_serveAll manifest before).trans defaults
  · exact careful before request (List.prefix_refl _) write text' graph' map' owner ready'
      across

end Session

end Resolution

end PackageLayers

/-
Purpose: What a described change says of the change that is made.
Main exports: Foretells, suggest_foretells_fix, Session.withChance,
  ensure_foretells_fix
-/
import PackageLayers.Proofs.Files.Overwriting
import PackageLayers.Proofs.Graph.Aside
import PackageLayers.Proofs.Project.Merging
import PackageLayers.Resolution.Service

namespace PackageLayers.Resolution

open Manifest (ProductContext addDependency patchFile proposal)
open Project (MergeOptions mapPath updateMap)

/-!
To describe a change and to make it start from the same state and judge the edge
in the same way.  Then one reads the manifest and describes what would be added,
and the other reads it again and adds it, so that nothing is made that was not
described, and a request fails in both for the same reason.

That is so if nothing keeps the manifest from being written, and if the programs that
it is read with do the same both times, whatever chance may decide.
-/

/-- Whether the answer to a request that may not write says what the one that may
write does: a change is made exactly if one is proposed, and then the one that is
proposed; where none is, the two answers agree. -/
structure Foretells (dry wet : Answer) : Prop where
  changed : wet.changed = true ↔ dry.reason? = some "patchRequired"
  suggestion : wet.changed = true →
    wet.ok = true ∧
      dry.suggestion? = some ("; ".intercalate (wet.changes.map describe))
  untouched : dry.changed = false
  otherwise : wet.changed = false → dry.ok = wet.ok ∧ dry.reason? = wet.reason?

namespace Foretells

/-- An answer that neither proposes nor reports a change foretells itself. -/
theorem same {answer : Answer} (still : answer.changed = false)
    (other : answer.reason? ≠ some "patchRequired") : Foretells answer answer where
  changed := by rw [still]; simp [other]
  suggestion := by rw [still]; simp
  untouched := still
  otherwise := fun _ => ⟨rfl, rfl⟩

end Foretells

/-- No failure is reported by the word for a change that is not made. -/
theorem reason_ne_patchRequired (failure : Failure) :
    failure.reason ≠ "patchRequired" := by
  cases failure with
  | policyBlocked reason _ => cases reason <;> simp [Failure.reason, BlockReason.label]
  | _ => simp [Failure.reason]

theorem label_ne_patchRequired (reason : BlockReason) :
    reason.label ≠ "patchRequired" := by
  cases reason <;> simp [BlockReason.label]

/-- What becomes of a proposal whose changes are made. -/
def outcomeOf : Except Failure Manifest.Patch → Manifest.PatchOutcome
  | .error failure => .failed failure
  | .ok patch =>
      if patch.changes.isEmpty then .unchanged else .applied patch.changes

/-- What is proposed is what is to be added to the text of the manifest. -/
theorem text_of_proposal {floor : String} {files : Files} {manifest : Path}
    {origin destination : String} {context : Option ProductContext}
    {patch : Manifest.Patch}
    (proposed : proposal floor files manifest origin destination context = .ok patch) :
    ∃ text, files.textOf? manifest = some text ∧
      addDependency floor text manifest origin destination context = .ok patch := by
  rw [proposal] at proposed
  split at proposed
  · cases proposed
  · rename_i text readable
    exact ⟨text, readable, proposed⟩

/-- What is proposed for a manifest that can be read can be written, if no write is
refused. -/
theorem patchFile_outcome (floor : String) {world : World} (manifest : Path)
    (origin destination : String) (context : Option ProductContext)
    (writable : world.IsWritable) :
    (patchFile floor world manifest origin destination context).1 =
      outcomeOf
        (proposal floor world.files manifest origin destination context) := by
  rw [patchFile]
  cases proposed : proposal floor world.files manifest origin destination context with
  | error failure => rfl
  | ok patch =>
      obtain ⟨old, readable, -⟩ := text_of_proposal proposed
      obtain ⟨later, written⟩ := World.overwrite_of_text readable
        (writable manifest (.text patch.text))
      simp only [outcomeOf, written]
      split <;> rfl

section

variable (session : Session) (manifest : Path) (origin destination : String)

/-- A description changes nothing. -/
theorem suggest_unchanged (context : Option ProductContext) :
    (session.suggest manifest origin destination context).changed = false := by
  rw [Session.suggest]
  split
  · rfl
  · split <;> rfl

/-- The description of a change foretells what it does. -/
theorem suggest_foretells_fix (context : Option ProductContext)
    (writable : session.world.IsWritable) :
    Foretells (session.suggest manifest origin destination context)
      (session.fix manifest origin destination context).1 := by
  have made : (session.fix manifest origin destination context).1 =
      .patched (outcomeOf (proposal session.service.settings.policy.versionFloor
        session.world.files manifest origin destination context)) :=
    congrArg Answer.patched (patchFile_outcome _ _ _ _ _ writable)
  rw [made, Session.suggest]
  cases proposal session.service.settings.policy.versionFloor
      session.world.files manifest origin destination context with
  | error failure =>
      exact
        { changed := by
            simp [outcomeOf, Answer.changed, Answer.reason?,
              Manifest.PatchOutcome.changed, reason_ne_patchRequired]
          suggestion := fun changed => nomatch changed
          untouched := rfl
          otherwise := fun _ => ⟨rfl, rfl⟩ }
  | ok patch =>
      cases empty : patch.changes.isEmpty with
      | true =>
          simp only [outcomeOf, empty, if_true]
          exact
            { changed := by
                simp [Answer.changed, Answer.reason?,
                  Manifest.PatchOutcome.changed]
              suggestion := fun changed => nomatch changed
              untouched := rfl
              otherwise := fun _ => ⟨rfl, rfl⟩ }
      | false =>
          simp only [outcomeOf, empty, Bool.false_eq_true, if_false]
          exact
            { changed := ⟨fun _ => rfl, fun _ => rfl⟩
              suggestion := fun _ => ⟨rfl, rfl⟩
              untouched := rfl
              otherwise := fun still => nomatch still }

theorem judgeAcross_ends {map : Project.ProjectMap} {graph : Graph}
    {owner : Project.Owner} {answer : Answer}
    (judged : judgeAcross map graph origin destination owner = .error answer) :
    (∃ failure, answer = .failed failure) ∨ (∃ reason, answer = .satisfied reason) ∨
      ∃ product package, answer = .unqualified origin destination product package := by
  rw [judgeAcross] at judged
  split at judged
  · cases judged
    exact Or.inl ⟨_, rfl⟩
  · split at judged
    · cases judged
      exact Or.inr (Or.inl ⟨_, rfl⟩)
    · split at judged
      · cases judged
        exact Or.inr (Or.inr ⟨_, _, rfl⟩)
      · split at judged
        · cases judged
          exact Or.inl ⟨_, rfl⟩
        · cases judged

theorem judgeInside_ends {graph : Graph} {known : List String} {answer : Answer}
    (judged : judgeInside graph known origin destination = .error answer) :
    (∃ reason, answer = .satisfied reason) ∨
      ∃ refusal, answer = .refused refusal := by
  rw [judgeInside] at judged
  split at judged
  · cases judged
    exact Or.inl ⟨_, rfl⟩
  · cases judged
    exact Or.inl ⟨_, rfl⟩
  · split at judged
    · cases judged
      exact Or.inr ⟨_, rfl⟩
    · cases judged

/-- A judgement that ends a request is no proposal. -/
theorem judgement_ends {files : Files} {map : Project.ProjectMap}
    {known : List String} {graph : Graph} {answer : Answer}
    (judged : judgeEdge files map known graph origin destination =
      .error answer) : Foretells answer answer := by
  have failed (failure : Failure) :
      Foretells (Answer.failed failure) (.failed failure) :=
    Foretells.same rfl fun same =>
      reason_ne_patchRequired failure (Option.some.inj same)
  have satisfied (reason : Satisfaction) :
      Foretells (Answer.satisfied reason) (.satisfied reason) :=
    Foretells.same rfl fun same => nomatch same
  rw [judgeEdge] at judged
  split at judged
  · cases judged
    rw [missingTarget]
    split <;> exact failed _
  · split at judged
    · cases judged
      exact satisfied _
    · split at judged
      · rcases judgeInside_ends origin destination judged with
          ⟨reason, rfl⟩ | ⟨refusal, rfl⟩
        · exact satisfied reason
        · exact Foretells.same rfl fun same =>
            label_ne_patchRequired refusal.reason (Option.some.inj same)
      · split at judged
        · cases judged
          exact failed _
        · rcases judgeAcross_ends origin destination judged with
            ⟨failure, rfl⟩ | ⟨reason, rfl⟩ | ⟨product, package, rfl⟩
          · exact failed failure
          · exact satisfied reason
          · exact Foretells.same rfl (by simp [Answer.reason?])

end

/-! ### Requests that are made again -/

namespace Session

variable (session : Session)

/-- The session in which chance may decide otherwise. -/
def withChance (chance : Nat) : Session :=
  { session with world := session.world.withChance chance }

theorem updateMap_withChance (options : MergeOptions) (root cache : Path)
    (world : World) (chance : Nat) :
    updateMap options root cache (world.withChance chance) =
      (updateMap options root cache world).map fun (summary, later) =>
        (summary, later.withChance chance) := by
  have files : (world.withChance chance).files = world.files := rfl
  have moment : (world.withChance chance).moment = world.moment := rfl
  simp only [updateMap, bind, Except.bind, files, moment]
  split
  · rfl
  · split
    · rw [World.store_withChance]
      generalize world.store _ _ = written
      cases written <;> rfl
    · rfl

/-- A refresh is nothing that chance decides. -/
theorem refreshed_withChance (force : Bool) (chance : Nat) :
    (session.withChance chance).refreshed force =
      (session.refreshed force).withChance chance := by
  have service : (session.withChance chance).service = session.service := rfl
  have world : (session.withChance chance).world = session.world.withChance chance :=
    rfl
  have now : (session.world.withChance chance).now = session.world.now := rfl
  unfold refreshed refresh update
  rw [service, world, now, updateMap_withChance]
  generalize (force || session.service.isDue session.world.now) = due
  generalize updateMap _ _ _ session.world = done
  cases due with
  | false => rfl
  | true => cases done <;> rfl

/-- A refresh stores the map, or changes no file. -/
theorem refreshed_cases (force : Bool) :
    (session.refreshed force).service.cache = session.service.cache ∧
      ((session.refreshed force).world = session.world ∨
        ∃ text, session.world.store (mapPath session.service.cacheDirectory)
          (.text text) = .ok (session.refreshed force).world) := by
  unfold refreshed refresh update
  split
  · rename_i summary later done
    split at done
    · cases result : updateMap session.service.mergeOptions
          session.service.root session.service.cacheDirectory session.world with
      | error fault =>
          rw [result] at done
          cases done
      | ok pair =>
          rw [result] at done
          cases done
          obtain ⟨previous, -, same | stored⟩ := Project.updateMap_cases result
          · exact ⟨rfl, Or.inl same⟩
          · exact ⟨rfl, Or.inr ⟨_, stored⟩⟩
    · cases done
      exact ⟨rfl, Or.inl rfl⟩
  · exact ⟨rfl, Or.inl rfl⟩

theorem sameMachine_refreshed (force : Bool) :
    session.world.SameMachine (session.refreshed force).world := by
  obtain ⟨-, same | ⟨text, stored⟩⟩ := refreshed_cases session force
  · rw [same]
    exact .refl
  · exact .of_store stored

/-- A graph is looked up in the same way whatever chance decides. -/
theorem graph_withChance (manifest : Path)
    (deterministic : session.world.programs.IsDeterministic) (chance : Nat) :
    session.world.SameMachine (session.graph? manifest).2.world ∧
      (session.withChance chance).graph? manifest =
        ((session.graph? manifest).1,
          (session.graph? manifest).2.withChance chance) := by
  obtain ⟨machine, again⟩ := GraphCache.replays_look deterministic
    session.service.cache session.service.reader manifest
  obtain ⟨kept, world⟩ := Prod.ext_iff.mp (again chance)
  obtain ⟨value, cache⟩ := Prod.ext_iff.mp kept
  refine ⟨machine, ?_⟩
  simp only at value cache world
  simp only [graph?, withCached, withChance, value, cache, world]

end Session

/-- A request that may not write foretells the one that may, if no write is refused and
the programs that manifests are read with are deterministic: both are answered from the
same state, whatever the service keeps, the files hold and chance decides. -/
theorem ensure_foretells_fix (session : Session) (manifest : Path)
    (origin destination : String)
    (deterministic : session.world.programs.IsDeterministic)
    (writable : session.world.IsWritable) (chance : Nat) :
    let again := session.withChance chance
    Foretells (session.ensure manifest origin destination .suggest).1
        (again.ensure manifest origin destination .fix).1 ∧
      Foretells (session.ensure manifest origin destination .off).1
        (again.ensure manifest origin destination .fix).1 := by
  intro again
  have refreshed := session.sameMachine_refreshed false
  obtain ⟨looked, same⟩ := (session.refreshed false).graph_withChance manifest
    (refreshed.programs ▸ deterministic) chance
  have machine := refreshed.trans looked
  have start : again.refreshed false = (session.refreshed false).withChance chance :=
    session.refreshed_withChance false chance
  simp only [Session.ensure, start, same]
  cases found : (session.refreshed false).graph? manifest with
  | mk graph later =>
      rw [found] at machine
      cases graph with
      | none =>
          have failed := @Foretells.same (.failed (.parseUnavailable manifest))
            rfl (by simp [Answer.reason?, Failure.reason])
          exact ⟨failed, failed⟩
      | some graph =>
          have judgedAgain : (later.withChance chance).judge graph origin destination =
              later.judge graph origin destination := rfl
          simp only [judgedAgain]
          cases judged : later.judge graph origin destination with
          | error answer =>
              have ends := judgement_ends origin destination judged
              exact ⟨ends, ends⟩
          | ok context =>
              have foretells := suggest_foretells_fix (later.withChance chance)
                graph.manifest origin destination context (machine.isWritable writable)
              exact ⟨foretells, foretells⟩

/-- A machine with a project of one manifest. -/
def sampleWorld : World where
  files := (Files.empty.put ["p"] .directory).put ["p", "Package.swift"]
    (.file
      { content :=
          .text "Package(targets: [.target(name: \"App\"), .target(name: \"Core\")])"
        modified := some 0 })
  stamp := 0
  now := 0

/-- A service for the project of the sample, at its start. -/
def sampleSession : Session where
  service :=
    { root := ⟨"/p"⟩
      settings := {}
      cache :=
        { directory := (((⟨"/p"⟩ : Path).child ".build").child "spmdeps").child "graphs" } }
  world := sampleWorld

/-- The line in which a helper tells of a package with two targets. -/
def sampleLine : String :=
  "\x7b\"type\":\"result\",\"ok\":true,\"package\":\x7b\"targets\":" ++
    "[\x7b\"name\":\"App\"\x7d,\x7b\"name\":\"Core\"\x7d]\x7d\x7d\n"

/-- The run of a helper that tells of the package at once and changes no file. -/
def sampleRun (files : Files) : Program.Run where
  output := [(0, sampleLine.toList)]
  complaints := []
  ending := .status 0
  duration := some 0
  outputEnd := some 0
  complaintsEnd := some 0
  files := files
  past := []

/-- A machine on which that helper is the only program. -/
def samplePrograms : Programs where
  start _ files _ program _ _ :=
    if program = ⟨"/bin/helper"⟩ then .ok (sampleRun files) else .error .notFound

/-- The service of the sample with the helper. -/
def helperSession : Session where
  service :=
    { sampleSession.service with
      settings := { reading := { helper := some ⟨"/bin/helper"⟩ } } }
  world := { sampleWorld with programs := samplePrograms }

theorem ensure_foretells_fix_sample :
    (helperSession.ensure ⟨"/p/Package.swift"⟩ "App" "Core" .suggest).1.reason? =
        some "patchRequired" ∧
      ((helperSession.withChance 7).ensure ⟨"/p/Package.swift"⟩ "App" "Core"
        .fix).1.changed := by
  obtain ⟨foretells, -⟩ := ensure_foretells_fix helperSession ⟨"/p/Package.swift"⟩
    "App" "Core" (fun _ _ => rfl) (fun _ _ => rfl) 7
  have proposed : (helperSession.ensure ⟨"/p/Package.swift"⟩ "App" "Core"
      .suggest).1.reason? = some "patchRequired" := by decide +kernel
  exact ⟨proposed, foretells.changed.mpr proposed⟩

end PackageLayers.Resolution

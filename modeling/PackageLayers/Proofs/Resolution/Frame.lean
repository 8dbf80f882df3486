/-
Purpose: Only a fix that is made changes a manifest.
Main exports: Agree, patchFile_of_refused, Session.IsQuiet, Session.ensure_frame,
  Session.manifests_change_by_fix
-/
import PackageLayers.Proofs.Manifest.Lengthening
import PackageLayers.Proofs.Project.Merging
import PackageLayers.Proofs.Resolution.Calls
import PackageLayers.Proofs.Resolution.Foresight

namespace PackageLayers.Resolution

open Manifest (PatchOutcome ProductContext addDependency patchFile proposal)
open Project (MergeOptions mapPath updateMap)

/-!
Two worlds agree beside a service if every file that is not the service's own is
the same in both.  Each call leaves a world that agrees with the one before, but
for a fix that is made: that one changes the file of its manifest, and makes it
longer.  What is answered says which of the two happened.

Programs that manifests are read with are not the service's; they are assumed to
change nothing beside it.
-/

/-- Whether two worlds have the same files but for those of `own`. -/
def Agree (own : Location → Prop) (world later : World) : Prop :=
  ∀ location, ¬own location →
    later.files.file? location = world.files.file? location

namespace Agree

variable {own : Location → Prop} {world middle later : World}

theorem refl : Agree own world world := fun _ _ => rfl

theorem trans (first : Agree own world middle) (second : Agree own middle later) :
    Agree own world later := fun location foreign =>
  (second location foreign).trans (first location foreign)

end Agree

/-- Whether the text of a file is another than it was. -/
def Rewritten (world later : World) (location : Location) : Prop :=
  ∃ old new before after, world.files.file? location = some old ∧
    old.content = .text before ∧ later.files.file? location = some new ∧
    new.content = .text after ∧ after ≠ before

theorem Rewritten.of_agree {own : Location → Prop}
    {world first second later : World} {location : Location}
    (rewritten : Rewritten first second location) (foreign : ¬own location)
    (before : Agree own world first) (after : Agree own second later) :
    Rewritten world later location := by
  rw [Rewritten, before location foreign] at rewritten
  rw [Rewritten, after location foreign]
  exact rewritten

/-! ### Changing a manifest file -/

/-- A request to change a file leaves the world as it is, or writes the text that
is proposed. -/
theorem patchFile_cases {floor : String} {world later : World} {manifest : Path}
    {origin destination : String} {context : Option ProductContext}
    {outcome : PatchOutcome}
    (patched : patchFile floor world manifest origin destination context =
      (outcome, later)) :
    outcome.changed = false ∧ later = world ∨
      ∃ text patch, world.files.textOf? manifest = some text ∧
        addDependency floor text manifest origin destination context =
          .ok patch ∧
        patch.changes ≠ [] ∧ outcome = .applied patch.changes ∧
        world.overwrite manifest patch.text = .ok later := by
  rw [patchFile] at patched
  split at patched
  · cases patched
    exact Or.inl ⟨rfl, rfl⟩
  · rename_i patch proposed
    split at patched
    · cases patched
      exact Or.inl ⟨rfl, rfl⟩
    · rename_i some
      split at patched
      · rename_i written
        cases patched
        obtain ⟨text, readable, added⟩ := text_of_proposal proposed
        exact Or.inr ⟨text, patch, readable, added, by simpa using some, rfl, written⟩
      · cases patched
        exact Or.inl ⟨rfl, rfl⟩

/-- Where the disk refuses a step of the write, nothing is changed, and the outcome tells
what was refused. -/
theorem patchFile_of_refused {floor : String} {world : World} {manifest : Path}
    {origin destination : String} {context : Option ProductContext}
    {patch : Manifest.Patch} {fault : WriteFault}
    (proposed : proposal floor world.files manifest origin destination context =
      .ok patch) (some : patch.changes ≠ [])
    (refused : world.disk manifest (.text patch.text) = .some fault) :
    patchFile floor world manifest origin destination context =
      (.notWritten (.refused fault.step manifest fault.reason), world) := by
  obtain ⟨text, readable, -⟩ := text_of_proposal proposed
  have faulty := World.overwrite_of_refused readable refused
  rw [patchFile, proposed]
  simp only [List.isEmpty_iff, some, if_false, faulty]

/-- What becomes of a request to change a file: nothing, or the file gets longer
and all others stay. -/
theorem patchFile_frame {floor : String} {world later : World} {manifest : Path}
    {origin destination : String} {context : Option ProductContext}
    {outcome : PatchOutcome}
    (patched : patchFile floor world manifest origin destination context =
      (outcome, later)) :
    outcome.changed = false ∧ later = world ∨
      (outcome.ok ∧ outcome.changed ∧ outcome.changes ≠ []) ∧
        (∀ location, location ≠ manifest.place →
          later.files.file? location = world.files.file? location) ∧
        Rewritten world later manifest.place := by
  refine (patchFile_cases patched).imp_right ?_
  rintro ⟨text, patch, readable, proposed, some, rfl, written⟩
  have stored := (World.files_of_store written).1
  obtain ⟨executable, new⟩ := Files.file_store_place stored
  rw [Files.textOf?, Option.bind_eq_some_iff] at readable
  obtain ⟨old, found, content⟩ := readable
  obtain ⟨location, located, here⟩ := Files.fileOf_eq.mp found
  rw [Files.place_of_locate located] at here
  have longer := Manifest.addDependency_longer proposed some
  refine ⟨⟨rfl, rfl, some⟩, fun location other => ?_, old, _, text, patch.text, here,
    ?_, new, rfl, ?_⟩
  · exact Files.file_store stored location other
  · cases kind : old.content with
    | text content' =>
        rw [kind] at content
        exact congrArg Content.text (Option.some.inj content)
    | binary octets =>
        rw [kind] at content
        cases content
  · rintro same
    rw [same] at longer
    exact Nat.lt_irrefl _ longer

/-! ### Calls -/

theorem updateMap_frame {options : MergeOptions} {root cache : Path}
    {world later : World} {summary : Project.UpdateSummary}
    (updated : updateMap options root cache world = .ok (summary, later))
    {location : Location} (other : location ≠ (mapPath cache).place) :
    later.files.file? location = world.files.file? location := by
  obtain ⟨previous, read, same | stored⟩ := Project.updateMap_cases updated
  · rw [same]
  · exact Files.file_store (World.files_of_store stored).1 location other

namespace Session

variable (session : Session) (manifest : Path)

theorem judgement_unchanged {graph : Graph} {origin destination : String}
    {answer : Answer}
    (judged : session.judge graph origin destination = .error answer) :
    answer.changed = false :=
  (judgement_ends origin destination judged).untouched

/-- Whether the programs that manifests are read with change no file beside the
service, whatever the files of the service hold, and whatever chance decides. -/
def IsQuiet : Prop :=
  ∀ world, world.programs = session.world.programs →
    Agree session.service.Owns session.world world →
      ∀ manifest location, ¬session.service.Owns location →
        GraphCache.Spares session.service.reader location manifest world

theorem agree_update {options : MergeOptions} {summary : Project.UpdateSummary}
    {later : Session} (done : session.update options = .ok (summary, later)) :
    Agree session.service.Owns session.world later.world := by
  unfold update at done
  cases result : updateMap options session.service.root
      session.service.cacheDirectory session.world with
  | error fault =>
      rw [result] at done
      cases done
  | ok pair =>
      rw [result] at done
      cases done
      intro location foreign
      refine updateMap_frame result fun same => foreign (Or.inl ?_)
      exact same ▸ List.prefix_refl _

theorem agree_updated (options : MergeOptions) :
    Agree session.service.Owns session.world (session.updated options).world := by
  unfold updated
  split
  · rename_i done
    exact agree_update session done
  · exact .refl

theorem agree_refreshed (force : Bool) :
    Agree session.service.Owns session.world (session.refreshed force).world := by
  obtain ⟨-, same | ⟨text, stored⟩⟩ := refreshed_cases session force
  · rw [same]
    exact .refl
  · intro location foreign
    refine Files.file_store (World.files_of_store stored).1 location fun same => ?_
    exact foreign (Or.inl (same ▸ List.prefix_refl _))

theorem agree_graph (quiet : session.IsQuiet) :
    Agree session.service.Owns session.world (session.graph? manifest).2.world :=
  fun location foreign =>
    GraphCache.file_of_look (Service.aside_of_not_owns foreign) fun path =>
      quiet session.world rfl .refl path location foreign

theorem agree_invalidate :
    Agree session.service.Owns session.world (session.invalidate manifest).world :=
  fun _ foreign =>
    GraphCache.file_of_invalidate (Service.aside_of_not_owns foreign)

theorem agree_rebuild (quiet : session.IsQuiet) :
    Agree session.service.Owns session.world (session.rebuild? manifest).2.world :=
  fun location foreign =>
    GraphCache.file_of_rebuild (Service.aside_of_not_owns foreign) fun path =>
      quiet _ GraphCache.sameMachine_invalidate.programs
        (agree_invalidate session manifest) path location foreign

/-- A request to fix changes nothing, or makes the manifest longer and changes
nothing else. -/
theorem fix_frame (origin destination : String)
    (context : Option ProductContext) :
    let result := session.fix manifest origin destination context
    result.1.changed = false ∧
        Agree session.service.Owns session.world result.2.world ∨
      (result.1.ok ∧ result.1.changed ∧ result.1.changes ≠ []) ∧
        (∀ location, ¬session.service.Owns location →
          location ≠ manifest.place →
            result.2.world.files.file? location =
              session.world.files.file? location) ∧
        (¬session.service.Owns manifest.place →
          Rewritten session.world result.2.world manifest.place) := by
  unfold fix
  cases patched : patchFile session.service.settings.policy.versionFloor
      session.world manifest origin destination context with
  | mk outcome world =>
      dsimp only
      rcases patchFile_frame patched with ⟨still, rfl⟩ | ⟨made, others, rewritten⟩
      · rw [if_neg (by rw [still]; exact Bool.false_ne_true)]
        exact Or.inl ⟨still, .refl⟩
      · rw [if_pos made.2.1]
        let patchedSession : Session := { session with world := world }
        have dropped := agree_invalidate patchedSession manifest
        have refreshed := agree_refreshed (patchedSession.invalidate manifest) true
        rw [(continues_invalidate patchedSession manifest).owns] at refreshed
        have later := dropped.trans refreshed
        refine Or.inr ⟨made, fun location foreign other => ?_, fun foreign => ?_⟩
        · exact (later location foreign).trans (others location other)
        · exact rewritten.of_agree foreign .refl later

/-- Where no program is run, none changes a file. -/
theorem IsQuiet.of_syntactic {session : Session}
    (syntactic : session.service.reader.IsSyntactic) : session.IsQuiet :=
  fun world _ _ manifest location _ => by
    rw [GraphCache.Spares, syntactic.readExternally]

/-- Programs that are quiet stay quiet while only the files of the service
change. -/
theorem IsQuiet.of_agree {session later : Session} (quiet : session.IsQuiet)
    (continues : Service.Continues session.service later.service)
    (machine : session.world.SameMachine later.world)
    (agree : Agree session.service.Owns session.world later.world) :
    later.IsQuiet := by
  rw [IsQuiet, continues.owns, continues.reader, machine.programs]
  exact fun world programs same => quiet world programs (agree.trans same)

/-- A request changes nothing, or it is a fix that is made: then the manifest
gets longer and nothing else changes. -/
theorem ensure_frame (quiet : session.IsQuiet)
    (named : session.service.cache.IsNamed) (origin destination : String)
    (mode : Mode) :
    let result := session.ensure manifest origin destination mode
    result.1.changed = false ∧
        Agree session.service.Owns session.world result.2.world ∨
      (mode = .fix ∧ result.1.ok ∧ result.1.changed ∧ result.1.changes ≠ []) ∧
        (∀ location, ¬session.service.Owns location →
          location ≠ manifest.place →
            result.2.world.files.file? location =
              session.world.files.file? location) ∧
        (¬session.service.Owns manifest.place →
          Rewritten session.world result.2.world manifest.place) := by
  have refreshed := agree_refreshed session false
  have continues := continues_refreshed session false
  have looked := refreshed.trans (continues.owns ▸
    agree_graph (session.refreshed false) manifest
      (quiet.of_agree continues (sameMachine_refreshed session false) refreshed))
  have kept := continues.trans (continues_graph (session.refreshed false) manifest)
  unfold ensure
  split
  · rename_i later same
    rw [same] at looked
    exact Or.inl ⟨rfl, looked⟩
  · rename_i graph later same
    have place : graph.manifest.place = manifest.place := by
      have found := (GraphCache.Follows.look (session.refreshed false).service.cache
        (session.refreshed false).service.reader manifest
        (session.refreshed false).world).2 (continues.cache.named named) graph
          (congrArg Prod.fst same)
      obtain ⟨path, canonical, names⟩ := found
      rw [Path.place_of_sameAs names, (Files.canonical_place canonical).2,
        Location.place_path manifest.isPlain_place]
    rw [same] at looked kept
    split
    · rename_i answer judged
      exact Or.inl ⟨judgement_unchanged later judged, looked⟩
    · rename_i context judged
      cases mode with
      | fix =>
          have framed := fix_frame later graph.manifest origin destination context
          rw [kept.owns, place] at framed
          rcases framed with ⟨still, agree⟩ | ⟨made, others, rewritten⟩
          · exact Or.inl ⟨still, looked.trans agree⟩
          · refine Or.inr ⟨⟨rfl, made⟩, fun location foreign other => ?_,
              fun foreign => ?_⟩
            · exact (others location foreign other).trans (looked location foreign)
            · exact (rewritten foreign).of_agree foreign looked .refl
      | suggest => exact Or.inl ⟨suggest_unchanged _ _ _ _ _, looked⟩
      | off => exact Or.inl ⟨suggest_unchanged _ _ _ _ _, looked⟩

/-- A call that is no request changes no file beside the service. -/
theorem perform_frame (quiet : session.IsQuiet) {call : Call}
    (silent : (session.perform call).1 = none) :
    Agree session.service.Owns session.world (session.perform call).2.world := by
  cases call with
  | ensure manifest origin destination mode => cases silent
  | refresh force => exact agree_refreshed session force
  | update options => exact agree_updated session options
  | graph manifest => exact agree_graph session manifest quiet
  | rebuild manifest => exact agree_rebuild session manifest quiet
  | invalidate manifest => exact agree_invalidate session manifest
  | close => exact .refl

theorem perform_ensure (origin destination : String) (mode : Mode) :
    (session.perform (.ensure manifest origin destination mode)).1 =
      some (session.ensure manifest origin destination mode).1 := rfl

/-- Whatever was called before: a call changes a file that is not the service's
own only if it is a fix of that very manifest, answered as made; an answer that
a change was made has changes, and the manifest has another text; any other
answer leaves every manifest as it was.  The service's own files are all in its
directory. -/
theorem manifests_change_by_fix {files : Files} {root : Path}
    {settings : Settings} {start : Session}
    (started : Service.start files root settings = .ok start.service)
    (steps : List Step) (call : Call) (quiet : (start.run steps).IsQuiet) :
    let session := start.run steps
    let own := session.service.Owns
    let answer := (session.perform call).1
    let later := (session.perform call).2
    (∀ location, own location →
      session.service.cacheDirectory.place <+: location) ∧
    (∀ location, ¬own location →
      later.world.files.file? location ≠ session.world.files.file? location →
        ∃ manifest origin destination, ∃ made ∈ answer,
          call = .ensure manifest origin destination .fix ∧
            location = manifest.place ∧ made.ok ∧ made.changed) ∧
    (∀ made ∈ answer, made.changed →
      made.ok ∧ made.changes ≠ [] ∧
        ∀ manifest origin destination mode,
          call = .ensure manifest origin destination mode →
            ¬own manifest.place →
              Rewritten session.world later.world manifest.place) ∧
    (∀ other ∈ answer, ¬(other.ok ∧ other.changed) →
      Agree own session.world later.world) := by
  intro session own answer later
  obtain ⟨-, empty⟩ := Service.start_eq started
  have continues : Service.Continues start.service session.service :=
    continues_run start steps
  have named : session.service.cache.IsNamed :=
    continues.cache.named fun key graph found => by
      rw [empty, Dict.get?_empty] at found
      cases found
  have inside (location : Location) (owns : own location) :
      session.service.cacheDirectory.place <+: location := by
    have first : start.service.Owns location := continues.owns ▸ owns
    rw [continues.cacheDirectory]
    exact Service.inside_of_owns (by rw [empty]) first
  refine ⟨inside, ?_⟩
  cases request : answer with
  | none =>
      have agree := perform_frame session quiet request
      exact ⟨fun location foreign changed => absurd (agree location foreign) changed,
        fun made member => (Option.not_mem_none made member).elim,
        fun other member => (Option.not_mem_none other member).elim⟩
  | some result =>
      cases call with
      | ensure manifest origin destination mode =>
          have framed := ensure_frame session manifest quiet named origin
            destination mode
          have same : (session.ensure manifest origin destination mode).1 = result :=
            Option.some.inj request
          simp only [same] at framed
          rcases framed with ⟨still, agree⟩ | ⟨made, others, rewritten⟩
          · refine ⟨fun location foreign changed =>
              absurd (agree location foreign) changed, ?_, fun _ _ _ => agree⟩
            rintro _ ⟨⟩ changed
            rw [still] at changed
            cases changed
          · obtain ⟨rfl, ok, changed, some⟩ := made
            refine ⟨fun location foreign other => ?_, ?_, ?_⟩
            · refine ⟨manifest, origin, destination, result, rfl, rfl, ?_, ok,
                changed⟩
              by_contra elsewhere
              exact other (others location foreign elsewhere)
            · rintro _ ⟨⟩ -
              refine ⟨ok, some, fun _ _ _ _ request foreign => ?_⟩
              cases request
              exact rewritten foreign
            · rintro _ ⟨⟩ refused
              exact absurd ⟨ok, changed⟩ refused
      | _ => exact nomatch show (none : Option Answer) = some result from request

/-- A refresh comes first. -/
def sampleSteps : List Step := [.call (.refresh false)]

/-- The request that an application depend on its core. -/
def sampleRequest : Call :=
  .ensure ⟨"/p/Package.swift"⟩ "App" "Core" .fix

/-- The same service where the disk refuses to be written. -/
def faultySession : Session :=
  sampleSession.under
    { now := 0
      stamp := 0
      disk := fun _ _ => some ⟨.sync, "Input/output error (os error 5)"⟩ }

/-- The request rewrites the manifest, or where the disk refuses that, it is answered so
and leaves all as it was. -/
theorem manifests_change_by_fix_sample :
    Rewritten (sampleSession.run sampleSteps).world
        ((sampleSession.run sampleSteps).perform sampleRequest).2.world
        (⟨"/p/Package.swift"⟩ : Path).place ∧
      ∃ answer ∈ ((faultySession.run sampleSteps).perform sampleRequest).1,
        answer.reason? = some "writeFailed" ∧
          Agree (faultySession.run sampleSteps).service.Owns
            (faultySession.run sampleSteps).world
            ((faultySession.run sampleSteps).perform sampleRequest).2.world := by
  have started : Service.start sampleWorld.files ⟨"/p"⟩ {} =
      .ok sampleSession.service := rfl
  have directory : sampleSession.service.cacheDirectory.place =
      ["p", ".build", "spmdeps"] := by decide +kernel
  have syntactic {session : Session}
      (same : session.service = sampleSession.service) :
      (session.run sampleSteps).service.reader.IsSyntactic := by
    rw [(continues_run session sampleSteps).reader, same]
    simp [Service.reader, sampleSession, Settings.strategies,
      Manifest.Reader.IsSyntactic, Manifest.Strategy.isExternal]
  constructor
  · have changed : ((sampleSession.run sampleSteps).ensure ⟨"/p/Package.swift"⟩
        "App" "Core" .fix).1.changed := by decide +kernel
    obtain ⟨inside, -, made, -⟩ := manifests_change_by_fix started sampleSteps
      sampleRequest (.of_syntactic (syntactic rfl))
    refine (made _ (perform_ensure _ _ _ _ _) changed).2.2 _ _ _ _ rfl fun owned => ?_
    have below := inside _ owned
    rw [(continues_run sampleSession sampleSteps).cacheDirectory, directory] at below
    revert below
    decide +kernel
  · have refused : ((faultySession.run sampleSteps).ensure ⟨"/p/Package.swift"⟩
        "App" "Core" .fix).1.reason? = some "writeFailed" ∧
          ((faultySession.run sampleSteps).ensure ⟨"/p/Package.swift"⟩
            "App" "Core" .fix).1.ok = false := by decide +kernel
    obtain ⟨-, -, -, others⟩ := @manifests_change_by_fix _ _ _ faultySession started
      sampleSteps sampleRequest (.of_syntactic (syntactic rfl))
    refine ⟨_, perform_ensure _ _ _ _ _, refused.1,
      others _ (perform_ensure _ _ _ _ _) fun both => ?_⟩
    rw [refused.2] at both
    exact Bool.false_ne_true both.1

end Session

end PackageLayers.Resolution

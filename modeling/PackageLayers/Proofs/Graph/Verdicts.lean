/-
Purpose: What decides whether a target may depend on another.
Main exports: Level.Above, Verdict.Refuses, Verdict.Allows, Graph.Answers,
  Graph.answers_evaluate, Graph.verdict_decided, Graph.blocked_iff_of_unassigned
-/
import PackageLayers.Graph.Policy
import PackageLayers.Proofs.Graph.Topology

namespace PackageLayers

open Relation (ReflTransGen TransGen)

/-!
A request for an edge is answered by what chains of edges there are between the
two names and by their levels, and by nothing else.  `Answers` says under which
condition each answer is given; the conditions exclude each other, so the answer
tells the condition.

A destination without a level is above every origin that has one.  It is not above
an origin without a level: between targets that are on or behind different cycles
an edge is allowed, unless it closes another cycle.
-/

theorem Level.eq_unassigned_iff {level : Level} :
    level = .unassigned ↔ ¬∃ height, level = .assigned height := by
  cases level <;> simp

/-- Whether a level is above another.  No level is above all that are assigned. -/
def Level.Above (high low : Level) : Prop :=
  ∃ height, low = .assigned height ∧
    ∀ other, high = .assigned other → height < other

theorem Level.isBelow_iff {low high : Level} : low.isBelow high ↔ high.Above low := by
  cases low <;> cases high <;> simp [isBelow, Above]

/-- Whether a verdict refuses the edge. -/
def Verdict.Refuses (verdict : Verdict) (refusal : Refusal) : Prop :=
  ∃ decision, verdict = .judged decision ∧ decision.refusal = some refusal

/-- Whether a verdict allows the edge. -/
def Verdict.Allows (verdict : Verdict) : Prop :=
  ∃ decision, verdict = .judged decision ∧ decision.refusal = none

namespace Verdict

variable {decision : Decision} {refusal : Refusal} {path : List String}

@[simp] theorem refuses_judged :
    (judged decision).Refuses refusal ↔ decision.refusal = some refusal := by
  simp [Refuses]

@[simp] theorem not_refuses_present : ¬alreadyPresent.Refuses refusal := by
  simp [Refuses]

@[simp] theorem not_refuses_reachable : ¬(alreadyReachable path).Refuses refusal := by
  simp [Refuses]

@[simp] theorem allows_judged :
    (judged decision).Allows ↔ decision.refusal = none := by
  simp [Allows]

@[simp] theorem not_allows_present : ¬alreadyPresent.Allows := by
  simp [Allows]

@[simp] theorem not_allows_reachable : ¬(alreadyReachable path).Allows := by
  simp [Allows]

end Verdict

namespace Graph

variable {graph : Graph} {analysis : Analysis} {origin destination : String}

/-! ### Single answers -/

/-- An edge from whose destination the origin can be reached is refused, and a
shortest way back is named. -/
theorem judge_of_leads (analysis : Analysis)
    (back : ReflTransGen graph.Edge destination origin) :
    ∃ names, IsShortest graph.Edge destination origin names ∧
      (graph.judge analysis origin destination).refusal =
        some (cycleRefusal origin destination names) := by
  obtain ⟨names, found⟩ := Option.isSome_iff_exists.mp (reaches_iff.mpr back)
  refine ⟨names, isShortest_of_shortestPath? found, ?_⟩
  rw [judge, found]

/-- Any other edge is refused exactly if its destination is above its origin. -/
theorem judge_of_apart (analysis : Analysis)
    (apart : ¬ReflTransGen graph.Edge destination origin) :
    (graph.judge analysis origin destination).refusal =
      if (analysis.level origin).isBelow (analysis.level destination) then
        some (downwardRefusal origin destination (analysis.level origin)
          (analysis.level destination))
      else none := by
  have nothing : graph.shortestPath? destination origin = none := by
    rw [← Option.not_isSome_iff_eq_none]
    exact fun found => apart (reaches_iff.mp found)
  rw [judge, nothing]

/-- A request for an edge that is not there and whose destination is not reached
otherwise is judged. -/
theorem evaluate_of_unreached (absent : ¬graph.Edge origin destination)
    (unreached : ¬(origin ≠ destination ∧
      ReflTransGen graph.Edge origin destination)) :
    graph.evaluate analysis origin destination =
      .judged (graph.judge analysis origin destination) := by
  have nothing : (if origin = destination then none
      else graph.shortestPath? origin destination) = none := by
    split
    · rfl
    · rename_i different
      rw [← Option.not_isSome_iff_eq_none]
      exact fun found => unreached ⟨different, reaches_iff.mp found⟩
  rw [evaluate, if_neg (hasEdge_iff.not.mpr absent), nothing]

/-! ### All answers -/

/-- When each answer is given. -/
inductive Answers (graph : Graph) (analysis : Analysis)
    (origin destination : String) : Verdict → Prop where
  | present (edge : graph.Edge origin destination) :
      Answers graph analysis origin destination .alreadyPresent
  | reachable {names : List String} (absent : ¬graph.Edge origin destination)
      (different : origin ≠ destination)
      (shortest : IsShortest graph.Edge origin destination names) :
      Answers graph analysis origin destination (.alreadyReachable names)
  | cycle {names : List String} {decision : Decision}
      (absent : ¬graph.Edge origin destination)
      (unreached : ¬(origin ≠ destination ∧
        ReflTransGen graph.Edge origin destination))
      (shortest : IsShortest graph.Edge destination origin names)
      (refused : decision.refusal = some (cycleRefusal origin destination names)) :
      Answers graph analysis origin destination (.judged decision)
  | downward {decision : Decision} (absent : ¬graph.Edge origin destination)
      (unreached : ¬(origin ≠ destination ∧
        ReflTransGen graph.Edge origin destination))
      (apart : ¬ReflTransGen graph.Edge destination origin)
      (above : (analysis.level destination).Above (analysis.level origin))
      (refused : decision.refusal = some (downwardRefusal origin destination
        (analysis.level origin) (analysis.level destination))) :
      Answers graph analysis origin destination (.judged decision)
  | allowed {decision : Decision} (absent : ¬graph.Edge origin destination)
      (unreached : ¬(origin ≠ destination ∧
        ReflTransGen graph.Edge origin destination))
      (apart : ¬ReflTransGen graph.Edge destination origin)
      (level : ¬(analysis.level destination).Above (analysis.level origin))
      (free : decision.refusal = none) :
      Answers graph analysis origin destination (.judged decision)

theorem answers_evaluate (graph : Graph) (analysis : Analysis)
    (origin destination : String) :
    Answers graph analysis origin destination
      (graph.evaluate analysis origin destination) := by
  by_cases edge : graph.Edge origin destination
  · rw [evaluate, if_pos (hasEdge_iff.mpr edge)]
    exact .present edge
  by_cases reached : origin ≠ destination ∧ ReflTransGen graph.Edge origin destination
  · obtain ⟨different, leads⟩ := reached
    obtain ⟨names, found⟩ := Option.isSome_iff_exists.mp (reaches_iff.mpr leads)
    rw [evaluate, if_neg (hasEdge_iff.not.mpr edge), if_neg different, found]
    exact .reachable edge different (isShortest_of_shortestPath? found)
  rw [evaluate_of_unreached edge reached]
  by_cases back : ReflTransGen graph.Edge destination origin
  · obtain ⟨names, shortest, refused⟩ := judge_of_leads analysis back
    exact .cycle edge reached shortest refused
  · have refusal := judge_of_apart analysis back
    split at refusal
    · rename_i below
      exact .downward edge reached back (Level.isBelow_iff.mp below) refusal
    · rename_i notBelow
      exact .allowed edge reached back (Level.isBelow_iff.not.mp notBelow) refusal

namespace Answers

variable {verdict : Verdict}

/-! ### What an answer tells -/

theorem present_iff (answers : Answers graph analysis origin destination verdict) :
    verdict = .alreadyPresent ↔ graph.Edge origin destination := by
  cases answers with
  | present edge => simp [edge]
  | reachable absent | cycle absent | downward absent | allowed absent => simp [absent]

theorem reachable_iff (answers : Answers graph analysis origin destination verdict) :
    (∃ path, verdict = .alreadyReachable path) ↔
      ¬graph.Edge origin destination ∧ origin ≠ destination ∧
        ReflTransGen graph.Edge origin destination := by
  cases answers with
  | present edge => simp [edge]
  | reachable absent different shortest => simp [absent, different, shortest.leads]
  | cycle absent unreached | downward absent unreached | allowed absent unreached =>
      simpa [absent] using unreached

theorem cycle_iff (answers : Answers graph analysis origin destination verdict) :
    (∃ message, verdict.Refuses ⟨.cycleBlocked, message⟩) ↔
      ¬graph.Edge origin destination ∧
        ¬(origin ≠ destination ∧ ReflTransGen graph.Edge origin destination) ∧
        ReflTransGen graph.Edge destination origin := by
  cases answers with
  | present edge => simp [edge]
  | reachable absent different shortest => simp [different, shortest.leads]
  | cycle absent unreached shortest refused =>
      refine iff_of_true ?_ ⟨absent, unreached, shortest.leads⟩
      simp [refused, cycleRefusal]
  | downward absent unreached apart above refused =>
      simp [refused, downwardRefusal, apart]
  | allowed absent unreached apart level free => simp [free, apart]

theorem downward_iff (answers : Answers graph analysis origin destination verdict) :
    (∃ message, verdict.Refuses ⟨.downwardDependency, message⟩) ↔
      ¬graph.Edge origin destination ∧
        ¬(origin ≠ destination ∧ ReflTransGen graph.Edge origin destination) ∧
        ¬ReflTransGen graph.Edge destination origin ∧
        (analysis.level destination).Above (analysis.level origin) := by
  cases answers with
  | present edge => simp [edge]
  | reachable absent different shortest => simp [different, shortest.leads]
  | cycle absent unreached shortest refused =>
      simp [refused, cycleRefusal, shortest.leads]
  | downward absent unreached apart above refused =>
      refine iff_of_true ?_ ⟨absent, unreached, apart, above⟩
      simp [refused, downwardRefusal]
  | allowed absent unreached apart level free => simp [free, level]

theorem allows_iff (answers : Answers graph analysis origin destination verdict) :
    verdict.Allows ↔
      ¬graph.Edge origin destination ∧
        ¬(origin ≠ destination ∧ ReflTransGen graph.Edge origin destination) ∧
        ¬ReflTransGen graph.Edge destination origin ∧
        ¬(analysis.level destination).Above (analysis.level origin) := by
  cases answers with
  | present edge => simp [edge]
  | reachable absent different shortest => simp [different, shortest.leads]
  | cycle absent unreached shortest refused => simp [refused, shortest.leads]
  | downward absent unreached apart above refused => simp [refused, above]
  | allowed absent unreached apart level free =>
      exact iff_of_true (by simp [free]) ⟨absent, unreached, apart, level⟩

/-- A refusal because of a cycle names a way back. -/
theorem cycle_named (answers : Answers graph analysis origin destination verdict)
    {message : String} (refuses : verdict.Refuses ⟨.cycleBlocked, message⟩) :
    ∃ names, IsShortest graph.Edge destination origin names ∧
      (cycleRefusal origin destination names).message = message := by
  cases answers with
  | present edge => simp at refuses
  | reachable absent different shortest => simp at refuses
  | cycle absent unreached shortest refused =>
      rw [Verdict.refuses_judged, refused, Option.some.injEq] at refuses
      exact ⟨_, shortest, congrArg Refusal.message refuses⟩
  | downward absent unreached apart above refused =>
      simp [refused, downwardRefusal] at refuses
  | allowed absent unreached apart level free => simp [free] at refuses

end Answers

/-- The answer to a request for an edge, with what it names.  An edge that is there
is present.  Otherwise a destination that can be reached is reachable, by a
shortest way.  Otherwise an edge from whose destination the origin can be reached
is refused, and the way back is named; and then one whose destination is above its
origin.  All others are allowed.  So where a destination can be reached, the
request in the opposite direction is refused because of a cycle, unless the origin
can be reached from there already. -/
theorem verdict_decided (graph : Graph) (analysis : Analysis)
    (origin destination : String) :
    let verdict := graph.evaluate analysis origin destination
    let leads := ReflTransGen graph.Edge
    let present := graph.Edge origin destination
    let reached := origin ≠ destination ∧ leads origin destination
    let back := destination = origin ∨ leads destination origin
    let above := (analysis.level destination).Above (analysis.level origin)
    (verdict = .alreadyPresent ↔ present) ∧
    ((∃ path, verdict = .alreadyReachable path) ↔ ¬present ∧ reached) ∧
    (∀ path, verdict = .alreadyReachable path →
      IsShortest graph.Edge origin destination path) ∧
    ((∃ message, verdict.Refuses ⟨.cycleBlocked, message⟩) ↔
      ¬present ∧ ¬reached ∧ back) ∧
    (∀ message, verdict.Refuses ⟨.cycleBlocked, message⟩ →
      ∃ names, IsWay graph.Edge destination origin names ∧
        message = s!"adding '{origin}' -> '{destination}' would create a cycle: " ++
          " -> ".intercalate (origin :: names)) ∧
    ((∃ message, verdict.Refuses ⟨.downwardDependency, message⟩) ↔
      ¬present ∧ ¬reached ∧ ¬back ∧ above) ∧
    (verdict.Allows ↔ ¬present ∧ ¬reached ∧ ¬back ∧ ¬above) ∧
    (leads origin destination → TransGen graph.Edge destination origin ∨
      ∃ message, (graph.evaluate analysis destination origin).Refuses
        ⟨.cycleBlocked, message⟩) := by
  intro verdict leads present reached back above
  have answers := answers_evaluate graph analysis origin destination
  have reverse := answers_evaluate graph analysis destination origin
  have backward : back ↔ ReflTransGen graph.Edge destination origin :=
    or_iff_right_of_imp fun same => same ▸ ReflTransGen.refl
  rw [backward]
  refine ⟨answers.present_iff, answers.reachable_iff, ?_, answers.cycle_iff, ?_,
    answers.downward_iff, answers.allows_iff, ?_⟩
  · intro path same
    rw [show graph.evaluate analysis origin destination = _ from same] at answers
    cases answers with
    | reachable _ _ shortest => exact shortest
  · intro message refuses
    obtain ⟨names, shortest, rfl⟩ := answers.cycle_named refuses
    exact ⟨names, shortest.toIsWay, rfl⟩
  · intro way
    refine or_iff_not_imp_left.mpr fun apart => ?_
    refine reverse.cycle_iff.mpr ⟨fun edge => apart (TransGen.single edge), ?_, way⟩
    rintro ⟨different, leads⟩
    rcases ReflTransGen.cases_head leads with same | ⟨next, step, further⟩
    · exact different same
    · exact apart (TransGen.head' step further)

/-- Three targets, each on top of the next. -/
def towerSample : Manifest.Package :=
  { targets := [
      { name := "App", dependencies := [.bare "Feature"] },
      { name := "Feature", dependencies := [.target "Core"] },
      { name := "Core" }] }

theorem verdict_decided_sample :
    let graph := ofPackage towerSample ⟨"Package.swift"⟩ 0
    let analysis := graph.analyze []
    IsShortest graph.Edge "App" "Core" ["App", "Feature", "Core"] ∧
      ∃ message, (graph.evaluate analysis "Core" "App").Refuses
        ⟨.cycleBlocked, message⟩ := by
  intro graph analysis
  obtain ⟨-, -, shortest, -, -, -, -, reverse⟩ :=
    verdict_decided graph analysis "App" "Core"
  have reachable : graph.evaluate analysis "App" "Core" =
      .alreadyReachable ["App", "Feature", "Core"] := by decide +kernel
  have apart : ¬graph.reaches "Core" "App" := by decide +kernel
  refine ⟨shortest _ reachable, (reverse (shortest _ reachable).leads).resolve_left ?_⟩
  exact fun cycle => apart (reaches_iff.mpr cycle.to_reflTransGen)

/-! ### Destinations without a level -/

/-- An edge is refused exactly if its destination leads back to its origin or is
above it. -/
theorem blocked_judge_iff :
    (graph.judge analysis origin destination).blocked ↔
      ReflTransGen graph.Edge destination origin ∨
        (analysis.level destination).Above (analysis.level origin) := by
  rw [Decision.blocked]
  by_cases back : ReflTransGen graph.Edge destination origin
  · obtain ⟨names, -, refused⟩ := judge_of_leads analysis back
    rw [refused]
    exact iff_of_true rfl (Or.inl back)
  · rw [judge_of_apart analysis back, or_iff_right back, ← Level.isBelow_iff]
    split
    · rename_i below
      exact iff_of_true rfl below
    · rename_i notBelow
      exact iff_of_false Bool.false_ne_true notBelow

/-- A target that is no platform module has no level exactly if a cycle can be
reached from it. -/
theorem level_eq_unassigned_iff (proper : graph.Proper) {known : List String}
    {name : String} (plain : name ∉ known) (has : graph.hasTarget name) :
    (graph.analyze known).level name = .unassigned ↔ MeetsCycle graph.Edge name := by
  have listed := (proper.listed name).mpr has
  rw [Level.eq_unassigned_iff, ← not_iff_not, not_not, ← exists_isHeight_iff proper listed]
  simp only [level_eq_assigned proper plain, listed, true_and]

/-- An edge toward a target without a level is refused if no cycle can be reached
from its origin.  From other origins it is refused only if it would close a
cycle. -/
theorem blocked_iff_of_unassigned (proper : graph.Proper) {known : List String}
    (plain : origin ∉ known) (has : graph.hasTarget origin)
    (unassigned : (graph.analyze known).level destination = .unassigned) :
    (graph.judge (graph.analyze known) origin destination).blocked ↔
      ¬MeetsCycle graph.Edge origin ∨ ReflTransGen graph.Edge destination origin := by
  rw [blocked_judge_iff, unassigned, ← level_eq_unassigned_iff proper plain has, or_comm]
  cases (graph.analyze known).level origin <;> simp [Level.Above]

/-- Two targets that depend on each other, and two others that do. -/
def islandsSample : Manifest.Package :=
  { targets := [
      { name := "A", dependencies := [.bare "B"] },
      { name := "B", dependencies := [.bare "A"] },
      { name := "X", dependencies := [.bare "Y"] },
      { name := "Y", dependencies := [.bare "X"] }] }

/-- Between two cycles an edge is allowed, although its destination has no level. -/
example :
    let graph := ofPackage islandsSample ⟨"Package.swift"⟩ 0
    (graph.analyze []).level "X" = .unassigned ∧
      (graph.judge (graph.analyze []) "A" "X").blocked = false := by
  decide +kernel

end Graph

end PackageLayers

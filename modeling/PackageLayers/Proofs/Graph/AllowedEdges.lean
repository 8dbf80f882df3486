/-
Purpose: What an allowed edge does to cycles and levels.
Main exports: Graph.withDependency, Graph.allowed_of_evaluate,
  Graph.levels_after_allowed
-/
import PackageLayers.Proofs.Graph.Verdicts

namespace PackageLayers

open Manifest (Dependency)
open Relation (ReflTransGen TransGen)

/-!
An edge that is allowed leads to a target which does not lead back, and whose
level is not above that of the origin.  So it closes no cycle.  Toward a lower
level it says nothing new of heights; on the same level it lifts the origin by
one, and what leads to the origin by no less than it must.  A target without a
level stays without one, whatever it depends on.
-/

/-! ### Levels that are compared -/

theorem Level.ext_assigned {low high : Level}
    (same : ∀ height, high = .assigned height ↔ low = .assigned height) :
    high = low := by
  cases low with
  | assigned height => exact (same height).mpr rfl
  | unassigned =>
      cases high with
      | assigned height => exact ((same height).mp rfl).symm
      | unassigned => rfl

/-- Of two levels neither of which is above the other, one is the other. -/
theorem Direction.level_of_sameLevel {low high : Level}
    (same : Direction.between low high = .sameLevel)
    (notBelow : low.isBelow high = false) : high = low := by
  rw [Direction.between] at same
  split at same
  · cases same
  · rename_i notAbove
    cases low with
    | unassigned =>
        cases high with
        | unassigned => rfl
        | assigned height => exact absurd rfl notAbove
    | assigned height =>
        cases high with
        | unassigned => cases notBelow
        | assigned other =>
            simp only [Level.isBelow, decide_eq_true_iff, decide_eq_false_iff_not,
              not_lt] at notAbove notBelow
            rw [Nat.le_antisymm notBelow notAbove]

theorem Direction.isBelow_of_upward {low high : Level}
    (upward : Direction.between low high = .upward) : high.isBelow low := by
  rw [Direction.between] at upward
  split at upward
  · rename_i below
    exact below
  · split at upward <;> cases upward

namespace Graph

variable {graph : Graph} {origin destination name other : String}

/-- The graph with one more entry at the end of a target's dependencies. -/
def withDependency (graph : Graph) (origin : String) (dependency : Dependency) :
    Graph :=
  match graph.targets.get? origin with
  | none => graph
  | some target =>
      { graph with
        targets := graph.targets.insert origin
          { target with dependencies := target.dependencies ++ [dependency] } }

section

variable {dependency : Dependency}

theorem order_withDependency :
    (graph.withDependency origin dependency).order = graph.order := by
  rw [withDependency]
  split <;> rfl

theorem hasTarget_withDependency :
    (graph.withDependency origin dependency).hasTarget name =
      graph.hasTarget name := by
  rw [withDependency]
  split
  · rfl
  · rename_i target found
    simp only [hasTarget, Dict.contains, Dict.get?_insert]
    split
    · rename_i same
      rw [same, found]
      rfl
    · rfl

theorem Proper.withDependency (proper : graph.Proper) :
    (graph.withDependency origin dependency).Proper where
  distinct := by
    rw [order_withDependency]
    exact proper.distinct
  listed name := by
    rw [order_withDependency, hasTarget_withDependency]
    exact proper.listed name

theorem dependenciesOf_withDependency (known : graph.hasTarget origin) :
    (graph.withDependency origin dependency).dependenciesOf name =
      graph.dependenciesOf name ++ if name = origin then [dependency] else [] := by
  rw [hasTarget, Dict.contains] at known
  obtain ⟨target, found⟩ := Option.isSome_iff_exists.mp known
  rw [withDependency, found]
  simp only [dependenciesOf, Dict.get?_insert]
  split
  · rename_i same
    rw [same, found]
    rfl
  · rw [List.append_nil]

/-- An entry that names a target is one more edge. -/
theorem edge_withDependency (known : graph.hasTarget origin)
    (free : dependency.mayBeLocal) (local_ : graph.hasTarget dependency.name) :
    (graph.withDependency origin dependency).Edge name other ↔
      graph.Edge name other ∨ name = origin ∧ other = dependency.name := by
  rw [edge_iff, edge_iff, hasTarget_withDependency,
    dependenciesOf_withDependency known]
  simp only [List.mem_append]
  constructor
  · rintro ⟨target, entry, listed | added, may, rfl⟩
    · exact Or.inl ⟨target, entry, listed, may, rfl⟩
    · split at added
      · rename_i same
        rw [List.mem_singleton] at added
        exact Or.inr ⟨same, congrArg Dependency.name added⟩
      · cases added
  · rintro (⟨target, entry, listed, may, named⟩ | ⟨rfl, rfl⟩)
    · exact ⟨target, entry, Or.inl listed, may, named⟩
    · refine ⟨local_, dependency, Or.inr ?_, free, rfl⟩
      rw [if_pos rfl]
      exact List.mem_singleton_self dependency

end

/-! ### What is allowed -/

/-- An edge that is allowed is not there, leads to a target that does not lead
back and whose level is not above, and has the direction of the two levels. -/
theorem allowed_of_evaluate {analysis : Analysis} {decision : Decision}
    (judged : graph.evaluate analysis origin destination = .judged decision)
    (allowed : decision.blocked = false) :
    ¬graph.Edge origin destination ∧
      ¬ReflTransGen graph.Edge destination origin ∧
      (analysis.level origin).isBelow (analysis.level destination) = false ∧
      decision.direction =
        Direction.between (analysis.level origin) (analysis.level destination) := by
  have answers := answers_evaluate graph analysis origin destination
  rw [judged] at answers
  have allows : (Verdict.judged decision).Allows := by
    simpa [Decision.blocked] using allowed
  obtain ⟨absent, unreached, apart, level⟩ := answers.allows_iff.mp allows
  rw [evaluate_of_unreached absent unreached] at judged
  cases judged
  refine ⟨absent, apart, ?_, rfl⟩
  rw [← Bool.not_eq_true, Level.isBelow_iff]
  exact level

/-! ### What goes down from the destination -/

theorem descends_of_unassigned (proper : graph.Proper) {known : List String}
    (plain : name ∉ known) (listed : name ∈ graph.order)
    (unassigned : (graph.analyze known).level name = .unassigned) (length : Nat) :
    Descends graph.Edge length name := by
  have has := (proper.listed name).mp listed
  have meets := (level_eq_unassigned_iff proper plain has).mp unassigned
  exact descends_of_meetsCycle meets length

/-- What goes down from a destination that is not on the level of the origin, or
whose origin has no level, is no news at the origin. -/
theorem descends_origin (proper : graph.Proper) {known : List String}
    (plain : origin ∉ known) (plainDestination : destination ∉ known)
    (listed : origin ∈ graph.order)
    (lower : (graph.analyze known).level origin = .unassigned ∨
      ((graph.analyze known).level destination).isBelow
        ((graph.analyze known).level origin))
    (length : Nat) (descends : Descends graph.Edge length destination) :
    Descends graph.Edge (length + 1) origin := by
  cases originLevel : (graph.analyze known).level origin with
  | unassigned =>
      exact descends_of_unassigned proper plain listed originLevel _
  | assigned height =>
      have tall := ((level_eq_assigned proper plain).mp originLevel).2
      have below := lower.resolve_left fun unassigned => by
        rw [originLevel] at unassigned
        cases unassigned
      rw [originLevel] at below
      cases destinationLevel : (graph.analyze known).level destination with
      | unassigned =>
          rw [destinationLevel] at below
          cases below
      | assigned low =>
          have lowTall :=
            ((level_eq_assigned proper plainDestination).mp destinationLevel).2
          rw [destinationLevel, Level.isBelow, decide_eq_true_iff] at below
          exact tall.1.of_le (lowTall.le_of_descends descends |>.trans_lt below)

/-! ### The layers after an allowed edge -/

/-- An allowed edge puts no target on a cycle and takes no level away.  Toward a
lower level it changes no level.  On one level it lifts the origin by one, and
others only if they lead to the origin.  From a target without a level it changes
none. -/
theorem levels_after_allowed {package : Manifest.Package} {manifest : Path}
    {modified : Nat} {known : List String} {decision : Decision}
    (plain : ∀ target ∈ package.targets, target.name ∉ known)
    (hasOrigin : (ofPackage package manifest modified).hasTarget origin)
    (hasDestination : (ofPackage package manifest modified).hasTarget destination)
    (judged : (ofPackage package manifest modified).evaluate
      ((ofPackage package manifest modified).analyze known) origin destination =
        .judged decision)
    (allowed : decision.blocked = false) :
    let graph := ofPackage package manifest modified
    let later := graph.withDependency origin (.bare destination)
    let level := (graph.analyze known).level
    let levelLater := (later.analyze known).level
    (∀ name, graph.hasTarget name →
      (TransGen later.Edge name name ↔ TransGen graph.Edge name name)) ∧
    (∀ name, graph.hasTarget name →
      (levelLater name = .unassigned ↔ level name = .unassigned)) ∧
    (decision.direction = .upward →
      ∀ name, graph.hasTarget name → levelLater name = level name) ∧
    (decision.direction = .sameLevel →
      ∀ height, level origin = .assigned height →
        levelLater origin = .assigned (height + 1) ∧
        ∀ name low, name ≠ origin → graph.hasTarget name →
          level name = .assigned low →
            ∃ high, low ≤ high ∧ levelLater name = .assigned high ∧
              (high ≠ low → ReflTransGen graph.Edge name origin)) ∧
    (level origin = .unassigned →
      ∀ name, graph.hasTarget name → levelLater name = level name) := by
  intro graph later level levelLater
  have proper : graph.Proper := ofPackage_proper package manifest modified
  have properLater : later.Proper := proper.withDependency
  obtain ⟨-, apart, notBelow, direction⟩ := allowed_of_evaluate judged allowed
  have widened : Widened graph.Edge later.Edge origin destination :=
    { edges := fun _ _ => edge_withDependency hasOrigin rfl hasDestination
      apart := apart }
  have plainName (name : String) (has : graph.hasTarget name) : name ∉ known := by
    rw [hasTarget, Dict.contains, get?_ofPackage, List.find?_isSome] at has
    obtain ⟨target, member, same⟩ := has
    rw [← beq_iff_eq.mp same]
    exact plain target member
  have before {name : String} (has : graph.hasTarget name) (height : Nat) :
      level name = .assigned height ↔ IsHeight graph.Edge name height := by
    rw [level_eq_assigned proper (plainName name has), proper.listed]
    exact and_iff_right has
  have after {name : String} (has : graph.hasTarget name) (height : Nat) :
      levelLater name = .assigned height ↔ IsHeight later.Edge name height := by
    rw [level_eq_assigned properLater (plainName name has), properLater.listed,
      hasTarget_withDependency]
    exact and_iff_right has
  have still (lower : level origin = .unassigned ∨
      (level destination).isBelow (level origin)) (name : String)
      (has : graph.hasTarget name) : levelLater name = level name := by
    refine Level.ext_assigned fun height => ?_
    rw [after has, before has]
    exact widened.isHeight_iff
      (descends_origin proper (plainName origin hasOrigin)
        (plainName destination hasDestination)
        ((proper.listed origin).mpr hasOrigin) lower)
  have rises (same : decision.direction = .sameLevel) (height : Nat)
      (here : level origin = .assigned height) :
      IsHeight graph.Edge origin height ∧
        IsHeight graph.Edge destination height := by
    have there : level destination = .assigned height := by
      rw [← here]
      exact Direction.level_of_sameLevel (direction ▸ same) notBelow
    exact ⟨(before hasOrigin _).mp here, (before hasDestination _).mp there⟩
  refine ⟨fun name _ => widened.cycle_iff, fun name has => ?_, ?_, ?_, ?_⟩
  · cases here : level origin with
    | unassigned => rw [still (Or.inl here) name has]
    | assigned height =>
        obtain ⟨low, there⟩ : ∃ low, level destination = .assigned low := by
          by_contra none
          rw [← Level.eq_unassigned_iff] at none
          have below : (level origin).isBelow (level destination) = false :=
            notBelow
          rw [here, none] at below
          cases below
        rw [Level.eq_unassigned_iff, Level.eq_unassigned_iff, not_iff_not]
        simp only [after has, before has]
        constructor
        · rintro ⟨_, tall⟩
          exact widened.had tall
        · rintro ⟨_, tall⟩
          obtain ⟨high, -, rises⟩ :=
            widened.rises ((before hasDestination low).mp there) tall
          exact ⟨high, rises⟩
  · intro upward
    exact still (Or.inr (Direction.isBelow_of_upward (direction ▸ upward)))
  · intro same height here
    obtain ⟨tall, there⟩ := rises same height here
    refine ⟨(after hasOrigin _).mpr (widened.isHeight_origin tall there), ?_⟩
    intro name low _ has levelName
    have lowTall := (before has low).mp levelName
    obtain ⟨high, least, highTall⟩ := widened.rises there lowTall
    refine ⟨high, least, (after has high).mpr highTall, fun changed => ?_⟩
    by_contra away
    exact changed (((widened.isHeight_of_away away).mp highTall).unique lowTall)
  · exact fun none => still (Or.inl none)

/-- A library and the tools beside it, under an application. -/
def layersSample : Manifest.Package :=
  { targets := [
      { name := "App", dependencies := [.bare "Core"] },
      { name := "Core" },
      { name := "Tools" }] }

theorem levels_after_allowed_sample :
    let graph := ofPackage layersSample ⟨"Package.swift"⟩ 0
    let later := graph.withDependency "Core" (.bare "Tools")
    (graph.analyze []).level "App" = .assigned 1 ∧
      (later.analyze []).level "Core" = .assigned 1 ∧
      ∃ high, 1 ≤ high ∧ (later.analyze []).level "App" = .assigned high := by
  intro graph later
  have app : (graph.analyze []).level "App" = .assigned 1 := by decide +kernel
  obtain ⟨-, -, -, lifted, -⟩ :=
    @levels_after_allowed "Core" "Tools" layersSample ⟨"Package.swift"⟩ 0 []
      ⟨none, .sameLevel, .assigned 0, .assigned 0⟩ (by simp) (by decide +kernel)
      (by decide +kernel) (by decide +kernel) rfl
  obtain ⟨core, others⟩ := lifted rfl 0 (by decide +kernel)
  obtain ⟨high, least, there, -⟩ :=
    others "App" 1 (by decide) (by decide +kernel) app
  exact ⟨app, core, high, least, there⟩

end Graph

end PackageLayers

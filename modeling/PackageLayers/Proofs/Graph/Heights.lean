/-
Purpose: How far chains of edges go down, before and after an edge is added.
Main exports: Descends, IsHeight, Widened, Widened.cycle_iff, Widened.isHeight_iff,
  Widened.isHeight_origin, Widened.rises
-/
import Mathlib.Logic.Relation
import Mathlib.Tactic.Common

namespace PackageLayers.Graph

open Relation (ReflTransGen TransGen)

/-!
The height of a name is the length of the longest chain of edges that goes down
from it; a name from which chains of every length go down has none.

An edge is added whose destination does not lead back to its origin.  A name that
does not lead to the origin keeps all its chains, since none of them comes to the
new edge.  From the other names chains may get longer, but only by what goes down
from the destination, where the new edge is never met again.
-/

/-- Whether a chain of edges of a given length goes down from a name. -/
def Descends (edge : String → String → Prop) : Nat → String → Prop
  | 0, _ => True
  | length + 1, name => ∃ next, edge name next ∧ Descends edge length next

/-- Whether the longest chain of edges from a name has a given length. -/
def IsHeight (edge : String → String → Prop) (name : String) (height : Nat) :
    Prop :=
  Descends edge height name ∧ ¬Descends edge (height + 1) name

section

variable {edge : String → String → Prop} {name other : String}
variable {length shorter height : Nat}

theorem Descends.of_le (descends : Descends edge length name)
    (least : shorter ≤ length) : Descends edge shorter name := by
  induction shorter generalizing length name with
  | zero => trivial
  | succ shorter inductionHypothesis =>
      obtain ⟨length, rfl⟩ : ∃ fewer, length = fewer + 1 :=
        ⟨length - 1, by omega⟩
      obtain ⟨next, step, later⟩ := descends
      exact ⟨next, step, inductionHypothesis later (by omega)⟩

theorem Descends.of_step (step : edge name other)
    (descends : Descends edge length other) : Descends edge length name := by
  have longer : Descends edge (length + 1) name := ⟨other, step, descends⟩
  exact longer.of_le (Nat.le_succ length)

theorem Descends.back (way : ReflTransGen edge name other)
    (descends : Descends edge length other) : Descends edge length name := by
  induction way with
  | refl => exact descends
  | tail _ step inductionHypothesis =>
      exact inductionHypothesis (Descends.of_step step descends)

/-- Chains of every length go down from a name on a cycle. -/
theorem descends_of_cycle (cycle : TransGen edge name name) (length : Nat) :
    Descends edge length name := by
  induction length with
  | zero => trivial
  | succ length inductionHypothesis =>
      obtain ⟨next, step, way⟩ := TransGen.head'_iff.mp cycle
      exact ⟨next, step, inductionHypothesis.back way⟩

theorem IsHeight.le_of_descends (tall : IsHeight edge name height)
    (descends : Descends edge length name) : length ≤ height := by
  by_contra longer
  exact tall.2 (descends.of_le (by omega))

theorem IsHeight.unique {higher : Nat} (tall : IsHeight edge name height)
    (alsoTall : IsHeight edge name higher) : height = higher :=
  Nat.le_antisymm (alsoTall.le_of_descends tall.1) (tall.le_of_descends alsoTall.1)

/-- A name from which not all chains go down has a height. -/
theorem exists_isHeight (bounded : ¬Descends edge length name) :
    ∃ height, IsHeight edge name height := by
  induction length with
  | zero => exact absurd trivial bounded
  | succ length inductionHypothesis =>
      by_cases descends : Descends edge length name
      · exact ⟨length, descends, bounded⟩
      · exact inductionHypothesis descends

theorem IsHeight.not_cycle (tall : IsHeight edge name height) :
    ¬TransGen edge name name :=
  fun cycle => tall.2 (descends_of_cycle cycle _)

/-- A name is one higher than the highest that it has an edge to. -/
theorem isHeight_of_next {height : Nat}
    (reached : height = 0 ∨ ∃ next, edge name next ∧
      Descends edge (height - 1) next)
    (bound : ∀ next, edge name next → ¬Descends edge height next) :
    IsHeight edge name height := by
  constructor
  · rcases reached with rfl | ⟨next, step, descends⟩
    · trivial
    · cases height with
      | zero => trivial
      | succ height => exact ⟨next, step, descends⟩
  · rintro ⟨next, step, descends⟩
    exact bound next step descends

end

/-- An edge is added to others, and its destination does not lead back to its
origin. -/
structure Widened (edge later : String → String → Prop)
    (origin destination : String) : Prop where
  edges : ∀ name next, later name next ↔
    edge name next ∨ name = origin ∧ next = destination
  apart : ¬ReflTransGen edge destination origin

namespace Widened

variable {edge later : String → String → Prop} {origin destination : String}
variable {name next : String} {length height : Nat}

theorem new (widened : Widened edge later origin destination) :
    later origin destination :=
  (widened.edges _ _).mpr (Or.inr ⟨rfl, rfl⟩)

theorem keeps (widened : Widened edge later origin destination)
    (step : edge name next) : later name next :=
  (widened.edges _ _).mpr (Or.inl step)

/-! ### Names that do not lead to the origin -/

/-- A name that does not lead to the origin has no new edge. -/
theorem old_of_away (widened : Widened edge later origin destination)
    (away : ¬ReflTransGen edge name origin) (step : later name next) :
    edge name next := by
  rcases (widened.edges _ _).mp step with old | ⟨rfl, -⟩
  · exact old
  · exact absurd ReflTransGen.refl away

theorem leads_of_away (widened : Widened edge later origin destination)
    (away : ¬ReflTransGen edge name origin) (way : ReflTransGen later name next) :
    ReflTransGen edge name next := by
  induction way with
  | refl => exact ReflTransGen.refl
  | tail _ step inductionHypothesis =>
      refine inductionHypothesis.tail (widened.old_of_away ?_ step)
      exact fun back => away (inductionHypothesis.trans back)

theorem descends_of_away (widened : Widened edge later origin destination)
    (away : ¬ReflTransGen edge name origin) :
    Descends later length name ↔ Descends edge length name := by
  induction length generalizing name with
  | zero => exact Iff.rfl
  | succ length inductionHypothesis =>
      have further {next : String} (step : edge name next) :
          ¬ReflTransGen edge next origin := fun way => away (way.head step)
      constructor
      · rintro ⟨next, step, descends⟩
        have old := widened.old_of_away away step
        exact ⟨next, old, (inductionHypothesis (further old)).mp descends⟩
      · rintro ⟨next, step, descends⟩
        exact ⟨next, widened.keeps step,
          (inductionHypothesis (further step)).mpr descends⟩

theorem isHeight_of_away (widened : Widened edge later origin destination)
    (away : ¬ReflTransGen edge name origin) :
    IsHeight later name height ↔ IsHeight edge name height := by
  rw [IsHeight, IsHeight, widened.descends_of_away away,
    widened.descends_of_away away]

/-! ### Cycles -/

/-- A chain that is new goes through the new edge. -/
theorem chain_or (widened : Widened edge later origin destination)
    (chain : TransGen later name next) :
    TransGen edge name next ∨
      ReflTransGen edge name origin ∧ ReflTransGen later destination next := by
  induction chain with
  | single step =>
      rcases (widened.edges _ _).mp step with old | ⟨rfl, rfl⟩
      · exact Or.inl (TransGen.single old)
      · exact Or.inr ⟨ReflTransGen.refl, ReflTransGen.refl⟩
  | tail _ step inductionHypothesis =>
      rcases inductionHypothesis with old | ⟨before, behind⟩
      · rcases (widened.edges _ _).mp step with further | ⟨rfl, rfl⟩
        · exact Or.inl (old.tail further)
        · exact Or.inr ⟨old.to_reflTransGen, ReflTransGen.refl⟩
      · exact Or.inr ⟨before, behind.tail step⟩

/-- The new edge closes no cycle. -/
theorem cycle_iff (widened : Widened edge later origin destination) :
    TransGen later name name ↔ TransGen edge name name := by
  constructor
  · intro cycle
    rcases widened.chain_or cycle with old | ⟨before, behind⟩
    · exact old
    · have way := widened.leads_of_away widened.apart behind
      exact absurd (way.trans before) widened.apart
  · have keeps : edge ≤ later := fun _ _ step => widened.keeps step
    exact TransGen.mono keeps name name

/-! ### Heights -/

theorem descends_mono (widened : Widened edge later origin destination)
    (descends : Descends edge length name) : Descends later length name := by
  induction length generalizing name with
  | zero => trivial
  | succ length inductionHypothesis =>
      obtain ⟨next, step, further⟩ := descends
      exact ⟨next, widened.keeps step, inductionHypothesis further⟩

/-- Where what goes down from the destination is no news at the origin, no chain
gets longer. -/
theorem descends_iff (widened : Widened edge later origin destination)
    (known : ∀ length, Descends edge length destination →
      Descends edge (length + 1) origin) :
    Descends later length name ↔ Descends edge length name := by
  refine ⟨fun descends => ?_, widened.descends_mono⟩
  induction length generalizing name with
  | zero => trivial
  | succ length inductionHypothesis =>
      obtain ⟨next, step, further⟩ := descends
      rcases (widened.edges _ _).mp step with old | ⟨rfl, rfl⟩
      · exact ⟨next, old, inductionHypothesis further⟩
      · exact known length (inductionHypothesis further)

theorem isHeight_iff (widened : Widened edge later origin destination)
    (known : ∀ length, Descends edge length destination →
      Descends edge (length + 1) origin) :
    IsHeight later name height ↔ IsHeight edge name height := by
  rw [IsHeight, IsHeight, widened.descends_iff known, widened.descends_iff known]

theorem isHeight_destination (widened : Widened edge later origin destination) :
    IsHeight later destination height ↔ IsHeight edge destination height :=
  widened.isHeight_of_away widened.apart

/-- The origin of an edge to a destination of its own height gets one higher. -/
theorem isHeight_origin (widened : Widened edge later origin destination)
    (tall : IsHeight edge origin height)
    (level : IsHeight edge destination height) :
    IsHeight later origin (height + 1) := by
  have below := widened.isHeight_destination.mpr level
  refine isHeight_of_next (Or.inr ⟨destination, widened.new, below.1⟩) ?_
  intro next step descends
  rcases (widened.edges _ _).mp step with old | ⟨-, rfl⟩
  · -- A neighbour that led back to the origin would put it on a cycle.
    have away : ¬ReflTransGen edge next origin := fun way =>
      tall.not_cycle (TransGen.head'_iff.mpr ⟨next, old, way⟩)
    exact tall.2 (Descends.of_step old
      ((widened.descends_of_away away).mp descends))
  · exact below.2 descends

/-- A long new chain is a shorter old one with the new edge somewhere behind. -/
theorem descends_old (widened : Widened edge later origin destination)
    (level : IsHeight edge destination height)
    (descends : Descends later (length + (height + 1)) name) :
    Descends edge length name := by
  induction length generalizing name with
  | zero => trivial
  | succ length inductionHypothesis =>
      rw [Nat.succ_add] at descends
      obtain ⟨next, step, further⟩ := descends
      rcases (widened.edges _ _).mp step with old | ⟨-, rfl⟩
      · exact ⟨next, old, inductionHypothesis further⟩
      · have below := widened.isHeight_destination.mpr level
        exact absurd (further.of_le (by omega)) below.2

/-- Names keep a height if the destination has one, and none gets lower. -/
theorem rises {low : Nat} (widened : Widened edge later origin destination)
    (level : IsHeight edge destination height) (tall : IsHeight edge name low) :
    ∃ high, low ≤ high ∧ IsHeight later name high := by
  have bounded : ¬Descends later (low + 1 + (height + 1)) name :=
    fun descends => tall.2 (widened.descends_old level descends)
  obtain ⟨high, tallLater⟩ := exists_isHeight bounded
  exact ⟨high, tallLater.le_of_descends (widened.descends_mono tall.1), tallLater⟩

/-- A name that has a height afterwards had one before. -/
theorem had {high : Nat} (widened : Widened edge later origin destination)
    (tall : IsHeight later name high) : ∃ low, IsHeight edge name low :=
  exists_isHeight fun descends => tall.2 (widened.descends_mono descends)

end Widened

end PackageLayers.Graph

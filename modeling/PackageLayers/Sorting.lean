/-
Purpose: Stable sorting of short lists.
Main exports: sortBy, mem_sortBy, sortBy_perm, sortBy_pairwise, sortBy_filter
-/

namespace PackageLayers

/-!
Sorting by insertion: recursive on the list, stable, and meant for the short
lists that occur in manifests.
-/

variable {α : Type}

/-- Put an item in front of the first item that it may precede. -/
def insertBy (precedes : α → α → Bool) (item : α) : List α → List α
  | [] => [item]
  | head :: rest =>
      if precedes item head then item :: head :: rest
      else head :: insertBy precedes item rest

/-- The items in ascending order; items that may precede each other keep their
order. -/
def sortBy (precedes : α → α → Bool) : List α → List α
  | [] => []
  | item :: rest => insertBy precedes item (sortBy precedes rest)

theorem mem_insertBy {precedes : α → α → Bool} {item other : α}
    {items : List α} :
    other ∈ insertBy precedes item items ↔ other = item ∨ other ∈ items := by
  induction items with
  | nil => simp [insertBy]
  | cons head rest inductionHypothesis =>
      simp only [insertBy]
      split
      · simp
      · simp only [List.mem_cons, inductionHypothesis]
        grind

/-- Sorting neither loses nor adds an item. -/
theorem mem_sortBy {precedes : α → α → Bool} {item : α} {items : List α} :
    item ∈ sortBy precedes items ↔ item ∈ items := by
  induction items with
  | nil => simp [sortBy]
  | cons head rest inductionHypothesis =>
      simp [sortBy, mem_insertBy, inductionHypothesis]

/-! ### What is sorted -/

section

variable {precedes : α → α → Bool}

theorem insertBy_perm (item : α) (items : List α) :
    (insertBy precedes item items).Perm (item :: items) := by
  induction items with
  | nil => exact .refl _
  | cons head rest inductionHypothesis =>
      rw [insertBy]
      split
      · exact .refl _
      · exact (inductionHypothesis.cons head).trans (.swap item head rest)

/-- Sorting keeps every item as often as it occurs. -/
theorem sortBy_perm (items : List α) : (sortBy precedes items).Perm items := by
  induction items with
  | nil => exact .refl _
  | cons item rest inductionHypothesis =>
      exact (insertBy_perm item _).trans (inductionHypothesis.cons item)

/-- Items that may precede each other keep their order among all items. -/
theorem insertBy_filter {chosen : α → Bool}
    (alike : ∀ first second, chosen first → chosen second → precedes first second)
    (item : α) (items : List α) :
    (insertBy precedes item items).filter chosen =
      (item :: items).filter chosen := by
  induction items with
  | nil => rfl
  | cons head rest inductionHypothesis =>
      rw [insertBy]
      split
      · rfl
      · rename_i behind
        cases here : chosen item with
        | false => simp [List.filter_cons, inductionHypothesis, here]
        | true =>
            cases other : chosen head with
            | false => simp [inductionHypothesis, here, other]
            | true => exact absurd (alike item head here other) behind

theorem sortBy_filter {chosen : α → Bool}
    (alike : ∀ first second, chosen first → chosen second → precedes first second)
    (items : List α) :
    (sortBy precedes items).filter chosen = items.filter chosen := by
  induction items with
  | nil => rfl
  | cons item rest inductionHypothesis =>
      rw [sortBy, insertBy_filter alike, List.filter_cons, List.filter_cons,
        inductionHypothesis]

variable (total : ∀ first second, precedes first second ∨ precedes second first)
  (trans : ∀ first second third, precedes first second →
    precedes second third → precedes first third)

include total trans

theorem insertBy_pairwise (item : α) {items : List α}
    (sorted : items.Pairwise fun first second => precedes first second) :
    (insertBy precedes item items).Pairwise fun first second =>
      precedes first second := by
  induction items with
  | nil => exact List.pairwise_singleton _ _
  | cons head rest inductionHypothesis =>
      obtain ⟨front, later⟩ := List.pairwise_cons.mp sorted
      rw [insertBy]
      split
      · rename_i before
        refine List.pairwise_cons.mpr ⟨fun other member => ?_, sorted⟩
        rcases List.mem_cons.mp member with rfl | inside
        · exact before
        · exact trans _ _ _ before (front other inside)
      · rename_i behind
        refine List.pairwise_cons.mpr
          ⟨fun other member => ?_, inductionHypothesis later⟩
        rcases mem_insertBy.mp member with rfl | inside
        · exact (total _ _).resolve_left behind
        · exact front other inside

/-- What is sorted ascends. -/
theorem sortBy_pairwise (items : List α) :
    (sortBy precedes items).Pairwise fun first second =>
      precedes first second := by
  induction items with
  | nil => exact .nil
  | cons item rest inductionHypothesis =>
      exact insertBy_pairwise total trans item inductionHypothesis

end

end PackageLayers

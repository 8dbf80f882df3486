/-
Purpose: Positions before and after a fragment is inserted.
Main exports: Insertion, Insertion.shift, Insertion.cells_shift,
  next_eq_some_iff, last_eq_some_iff
-/
import PackageLayers.Proofs.Source.Cells
import PackageLayers.Source.Search

namespace PackageLayers.Source

/-!
An insertion moves the positions from its place on and leaves the others.  What
is found at a moved position is what was found there before.  Searches are
described by the positions that they pass over, so that they can be carried
through an insertion.
-/

/-! ### Searches -/

theorem mem_positions {start stop position : Nat} :
    position ∈ positions start stop ↔ start ≤ position ∧ position < stop := by
  simp only [positions, List.mem_range'_1]
  omega

theorem positions_eq_append {start stop position : Nat} {before rest : List Nat}
    (split : positions start stop = before ++ position :: rest) :
    start ≤ position ∧ position < stop ∧ before = positions start position := by
  obtain ⟨count, bound, rfl, behind⟩ := List.range'_eq_append_iff.mp split
  obtain ⟨rfl, more, -⟩ := List.range'_eq_cons_iff.mp behind.symm
  refine ⟨by omega, by omega, ?_⟩
  rw [positions, Nat.add_sub_cancel_left, Nat.mul_one]

theorem positions_append {start middle stop : Nat} (lower : start ≤ middle)
    (upper : middle ≤ stop) :
    positions start stop = positions start middle ++ positions middle stop := by
  have sizes : stop - start = (middle - start) + (stop - middle) := by omega
  rw [positions, sizes, ← List.range'_append_1, Nat.add_sub_cancel' lower]
  rfl

theorem find_positions {p : Nat → Bool} {start stop position : Nat} :
    (positions start stop).find? p = some position ↔
      start ≤ position ∧ position < stop ∧ p position ∧
        ∀ other, start ≤ other → other < position → p other = false := by
  rw [positions, List.find?_range'_eq_some, List.mem_range'_1]
  simp only [Bool.not_eq_true']
  constructor
  · rintro ⟨holds, ⟨lower, upper⟩, before⟩
    exact ⟨lower, by omega, holds, before⟩
  · rintro ⟨lower, upper, holds, before⟩
    exact ⟨holds, ⟨lower, by omega⟩, before⟩

theorem find_positions_reverse {p : Nat → Bool} {start stop position : Nat} :
    (positions start stop).reverse.find? p = some position ↔
      start ≤ position ∧ position < stop ∧ p position ∧
        ∀ other, position < other → other < stop → p other = false := by
  induction h : stop - start generalizing stop with
  | zero =>
      have empty : positions start stop = [] := by
        simp only [positions, h, List.range'_zero]
      simp only [empty, List.reverse_nil, List.find?_nil]
      constructor
      · intro none
        cases none
      · rintro ⟨lower, upper, -⟩
        omega
  | succ count inductionHypothesis =>
      obtain ⟨last, rfl⟩ : ∃ last, stop = last + 1 := ⟨stop - 1, by omega⟩
      have split : positions start (last + 1) = positions start last ++ [last] := by
        rw [positions_append (by omega) (Nat.le_succ last)]
        simp [positions]
      rw [split, List.reverse_append, List.reverse_singleton,
        List.singleton_append]
      by_cases holds : p last = true
      · rw [List.find?_cons_of_pos holds, Option.some.injEq]
        constructor
        · rintro rfl
          exact ⟨by omega, by omega, holds, fun other above below => by omega⟩
        · rintro ⟨lower, upper, -, later⟩
          by_contra different
          have none := later last (by omega) (by omega)
          rw [holds] at none
          cases none
      · rw [List.find?_cons_of_neg holds, inductionHypothesis (by omega)]
        constructor
        · rintro ⟨lower, upper, here, later⟩
          refine ⟨lower, by omega, here, fun other above below => ?_⟩
          by_cases same : other = last
          · rw [same, Bool.eq_false_iff]
            exact holds
          · exact later other above (by omega)
        · rintro ⟨lower, upper, here, later⟩
          refine ⟨lower, ?_, here, fun other above below =>
            later other above (by omega)⟩
          by_contra outside
          obtain rfl : position = last := by omega
          exact holds here

section

variable {source : Source}

theorem lt_size_of_isSignificant {position : Nat}
    (significant : source.isSignificant position) : position < source.size := by
  by_contra outside
  have none : source.cells[position]? = none :=
    Array.getElem?_eq_none (Nat.le_of_not_lt outside)
  rw [isSignificant, none] at significant
  cases significant

theorem next_eq_some_iff {start stop position : Nat} :
    source.nextSignificant? start stop = some position ↔
      start ≤ position ∧ position < stop ∧ source.isSignificant position ∧
        ∀ other, start ≤ other → other < position →
          source.isSignificant other = false := by
  rw [nextSignificant?, find_positions]
  constructor
  · rintro ⟨lower, upper, holds, before⟩
    exact ⟨lower, by omega, holds, before⟩
  · rintro ⟨lower, upper, holds, before⟩
    have inside := lt_size_of_isSignificant holds
    exact ⟨lower, by omega, holds, before⟩

theorem next_eq_none_iff {start stop : Nat} :
    source.nextSignificant? start stop = none ↔
      ∀ other, start ≤ other → other < stop →
        source.isSignificant other = false := by
  rw [nextSignificant?, List.find?_eq_none]
  constructor
  · intro none other lower upper
    cases holds : source.isSignificant other with
    | false => rfl
    | true =>
        have inside := lt_size_of_isSignificant holds
        exact absurd holds (none other (mem_positions.mpr ⟨lower, by omega⟩))
  · intro none other member
    have bound := mem_positions.mp member
    rw [none other bound.1 (by omega)]
    exact Bool.false_ne_true

theorem last_eq_some_iff {start stop position : Nat} :
    source.lastSignificant? start stop = some position ↔
      start ≤ position ∧ position < stop ∧ source.isSignificant position ∧
        ∀ other, position < other → other < stop →
          source.isSignificant other = false := by
  rw [lastSignificant?, find_positions_reverse]
  constructor
  · rintro ⟨lower, upper, holds, later⟩
    refine ⟨lower, by omega, holds, fun other above below => ?_⟩
    cases significant : source.isSignificant other with
    | false => rfl
    | true =>
        have inside := lt_size_of_isSignificant significant
        have none := later other above (by omega)
        rw [significant] at none
        cases none
  · rintro ⟨lower, upper, holds, later⟩
    have inside := lt_size_of_isSignificant holds
    exact ⟨lower, by omega, holds, fun other above below =>
      later other above (by omega)⟩

theorem last_eq_none_iff {start stop : Nat} :
    source.lastSignificant? start stop = none ↔
      ∀ other, start ≤ other → other < stop →
        source.isSignificant other = false := by
  rw [← next_eq_none_iff, nextSignificant?, lastSignificant?,
    List.find?_eq_none, List.find?_eq_none]
  simp only [List.mem_reverse]

end

/-! ### Moved positions -/

/-- A fragment to be inserted in a text, between two of its positions. -/
structure Insertion where
  source : Source
  fragment : Source
  place : Nat
  positive : 0 < place
  inside : place < source.size

namespace Insertion

/-- The text with the fragment. -/
def result (insertion : Insertion) : Source :=
  insertion.source.insert insertion.fragment insertion.place

/-- The number of positions that are inserted. -/
def width (insertion : Insertion) : Nat := insertion.fragment.size

/-- Where a position is after the insertion. -/
def shift (insertion : Insertion) (position : Nat) : Nat :=
  if position < insertion.place then position else position + insertion.width

/-- Where the end of something is after the insertion: behind its last
position. -/
def after (insertion : Insertion) (stop : Nat) : Nat :=
  insertion.shift (stop - 1) + 1

/-- Where a pair of brackets is after the insertion. -/
def pair (insertion : Insertion) (span : Span) : Span :=
  ⟨insertion.shift span.start, insertion.shift span.stop⟩

/-- Where a range is after the insertion. -/
def range (insertion : Insertion) (span : Span) : Span :=
  ⟨insertion.shift span.start, insertion.after span.stop⟩

variable (insertion : Insertion)

theorem shift_of_lt {position : Nat} (before : position < insertion.place) :
    insertion.shift position = position := if_pos before

theorem shift_of_le {position : Nat} (behind : insertion.place ≤ position) :
    insertion.shift position = position + insertion.width :=
  if_neg (Nat.not_lt_of_le behind)

@[simp] theorem shift_zero : insertion.shift 0 = 0 :=
  insertion.shift_of_lt insertion.positive

@[simp] theorem shift_lt_iff {left right : Nat} :
    insertion.shift left < insertion.shift right ↔ left < right := by
  unfold shift
  split <;> split <;> omega

@[simp] theorem shift_le_iff {left right : Nat} :
    insertion.shift left ≤ insertion.shift right ↔ left ≤ right := by
  unfold shift
  split <;> split <;> omega

@[simp] theorem shift_inj {left right : Nat} :
    insertion.shift left = insertion.shift right ↔ left = right := by
  unfold shift
  split <;> split <;> omega

/-- A position after the insertion is a moved one or one of the fragment. -/
theorem cover (position : Nat) :
    (∃ old, position = insertion.shift old) ∨
      ∃ index, index < insertion.width ∧ position = insertion.place + index := by
  by_cases before : position < insertion.place
  · exact Or.inl ⟨position, (insertion.shift_of_lt before).symm⟩
  · by_cases inner : position < insertion.place + insertion.width
    · exact Or.inr ⟨position - insertion.place, by omega, by omega⟩
    · refine Or.inl ⟨position - insertion.width, ?_⟩
      rw [insertion.shift_of_le (by omega)]
      omega

/-! ### What is found at positions -/

theorem result_size : insertion.result.size =
    insertion.source.size + insertion.width :=
  size_insert (Nat.le_of_lt insertion.inside)

theorem cells_shift (position : Nat) :
    insertion.result.cells[insertion.shift position]? =
      insertion.source.cells[position]? := by
  have inside := Nat.le_of_lt insertion.inside
  by_cases before : position < insertion.place
  · rw [insertion.shift_of_lt before]
    exact cells_insert_before inside before
  · rw [insertion.shift_of_le (by omega)]
    exact cells_insert_behind inside (Nat.le_of_not_lt before)

theorem cells_place {index : Nat} (inner : index < insertion.width) :
    insertion.result.cells[insertion.place + index]? =
      insertion.fragment.cells[index]? :=
  cells_insert_inner (Nat.le_of_lt insertion.inside) inner

@[simp] theorem charAt_shift (position : Nat) :
    insertion.result.charAt? (insertion.shift position) =
      insertion.source.charAt? position := by
  rw [charAt?, insertion.cells_shift, charAt?]

@[simp] theorem codeAt_shift (position : Nat) :
    insertion.result.codeAt? (insertion.shift position) =
      insertion.source.codeAt? position := by
  rw [codeAt?, insertion.cells_shift, codeAt?]

@[simp] theorem isSignificant_shift (position : Nat) :
    insertion.result.isSignificant (insertion.shift position) =
      insertion.source.isSignificant position := by
  rw [isSignificant, insertion.cells_shift, isSignificant]

@[simp] theorem isNameAt_shift (position : Nat) :
    insertion.result.isNameAt (insertion.shift position) =
      insertion.source.isNameAt position := by
  rw [isNameAt, insertion.charAt_shift, isNameAt]

theorem charAt_place {index : Nat} (inner : index < insertion.width) :
    insertion.result.charAt? (insertion.place + index) =
      insertion.fragment.charAt? index := by
  rw [charAt?, insertion.cells_place inner, charAt?]

theorem codeAt_place {index : Nat} (inner : index < insertion.width) :
    insertion.result.codeAt? (insertion.place + index) =
      insertion.fragment.codeAt? index := by
  rw [codeAt?, insertion.cells_place inner, codeAt?]

theorem isSignificant_place {index : Nat} (inner : index < insertion.width) :
    insertion.result.isSignificant (insertion.place + index) =
      insertion.fragment.isSignificant index := by
  rw [isSignificant, insertion.cells_place inner, isSignificant]

/-! ### Searches -/

/-- Nothing of the fragment counts. -/
def IsHidden : Prop :=
  ∀ index, index < insertion.width →
    insertion.fragment.isSignificant index = false

variable {insertion} in
theorem IsHidden.place (hidden : insertion.IsHidden) {index : Nat}
    (inner : index < insertion.width) :
    insertion.result.isSignificant (insertion.place + index) = false := by
  rw [insertion.isSignificant_place inner]
  exact hidden index inner

/-- A search ahead that does not come to the fragment, or passes over it, finds
what it found. -/
theorem next_shift {start stop : Nat}
    (apart : insertion.IsHidden ∨ insertion.place ≤ start ∨
      stop < insertion.place ∨
      ∃ other, start < other ∧ other < stop ∧ other < insertion.place ∧
        insertion.source.isSignificant other) :
    insertion.result.nextSignificant? (insertion.shift start + 1)
        (insertion.shift stop) =
      (insertion.source.nextSignificant? (start + 1) stop).map
        insertion.shift := by
  cases found : insertion.source.nextSignificant? (start + 1) stop with
  | none =>
      rw [next_eq_none_iff] at found
      rw [Option.map_none, next_eq_none_iff]
      intro other lower upper
      rcases insertion.cover other with ⟨old, rfl⟩ | ⟨index, inner, rfl⟩
      · rw [Nat.succ_le_iff, shift_lt_iff] at lower
        rw [shift_lt_iff] at upper
        rw [isSignificant_shift]
        exact found old lower upper
      · rcases apart with hidden | apart
        · exact hidden.place inner
        exfalso
        rcases apart with behind | before | ⟨x, above, below, -, significant⟩
        · rw [insertion.shift_of_le behind] at lower
          omega
        · rw [insertion.shift_of_lt before] at upper
          omega
        · rw [found x above below] at significant
          cases significant
  | some position =>
      obtain ⟨lower, upper, holds, before⟩ := next_eq_some_iff.mp found
      rw [Option.map_some, next_eq_some_iff, Nat.succ_le_iff, shift_lt_iff,
        shift_lt_iff, isSignificant_shift]
      refine ⟨lower, upper, holds, fun other above below => ?_⟩
      rcases insertion.cover other with ⟨old, rfl⟩ | ⟨index, inner, rfl⟩
      · rw [Nat.succ_le_iff, shift_lt_iff] at above
        rw [shift_lt_iff] at below
        rw [isSignificant_shift]
        exact before old above below
      · rcases apart with hidden | apart
        · exact hidden.place inner
        exfalso
        have crossed : insertion.place ≤ position := by
          by_contra early
          rw [insertion.shift_of_lt (Nat.lt_of_not_le early)] at below
          omega
        rcases apart with behind | early | ⟨x, first, -, second, significant⟩
        · rw [insertion.shift_of_le behind] at above
          omega
        · omega
        · rw [before x first (by omega)] at significant
          cases significant

/-- A search ahead that comes to the fragment ends there. -/
theorem next_crossing {start stop first : Nat} (before : start < insertion.place)
    (behind : insertion.place ≤ stop)
    (clear : ∀ other, start < other → other < insertion.place →
      insertion.source.isSignificant other = false)
    (found : insertion.fragment.nextSignificant? 0 insertion.width =
      some first) :
    insertion.result.nextSignificant? (insertion.shift start + 1)
        (insertion.shift stop) = some (insertion.place + first) := by
  obtain ⟨-, inner, holds, earlier⟩ := next_eq_some_iff.mp found
  rw [next_eq_some_iff, insertion.shift_of_lt before,
    insertion.shift_of_le behind, insertion.isSignificant_place inner]
  refine ⟨by omega, by omega, holds, fun other above below => ?_⟩
  rcases insertion.cover other with ⟨old, rfl⟩ | ⟨index, inside, rfl⟩
  · have small : old < insertion.place := by
      by_contra large
      rw [insertion.shift_of_le (Nat.le_of_not_lt large)] at below
      omega
    rw [insertion.shift_of_lt small] at above
    rw [isSignificant_shift]
    exact clear old above small
  · rw [insertion.isSignificant_place inside]
    exact earlier index (Nat.zero_le _) (by omega)

/-- A search back that does not come to the fragment, or passes over it, finds what
it found. -/
theorem last_shift {start stop : Nat}
    (apart : insertion.IsHidden ∨ insertion.place ≤ start ∨
      stop < insertion.place ∨
      ∃ other, insertion.place ≤ other ∧ other < stop ∧
        insertion.source.isSignificant other) :
    insertion.result.lastSignificant? (insertion.shift start)
        (insertion.shift stop) =
      (insertion.source.lastSignificant? start stop).map insertion.shift := by
  cases found : insertion.source.lastSignificant? start stop with
  | none =>
      rw [last_eq_none_iff] at found
      rw [Option.map_none, last_eq_none_iff]
      intro other lower upper
      rcases insertion.cover other with ⟨old, rfl⟩ | ⟨index, inner, rfl⟩
      · rw [shift_le_iff] at lower
        rw [shift_lt_iff] at upper
        rw [isSignificant_shift]
        exact found old lower upper
      · rcases apart with hidden | apart
        · exact hidden.place inner
        exfalso
        rcases apart with behind | before | ⟨x, above, below, significant⟩
        · rw [insertion.shift_of_le behind] at lower
          omega
        · rw [insertion.shift_of_lt before] at upper
          omega
        · have early : start ≤ x := by
            by_contra late
            rw [insertion.shift_of_le (by omega)] at lower
            omega
          rw [found x early below] at significant
          cases significant
  | some position =>
      obtain ⟨lower, upper, holds, later⟩ := last_eq_some_iff.mp found
      rw [Option.map_some, last_eq_some_iff, shift_le_iff, shift_lt_iff,
        isSignificant_shift]
      refine ⟨lower, upper, holds, fun other above below => ?_⟩
      rcases insertion.cover other with ⟨old, rfl⟩ | ⟨index, inner, rfl⟩
      · rw [shift_lt_iff] at above below
        rw [isSignificant_shift]
        exact later old above below
      · rcases apart with hidden | apart
        · exact hidden.place inner
        exfalso
        have crossed : position < insertion.place := by
          by_contra late
          rw [insertion.shift_of_le (Nat.le_of_not_lt late)] at above
          omega
        rcases apart with behind | early | ⟨x, first, second, significant⟩
        · omega
        · rw [insertion.shift_of_lt early] at below
          omega
        · rw [later x (by omega) second] at significant
          cases significant

/-- A search back that comes to the fragment ends there. -/
theorem last_crossing {start stop final : Nat} (before : start < insertion.place)
    (behind : insertion.place ≤ stop)
    (clear : ∀ other, insertion.place ≤ other → other < stop →
      insertion.source.isSignificant other = false)
    (found : insertion.fragment.lastSignificant? 0 insertion.width =
      some final) :
    insertion.result.lastSignificant? (insertion.shift start)
        (insertion.shift stop) = some (insertion.place + final) := by
  obtain ⟨-, inner, holds, later⟩ := last_eq_some_iff.mp found
  rw [last_eq_some_iff, insertion.shift_of_lt before,
    insertion.shift_of_le behind, insertion.isSignificant_place inner]
  refine ⟨by omega, by omega, holds, fun other above below => ?_⟩
  rcases insertion.cover other with ⟨old, rfl⟩ | ⟨index, inside, rfl⟩
  · have large : insertion.place ≤ old := by
      by_contra small
      rw [insertion.shift_of_lt (Nat.lt_of_not_le small)] at above
      omega
    rw [insertion.shift_of_le large] at below
    rw [isSignificant_shift]
    exact clear old large (by omega)
  · rw [insertion.isSignificant_place inside]
    exact later index (by omega) inside

end Insertion

end PackageLayers.Source

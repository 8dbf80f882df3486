/-
Purpose: Elements of an array to which a comma or an element is added.
Main exports: IsItem, Insertion.AtEnd, Insertion.AtEnd.elements_commas,
  Insertion.AtEnd.elements_item, Insertion.AtEnd.length_commas
-/
import PackageLayers.Proofs.Source.Elements

namespace PackageLayers.Source

/-!
A comma behind the last element adds no element.  A fragment with one element, put
where only commas follow, adds that element behind the others.
-/

/-- A text with one element in a range, blanks before it, and only commas behind
it. -/
structure IsItem (fragment : Source) (first stop : Nat) : Prop where
  order : first < stop
  inside : stop ≤ fragment.size
  blank : ∀ position, position < first →
    fragment.isSignificant position = false
  starts : fragment.isSignificant first
  ends : fragment.isSignificant (stop - 1)
  behind : OnlyCommas fragment stop fragment.size
  single : commas 0 (fragment.codeChars 0 stop) = []

namespace Insertion

variable {insertion : Insertion} {brackets : Span}

/-- Before the place the text is as it was. -/
theorem cells_before {position : Nat} (before : position < insertion.place) :
    insertion.result.cells[position]? = insertion.source.cells[position]? := by
  rw [← insertion.cells_shift, insertion.shift_of_lt before]

theorem codeChars_inner_part {length : Nat} (short : length ≤ insertion.width) :
    insertion.result.codeChars insertion.place (insertion.place + length) =
      Marked.moved (insertion.place + ·)
        (insertion.fragment.codeChars 0 length) := by
  refine (codeChars_ascends _ _).ext ?_ fun position c => ?_
  · refine List.Pairwise.map _ (fun first second less => ?_)
      (codeChars_ascends 0 length)
    exact Nat.add_lt_add_left less insertion.place
  · rw [mem_codeChars]
    simp only [Marked.moved, List.mem_map, Prod.mk.injEq, Prod.exists]
    constructor
    · rintro ⟨lower, upper, code⟩
      obtain ⟨index, rfl⟩ := Nat.exists_eq_add_of_le lower
      rw [insertion.codeAt_place (by omega)] at code
      exact ⟨index, c, mem_codeChars.mpr ⟨Nat.zero_le _, by omega, code⟩, rfl, rfl⟩
    · rintro ⟨index, d, member, rfl, rfl⟩
      obtain ⟨-, bound, code⟩ := mem_codeChars.mp member
      rw [insertion.codeAt_place (by omega)]
      exact ⟨by omega, by omega, code⟩

/-- A place directly inside of brackets, with only commas up to the closing
one. -/
structure AtEnd (insertion : Insertion) (brackets : Span) : Prop where
  matched : Matched insertion.source brackets
  lower : brackets.start < insertion.place
  upper : insertion.place ≤ brackets.stop
  only : OnlyCommas insertion.source insertion.place brackets.stop

namespace AtEnd

variable (atEnd : insertion.AtEnd brackets)

include atEnd

theorem level : depthThrough 0 (Marked.chars
    (insertion.source.codeChars (brackets.start + 1) insertion.place)) = 0 := by
  have whole := atEnd.matched.balanced.depth 0
  rwa [codeChars_append atEnd.lower atEnd.upper, Marked.chars_append,
    depthThrough_append, atEnd.only.depth] at whole

theorem enclosing : insertion.source.enclosing? insertion.place =
    some brackets.start :=
  atEnd.matched.enclosing_of_level atEnd.lower atEnd.upper atEnd.level

theorem pair_eq : insertion.pair brackets =
    ⟨brackets.start, brackets.stop + insertion.width⟩ := by
  rw [pair, insertion.shift_of_lt atEnd.lower, insertion.shift_of_le atEnd.upper]

/-- Behind the fragment there are only commas too. -/
theorem onlyCommas_result : OnlyCommas insertion.result
    (insertion.place + insertion.width)
    (brackets.stop + insertion.width) := by
  intro position lower upper significant
  rcases insertion.cover position with ⟨old, rfl⟩ | ⟨index, inner, rfl⟩
  · have behind : insertion.place ≤ old := by
      by_contra before
      rw [insertion.shift_of_lt (by omega)] at lower
      omega
    rw [insertion.shift_of_le behind] at lower upper
    rw [insertion.isSignificant_shift] at significant
    rw [insertion.codeAt_shift]
    exact atEnd.only old behind (by omega) significant
  · omega

theorem elements_eq : insertion.source.elements brackets =
    insertion.source.elementsIn (brackets.start + 1) insertion.place :=
  atEnd.only.elementsIn_eq atEnd.lower atEnd.upper atEnd.level

/-- Elements before the place stay where they are. -/
theorem range_eq {range : Span}
    (member : range ∈ insertion.source.elements brackets) :
    insertion.range range = range := by
  rw [atEnd.elements_eq] at member
  have bounds := mem_elementsIn_bounds member
  rw [Insertion.range, after, insertion.shift_of_lt (by omega),
    insertion.shift_of_lt (by omega)]
  have stop : range.stop - 1 + 1 = range.stop := by omega
  rw [stop]

omit atEnd in
/-- Code from before the place into the fragment. -/
theorem codeChars_into {start length : Nat} (lower : start ≤ insertion.place)
    (short : length ≤ insertion.width) :
    Marked.chars (insertion.result.codeChars start
        (insertion.place + length)) =
      Marked.chars (insertion.source.codeChars start insertion.place) ++
        Marked.chars (insertion.fragment.codeChars 0 length) := by
  rw [codeChars_append lower (by omega : insertion.place ≤
      insertion.place + length), Marked.chars_append,
    insertion.codeChars_inner_part short, Marked.chars_moved,
    @codeChars_congr _ insertion.source _ _
        fun position _ upper => insertion.cells_before upper]

/-- A fragment adds its own commas to those directly inside of the brackets. -/
theorem length_commas (balanced : insertion.IsBalanced) :
    (commas 0 (insertion.result.codeChars (brackets.start + 1)
        (brackets.stop + insertion.width))).length =
      (commas 0 (insertion.source.codeChars (brackets.start + 1)
        brackets.stop)).length +
      (commas 0 (insertion.fragment.codeChars 0 insertion.width)).length := by
  have level : insertion.depth brackets = 0 := atEnd.level
  obtain ⟨before, after⟩ := commas_around atEnd.lower atEnd.upper balanced
  rw [insertion.shift_of_lt atEnd.lower, insertion.shift_of_le atEnd.upper] at after
  rw [before, after, level, inner, commas_moved]
  simp only [List.length_append, List.length_map]
  omega

/-- A fragment that is only commas adds no element. -/
theorem elements_commas
    (commas : OnlyCommas insertion.fragment 0 insertion.width) :
    insertion.result.elements (insertion.pair brackets) =
      insertion.source.elements brackets := by
  have only : OnlyCommas insertion.result insertion.place
      (brackets.stop + insertion.width) := by
    intro position lower upper significant
    by_cases inner : position < insertion.place + insertion.width
    · obtain ⟨index, rfl⟩ := Nat.exists_eq_add_of_le lower
      rw [insertion.isSignificant_place (by omega)] at significant
      rw [insertion.codeAt_place (by omega)]
      exact commas index (Nat.zero_le _) (by omega) significant
    · exact atEnd.onlyCommas_result position (by omega) upper significant
  have upper := atEnd.upper
  have level : depthThrough 0 (Marked.chars (insertion.result.codeChars
      (brackets.start + 1) insertion.place)) = 0 := by
    rw [@codeChars_congr _ insertion.source _ _
        fun position _ upper => insertion.cells_before upper]
    exact atEnd.level
  rw [atEnd.elements_eq, Source.elements_eq, atEnd.pair_eq,
    only.elementsIn_eq atEnd.lower (by omega) level]
  exact elementsIn_congr fun position _ upper => insertion.cells_before upper

omit atEnd in
/-- The element of a fragment. -/
theorem elementsIn_item {previous first stop : Nat}
    (item : IsItem insertion.fragment first stop)
    (before : previous < insertion.place)
    (clear : ∀ position, previous < position → position < insertion.place →
      insertion.source.isSignificant position = false) :
    insertion.result.elementsIn (previous + 1) (insertion.place + stop) =
      [⟨insertion.place + first, insertion.place + stop⟩] := by
  have order := item.order
  have short : stop ≤ insertion.width := item.inside
  have blank : ∀ position, previous + 1 ≤ position →
      position < insertion.place + first →
        insertion.result.isSignificant position = false := by
    intro position lower upper
    by_cases early : position < insertion.place
    · rw [← insertion.shift_of_lt early, insertion.isSignificant_shift]
      exact clear position (by omega) early
    · obtain ⟨index, rfl⟩ := Nat.exists_eq_add_of_le (Nat.le_of_not_lt early)
      rw [insertion.isSignificant_place (by omega)]
      exact item.blank index (by omega)
  have none : commas 0 (insertion.result.codeChars (previous + 1)
      (insertion.place + stop)) = [] := by
    have quiet : OnlyCommas insertion.result (previous + 1) insertion.place := by
      intro position lower upper significant
      rw [blank position lower (by omega)] at significant
      cases significant
    rw [codeChars_append (by omega : previous + 1 ≤ insertion.place)
      (by omega : insertion.place ≤ insertion.place + stop), commas_append,
      quiet.depth, insertion.codeChars_inner_part short, commas_moved,
      item.single, commas_eq_nil_of_clear fun position lower upper =>
        blank position lower (by omega)]
    rfl
  rw [elementsIn_of_no_commas none]
  have trimmed : insertion.result.trimmed?
      ⟨previous + 1, insertion.place + stop⟩ =
        some ⟨insertion.place + first, insertion.place + stop⟩ := by
    rw [trimmed_eq_some_iff]
    refine ⟨next_eq_some_iff.mpr ⟨by simp only; omega, by simp only; omega, ?_,
      blank⟩, insertion.place + (stop - 1), last_eq_some_iff.mpr
        ⟨by simp only; omega, by simp only; omega, ?_, fun other above below => ?_⟩,
      by simp only; omega⟩
    · rw [insertion.isSignificant_place (by omega)]
      exact item.starts
    · rw [insertion.isSignificant_place (by omega)]
      exact item.ends
    · simp only at above below
      omega
  rw [trimmed]
  rfl

/-- A fragment with one element, behind a bracket or a comma, adds it. -/
theorem elements_item {previous first stop : Nat}
    (item : IsItem insertion.fragment first stop)
    (balanced : insertion.IsBalanced)
    (least : brackets.start ≤ previous) (before : previous < insertion.place)
    (cut : previous = brackets.start ∨
      insertion.source.codeAt? previous = some ',')
    (clear : ∀ position, previous < position → position < insertion.place →
      insertion.source.isSignificant position = false) :
    insertion.result.elements (insertion.pair brackets) =
      insertion.source.elements brackets ++
        [⟨insertion.place + first, insertion.place + stop⟩] := by
  have order := item.order
  have short : stop ≤ insertion.width := item.inside
  have upper := atEnd.upper
  have lower := atEnd.lower
  have inner : depthThrough 0 (Marked.chars
      (insertion.fragment.codeChars 0 stop)) = 0 := by
    have whole := Balanced.depth balanced 0
    have behind := item.behind.depth (depthThrough 0 (Marked.chars
      (insertion.fragment.codeChars 0 stop)))
    rw [codeChars_append (Nat.zero_le _) short, Marked.chars_append,
      depthThrough_append] at whole
    exact behind.symm.trans whole
  have level : depthThrough 0 (Marked.chars (insertion.result.codeChars
      (brackets.start + 1) (insertion.place + stop))) = 0 := by
    rw [codeChars_into lower short, depthThrough_append, atEnd.level, inner]
  have only : OnlyCommas insertion.result (insertion.place + stop)
      (brackets.stop + insertion.width) := by
    intro position low high significant
    by_cases inside : position < insertion.place + insertion.width
    · obtain ⟨index, rfl⟩ := Nat.exists_eq_add_of_le
        (by omega : insertion.place ≤ position)
      rw [insertion.isSignificant_place (by omega)] at significant
      rw [insertion.codeAt_place (by omega)]
      exact item.behind index (by omega) (by rw [width] at inside; omega)
        significant
    · exact atEnd.onlyCommas_result position (by omega) high significant
  have last := elementsIn_item item before clear
  rw [Source.elements_eq, atEnd.pair_eq,
    only.elementsIn_eq (by omega) (by omega) level, atEnd.elements_eq]
  rcases cut with rfl | comma
  · rw [last, elementsIn_of_clear fun position low high =>
      clear position (by omega) high, List.nil_append]
  · by_cases first_cut : previous = brackets.start
    · obtain ⟨kind, left, right, here, -, opens, -⟩ := atEnd.matched.kinds
      rw [first_cut, here] at comma
      cases comma
      cases opens
    have flat : depthThrough 0 (Marked.chars (insertion.source.codeChars
        (brackets.start + 1) previous)) = 0 := by
      have quiet : OnlyCommas insertion.source previous insertion.place := by
        intro position low high significant
        rcases Nat.eq_or_lt_of_le low with rfl | above
        · exact comma
        · rw [clear position above high] at significant
          cases significant
      have whole := atEnd.level
      rwa [codeChars_append (by omega : brackets.start + 1 ≤ previous)
        (Nat.le_of_lt before), Marked.chars_append, depthThrough_append,
        quiet.depth] at whole
    have same : insertion.result.codeChars (brackets.start + 1) previous =
        insertion.source.codeChars (brackets.start + 1) previous :=
      codeChars_congr fun position _ high => insertion.cells_before (by omega)
    have comma' : insertion.result.codeAt? previous = some ',' := by
      rw [← insertion.shift_of_lt before, insertion.codeAt_shift]
      exact comma
    rw [@elementsIn_cut insertion.result _ _ _ (by omega) (by omega) comma'
        (by rw [same]; exact flat), last,
      @elementsIn_cut insertion.source _ _ _ (by omega) before comma flat,
      @elementsIn_of_clear insertion.source (previous + 1) _
          fun position low high => clear position (by omega) high,
      List.append_nil,
      elementsIn_congr fun position _ high => insertion.cells_before (by omega)]

end AtEnd

end Insertion

end PackageLayers.Source

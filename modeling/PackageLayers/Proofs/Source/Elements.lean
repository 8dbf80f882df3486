/-
Purpose: The elements of a part of an array.
Main exports: elementsIn, elementsIn_cut, OnlyCommas, onlyCommas_of_last
-/
import PackageLayers.Proofs.Source.Homes

namespace PackageLayers.Source

/-!
The elements of an array are those before a comma directly inside of it and those
behind.  Behind the last element there is nothing that counts but commas.
-/

/-- The elements of a part of an array. -/
def elementsIn (source : Source) (start stop : Nat) : List Span :=
  (slots start stop (commas 0 (source.codeChars start stop))).filterMap
    source.trimmed?

section

variable {source : Source}

theorem elements_eq {span : Span} : source.elements span =
    source.elementsIn (span.start + 1) span.stop := rfl

theorem slots_append {start stop cut : Nat} {left right : List Nat} :
    slots start stop (left ++ cut :: right) =
      slots start cut left ++ slots (cut + 1) stop right := by
  induction left generalizing start with
  | nil => rfl
  | cons head left inductionHypothesis =>
      rw [List.cons_append, slots, slots, inductionHypothesis, List.cons_append]

/-- The commas before and behind one directly inside of an array. -/
theorem commas_cut {start cut stop : Nat} (lower : start ≤ cut)
    (upper : cut < stop) (comma : source.codeAt? cut = some ',')
    (level : depthThrough 0 (Marked.chars (source.codeChars start cut)) = 0) :
    commas 0 (source.codeChars start stop) =
      commas 0 (source.codeChars start cut) ++
        cut :: commas 0 (source.codeChars (cut + 1) stop) := by
  rw [codeChars_append lower (Nat.le_of_lt upper), commas_append, level,
    codeChars_cons upper comma]
  simp [commas, depthAfter, Bracket.ofChar?]

/-- An array is cut at a comma directly inside of it. -/
theorem elementsIn_cut {start cut stop : Nat} (lower : start ≤ cut)
    (upper : cut < stop) (comma : source.codeAt? cut = some ',')
    (level : depthThrough 0 (Marked.chars (source.codeChars start cut)) = 0) :
    source.elementsIn start stop =
      source.elementsIn start cut ++ source.elementsIn (cut + 1) stop := by
  rw [elementsIn, commas_cut lower upper comma level, slots_append,
    List.filterMap_append]
  rfl

/-- A range without anything that counts. -/
theorem trimmed_eq_none_iff {range : Span} :
    source.trimmed? range = none ↔
      ∀ position, range.start ≤ position → position < range.stop →
        source.isSignificant position = false := by
  simp only [trimmed?, Option.bind_eq_bind]
  rw [← next_eq_none_iff]
  cases found : source.nextSignificant? range.start range.stop with
  | none => simp
  | some first =>
      obtain ⟨-, upper, significant, -⟩ := next_eq_some_iff.mp found
      simp only [Option.bind_some, reduceCtorEq, iff_false]
      cases last : source.lastSignificant? first range.stop with
      | some _ => simp
      | none =>
          have clear := last_eq_none_iff.mp last first (Nat.le_refl _) upper
          rw [significant] at clear
          cases clear

theorem trimmed_eq_some_iff {range found : Span} :
    source.trimmed? range = some found ↔
      source.nextSignificant? range.start range.stop = some found.start ∧
        ∃ last, source.lastSignificant? found.start range.stop = some last ∧
          found.stop = last + 1 := by
  obtain ⟨start, stop⟩ := found
  simp only [trimmed?, Option.bind_eq_bind, Option.bind_eq_some_iff]
  constructor
  · rintro ⟨first, next, last, before, same⟩
    cases same
    exact ⟨next, last, before, rfl⟩
  · rintro ⟨next, last, before, rfl⟩
    exact ⟨start, next, last, before, rfl⟩

/-- All that counts in a range is commas in code. -/
def OnlyCommas (source : Source) (start stop : Nat) : Prop :=
  ∀ position, start ≤ position → position < stop →
    source.isSignificant position → source.codeAt? position = some ','

theorem OnlyCommas.mono {start start' stop stop' : Nat}
    (only : OnlyCommas source start stop) (lower : start ≤ start')
    (upper : stop' ≤ stop) : OnlyCommas source start' stop' :=
  fun position above below => only position (by omega) (by omega)

/-- Only commas leave the depth as it is. -/
theorem OnlyCommas.depth {start stop : Nat} (only : OnlyCommas source start stop)
    (depth : Nat) :
    depthThrough depth (Marked.chars (source.codeChars start stop)) = depth := by
  refine Balanced.depth (Balanced.of_plain fun c member => ?_) depth
  obtain ⟨⟨position, d⟩, entry, rfl⟩ := List.mem_map.mp member
  obtain ⟨lower, upper, code⟩ := mem_codeChars.mp entry
  cases bracket : Bracket.ofChar? d with
  | none => rfl
  | some side =>
      have comma := only position lower upper
        (isSignificant_of_codeAt code (isSpace_of_bracket bracket))
      rw [code] at comma
      cases comma
      cases bracket

/-- A part without commas directly inside of it is one element or none. -/
theorem elementsIn_of_no_commas {start stop : Nat}
    (none : commas 0 (source.codeChars start stop) = []) :
    source.elementsIn start stop = (source.trimmed? ⟨start, stop⟩).toList := by
  rw [elementsIn, none, slots]
  cases trimmed : source.trimmed? ⟨start, stop⟩ <;> simp [trimmed]

theorem commas_eq_nil_of_clear {start stop : Nat}
    (clear : ∀ position, start ≤ position → position < stop →
      source.isSignificant position = false) :
    commas 0 (source.codeChars start stop) = [] := by
  refine List.eq_nil_iff_forall_not_mem.mpr fun position member => ?_
  obtain ⟨lower, upper, code, -⟩ := comma_level member
  have significant := isSignificant_of_codeAt code rfl
  rw [clear position lower upper] at significant
  cases significant

theorem elementsIn_of_clear {start stop : Nat}
    (clear : ∀ position, start ≤ position → position < stop →
      source.isSignificant position = false) :
    source.elementsIn start stop = [] := by
  rw [elementsIn_of_no_commas (commas_eq_nil_of_clear clear),
    trimmed_eq_none_iff.mpr clear]
  rfl

/-- Without anything but commas there are no elements. -/
theorem OnlyCommas.elementsIn {start stop : Nat}
    (only : OnlyCommas source start stop) : source.elementsIn start stop = [] := by
  induction size : stop - start using Nat.strong_induction_on
    generalizing start with
  | _ count inductionHypothesis =>
  cases found : source.nextSignificant? start stop with
  | none => exact elementsIn_of_clear (next_eq_none_iff.mp found)
  | some position =>
      obtain ⟨lower, upper, significant, clear⟩ := next_eq_some_iff.mp found
      rw [elementsIn_cut lower upper (only position lower upper significant)
        ((only.mono (Nat.le_refl _) (Nat.le_of_lt upper)).depth 0),
        elementsIn_of_clear clear, List.nil_append]
      exact inductionHypothesis (stop - (position + 1)) (by omega)
        (only.mono (by omega) (Nat.le_refl _)) rfl

/-! ### Ends of parts -/

theorem trimmed_trailing {start middle stop : Nat} (order : middle ≤ stop)
    (clear : ∀ position, middle ≤ position → position < stop →
      source.isSignificant position = false) :
    source.trimmed? ⟨start, stop⟩ = source.trimmed? ⟨start, middle⟩ := by
  refine Option.ext fun found => ?_
  simp only [trimmed_eq_some_iff, next_eq_some_iff, last_eq_some_iff]
  constructor
  · rintro ⟨⟨lower, upper, holds, before⟩, last, ⟨above, below, holds', later⟩, same⟩
    have inner : last < middle := by
      by_contra late
      rw [clear last (by omega) below] at holds'
      cases holds'
    exact ⟨⟨lower, by omega, holds, before⟩, last,
      ⟨above, inner, holds', fun other after short => later other after (by omega)⟩,
      same⟩
  · rintro ⟨⟨lower, upper, holds, before⟩, last, ⟨above, below, holds', later⟩, same⟩
    refine ⟨⟨lower, by omega, holds, before⟩, last,
      ⟨above, by omega, holds', fun other after short => ?_⟩, same⟩
    by_cases early : other < middle
    · exact later other after early
    · exact clear other (by omega) short

/-- What does not count at its end is no part of an array. -/
theorem elementsIn_trailing {start middle stop : Nat} (lower : start ≤ middle)
    (order : middle ≤ stop)
    (clear : ∀ position, middle ≤ position → position < stop →
      source.isSignificant position = false) :
    source.elementsIn start stop = source.elementsIn start middle := by
  have same : commas 0 (source.codeChars start stop) =
      commas 0 (source.codeChars start middle) := by
    rw [codeChars_append lower order, commas_append]
    have none : commas (depthThrough 0 (Marked.chars
        (source.codeChars start middle))) (source.codeChars middle stop) = [] := by
      refine List.eq_nil_iff_forall_not_mem.mpr fun position member => ?_
      obtain ⟨before, rest, split, -⟩ := mem_commas member
      have here : (position, ',') ∈ source.codeChars middle stop := by
        rw [split]
        simp
      obtain ⟨above, below, code⟩ := mem_codeChars.mp here
      have significant := isSignificant_of_codeAt code rfl
      rw [clear position above below] at significant
      cases significant
    rw [none, List.append_nil]
  rw [elementsIn, elementsIn, same]
  have bounds : ∀ cut ∈ commas 0 (source.codeChars start middle),
      cut < middle := fun cut member => (comma_level member).2.1
  clear same
  generalize commas 0 (source.codeChars start middle) = cuts at bounds
  induction cuts generalizing start with
  | nil =>
      rw [slots, slots, List.filterMap_cons, List.filterMap_cons,
        trimmed_trailing order clear]
  | cons cut cuts inductionHypothesis =>
      rw [slots, slots, List.filterMap_cons, List.filterMap_cons,
        inductionHypothesis (bounds cut List.mem_cons_self)
          fun other member => bounds other (List.mem_cons_of_mem _ member)]

/-- Commas at its end add nothing to a part of an array. -/
theorem OnlyCommas.elementsIn_eq {start middle stop : Nat}
    (only : OnlyCommas source middle stop) (lower : start ≤ middle)
    (order : middle ≤ stop)
    (level : depthThrough 0 (Marked.chars (source.codeChars start middle)) = 0) :
    source.elementsIn start stop = source.elementsIn start middle := by
  cases found : source.nextSignificant? middle stop with
  | none =>
      exact elementsIn_trailing lower order (next_eq_none_iff.mp found)
  | some position =>
      obtain ⟨above, below, significant, clear⟩ := next_eq_some_iff.mp found
      have comma := only position above below significant
      have later : depthThrough 0 (Marked.chars
          (source.codeChars start position)) = 0 := by
        rw [codeChars_append lower above, Marked.chars_append,
          depthThrough_append, level]
        exact (only.mono (Nat.le_refl _) (Nat.le_of_lt below)).depth 0
      rw [elementsIn_cut (by omega) below comma later,
        (only.mono (by omega) (Nat.le_refl _)).elementsIn, List.append_nil]
      exact elementsIn_trailing lower above clear

/-! ### Behind the last element -/

theorem stop_le_of_trimmed {start stop position : Nat}
    (lower : (source.trimmed? ⟨start, stop⟩).elim start Span.stop ≤ position)
    (significant : source.isSignificant position) : stop ≤ position := by
  by_contra upper
  cases trimmed : source.trimmed? ⟨start, stop⟩ with
  | none =>
      rw [trimmed, Option.elim_none] at lower
      have clear := trimmed_eq_none_iff.mp trimmed position lower
        (by simpa using upper)
      rw [significant] at clear
      cases clear
  | some found =>
      rw [trimmed, Option.elim_some] at lower
      obtain ⟨-, last, before, same⟩ := trimmed_eq_some_iff.mp trimmed
      have clear := (last_eq_some_iff.mp before).2.2.2 position (by omega)
        (by simpa using upper)
      rw [significant] at clear
      cases clear

/-- What counts behind the last of some elements is a cut. -/
theorem mem_cuts_of_last {start stop position : Nat} {cuts : List Nat}
    (lower : ((slots start stop cuts).filterMap
      source.trimmed?).getLast?.elim start Span.stop ≤ position)
    (upper : position < stop) (significant : source.isSignificant position) :
    position ∈ cuts := by
  induction cuts generalizing start with
  | nil =>
      rw [slots] at lower
      have late : stop ≤ position := by
        refine @stop_le_of_trimmed _ start _ _ ?_ significant
        cases trimmed : source.trimmed? ⟨start, stop⟩ <;>
          simpa [trimmed] using lower
      omega
  | cons cut cuts inductionHypothesis =>
      rw [slots, List.filterMap_cons] at lower
      cases rest : (slots (cut + 1) stop cuts).filterMap source.trimmed? with
      | cons head tail =>
          refine List.mem_cons_of_mem _ (@inductionHypothesis (cut + 1) ?_)
          rw [rest] at lower ⊢
          cases trimmed : source.trimmed? ⟨start, cut⟩ <;>
            simpa [trimmed, List.getLast?_cons] using lower
      | nil =>
          have late : cut ≤ position := by
            refine @stop_le_of_trimmed _ start _ _ ?_ significant
            rw [rest] at lower
            cases trimmed : source.trimmed? ⟨start, cut⟩ <;>
              simpa [trimmed] using lower
          rcases Nat.eq_or_lt_of_le late with same | less
          · exact same ▸ List.mem_cons_self
          · refine List.mem_cons_of_mem _ (@inductionHypothesis (cut + 1) ?_)
            rw [rest]
            exact less

/-- Behind the last element of an array there are only commas. -/
theorem onlyCommas_of_last {span : Span} {start : Nat}
    (last : (source.elements span).getLast?.elim (span.start + 1) Span.stop ≤
      start) : OnlyCommas source start span.stop := by
  intro position lower upper significant
  have cut := mem_cuts_of_last (by
    rw [← elementsIn, ← elements_eq]
    exact Nat.le_trans last lower) upper significant
  exact (comma_level cut).2.2.1

end

/-! ### Parts that look the same -/

theorem codeChars_congr {left right : Source} {start stop : Nat}
    (same : ∀ position, start ≤ position → position < stop →
      left.cells[position]? = right.cells[position]?) :
    left.codeChars start stop = right.codeChars start stop := by
  refine (codeChars_ascends _ _).ext (codeChars_ascends _ _) fun position c => ?_
  rw [mem_codeChars, mem_codeChars]
  refine and_congr_right fun lower => and_congr_right fun upper => ?_
  rw [codeAt?, codeAt?, same position lower upper]

theorem trimmed_congr {left right : Source} {start stop : Nat}
    (same : ∀ position, start ≤ position → position < stop →
      left.cells[position]? = right.cells[position]?) :
    left.trimmed? ⟨start, stop⟩ = right.trimmed? ⟨start, stop⟩ := by
  have counts (position : Nat) (lower : start ≤ position)
      (upper : position < stop) :
      left.isSignificant position = right.isSignificant position := by
    rw [isSignificant, isSignificant, same position lower upper]
  refine Option.ext fun found => ?_
  simp only [trimmed_eq_some_iff, next_eq_some_iff, last_eq_some_iff]
  constructor
  · rintro ⟨⟨lower, upper, holds, before⟩, last, ⟨above, below, holds', later⟩, stop⟩
    refine ⟨⟨lower, upper, counts _ lower upper ▸ holds, fun other after short => ?_⟩,
      last, ⟨above, below, counts last (by omega) below ▸ holds',
        fun other after short => ?_⟩, stop⟩
    · rw [← counts other after (by omega)]
      exact before other after short
    · rw [← counts other (by omega) short]
      exact later other after short
  · rintro ⟨⟨lower, upper, holds, before⟩, last, ⟨above, below, holds', later⟩, stop⟩
    refine ⟨⟨lower, upper, (counts _ lower upper).symm ▸ holds,
      fun other after short => ?_⟩,
      last, ⟨above, below, (counts last (by omega) below).symm ▸ holds',
        fun other after short => ?_⟩, stop⟩
    · rw [counts other after (by omega)]
      exact before other after short
    · rw [counts other (by omega) short]
      exact later other after short

theorem slot_bounds {least start stop : Nat} {cuts : List Nat} {slot : Span}
    (lower : least ≤ start) (bounds : ∀ cut ∈ cuts, least ≤ cut ∧ cut ≤ stop)
    (member : slot ∈ slots start stop cuts) :
    least ≤ slot.start ∧ slot.stop ≤ stop := by
  induction cuts generalizing start with
  | nil =>
      rw [slots, List.mem_singleton] at member
      subst member
      exact ⟨lower, Nat.le_refl _⟩
  | cons cut cuts inductionHypothesis =>
      have here := bounds cut List.mem_cons_self
      rw [slots, List.mem_cons] at member
      rcases member with rfl | later
      · exact ⟨lower, here.2⟩
      · exact inductionHypothesis (by omega)
          (fun other inside => bounds other (List.mem_cons_of_mem _ inside)) later

/-- An element lies in its part of the array. -/
theorem mem_elementsIn_bounds {source : Source} {start stop : Nat} {range : Span}
    (member : range ∈ source.elementsIn start stop) :
    start ≤ range.start ∧ range.start < range.stop ∧ range.stop ≤ stop := by
  obtain ⟨slot, here, trimmed⟩ := List.mem_filterMap.mp member
  obtain ⟨next, last, back, same⟩ := trimmed_eq_some_iff.mp trimmed
  obtain ⟨above, below, -⟩ := last_eq_some_iff.mp back
  have first := (next_eq_some_iff.mp next).1
  have bounds := @slot_bounds start _ _ _ _ (Nat.le_refl _)
      (fun cut member => ⟨(comma_level member).1,
      Nat.le_of_lt (comma_level member).2.1⟩) here
  omega

/-- Parts that look the same have the same elements. -/
theorem elementsIn_congr {left right : Source} {start stop : Nat}
    (same : ∀ position, start ≤ position → position < stop →
      left.cells[position]? = right.cells[position]?) :
    left.elementsIn start stop = right.elementsIn start stop := by
  rw [elementsIn, elementsIn, codeChars_congr same]
  have bounds : ∀ cut ∈ commas 0 (right.codeChars start stop),
      start ≤ cut ∧ cut < stop := fun cut member =>
    ⟨(comma_level member).1, (comma_level member).2.1⟩
  generalize commas 0 (right.codeChars start stop) = cuts at bounds
  refine List.filterMap_congr fun slot member => ?_
  have inside := @slot_bounds start _ _ _ _ (Nat.le_refl _)
      (fun cut member => ⟨(bounds cut member).1, Nat.le_of_lt (bounds cut member).2⟩)
      member
  exact trimmed_congr fun position above below =>
    same position (by omega) (by omega)

end PackageLayers.Source

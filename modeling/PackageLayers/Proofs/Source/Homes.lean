/-
Purpose: The bracket directly inside of which a position lies, and the label of a
value.
Main exports: Matched.enclosing_of_level, Insertion.deep_of_enclosing,
  Labelled.unique
-/
import PackageLayers.Proofs.Source.Labels

namespace PackageLayers.Source

/-!
A position lies directly inside of at most one pair of brackets, the one whose
opening bracket is innermost there.  A value has at most one label.
-/

/-- A part of a balanced piece leaves the brackets open that were open before it,
and as many more as its depth says. -/
theorem Balanced.openBefore_part {chars : List Char} (balanced : Balanced chars)
    {code rest : Marked} (same : chars = Marked.chars (code ++ rest))
    (pending : List Nat) :
    ∃ added, Source.openBefore pending code = added ++ pending ∧
      ∀ depth, depthThrough depth (Marked.chars code) = depth + added.length := by
  induction balanced generalizing code rest pending with
  | nil =>
      obtain ⟨rfl, -⟩ := List.append_eq_nil_iff.mp
        (List.map_eq_nil_iff.mp same.symm)
      exact ⟨[], rfl, fun depth => rfl⟩
  | other plain later inductionHypothesis =>
      cases code with
      | nil => exact ⟨[], rfl, fun depth => rfl⟩
      | cons entry code =>
          obtain ⟨position, d⟩ := entry
          simp only [Marked.chars, List.cons_append, List.map_cons,
            List.cons.injEq] at same
          obtain ⟨rfl, tail⟩ := same
          obtain ⟨added, opened, depth⟩ := inductionHypothesis tail pending
          refine ⟨added, by simpa only [Source.openBefore, plain], fun level => ?_⟩
          simp only [Marked.chars, List.map_cons, depthThrough, List.foldl_cons,
            depthAfter_plain plain]
          exact depth level
  | @nested kind left right inner behind opens closes within later
      insideHypothesis inductionHypothesis =>
      cases code with
      | nil => exact ⟨[], rfl, fun depth => rfl⟩
      | cons entry code =>
          obtain ⟨position, d⟩ := entry
          simp only [Marked.chars, List.cons_append, List.map_cons,
            List.cons.injEq] at same
          obtain ⟨rfl, tail⟩ := same
          have start (level : Nat) :
              depthThrough level (Marked.chars ((position, left) :: code)) =
                depthThrough (level + 1) (Marked.chars code) := by
            simp only [Marked.chars, List.map_cons, depthThrough, List.foldl_cons,
              depthAfter_opening opens]
          simp only [Source.openBefore, opens, start]
          rw [List.map_append] at tail
          rcases List.append_eq_append_iff.mp tail with
            ⟨extra, long, split⟩ | ⟨extra, short, split⟩
          · cases extra with
            | nil =>
                rw [List.append_nil] at long
                obtain ⟨added, opened, depth⟩ := @insideHypothesis
                  _ [] (by rw [List.append_nil]; exact long.symm)
                  (position :: pending)
                refine ⟨added ++ [position], by simp [opened], fun level => ?_⟩
                rw [depth, List.length_append, List.length_singleton]
                omega
            | cons e extra =>
                rw [List.cons_append, List.cons.injEq] at split
                obtain ⟨rfl, split⟩ := split
                obtain ⟨first, second, rfl, inside, behind'⟩ :=
                  Marked.chars_eq_append long.symm
                obtain ⟨place, second, rfl, last⟩ :=
                  Marked.chars_eq_cons behind'
                obtain ⟨added, opened, depth⟩ := @inductionHypothesis
                  second rest (by
                    rw [Marked.chars_append, ← last, split]
                    rfl) pending
                refine ⟨added, ?_, fun level => ?_⟩
                · simp only [openBefore_append, within.openBefore inside,
                    Source.openBefore, closes, List.tail_cons, opened]
                · rw [Marked.chars_append, depthThrough_append, ← inside,
                    within.depth]
                  simp only [Marked.chars, List.map_cons, depthThrough,
                    List.foldl_cons, depthAfter_closing closes,
                    Nat.add_sub_cancel]
                  exact depth level
          · obtain ⟨added, opened, depth⟩ := @insideHypothesis
              code (rest.take extra.length) (by
                rw [Marked.chars_append, short]
                congr 1
                rw [Marked.chars, List.map_take, split, List.take_left])
              (position :: pending)
            refine ⟨added ++ [position], by simp [opened], fun level => ?_⟩
            rw [depth, List.length_append, List.length_singleton]
            omega

section

variable {source : Source}

/-- Between partners the brackets that were open before the first of them stay open,
and the depth says how many opened after it. -/
theorem Matched.openBefore_inside {span : Span} (matched : Matched source span)
    {position : Nat} (lower : span.start < position) (upper : position ≤ span.stop) :
    ∃ added outer, openBefore [] (source.codeChars 0 position) =
        added ++ span.start :: outer ∧
      depthThrough 0 (Marked.chars (source.codeChars (span.start + 1) position)) =
        added.length := by
  obtain ⟨kind, left, right, here, -, opens, -⟩ := matched.kinds
  have split : Marked.chars (source.codeChars (span.start + 1) span.stop) =
      Marked.chars (source.codeChars (span.start + 1) position ++
        source.codeChars position span.stop) := by
    rw [← codeChars_append lower upper]
  obtain ⟨added, opened, depth⟩ := matched.balanced.openBefore_part split
    (span.start :: openBefore [] (source.codeChars 0 span.start))
  refine ⟨added, openBefore [] (source.codeChars 0 span.start), ?_,
    by rw [depth, Nat.zero_add]⟩
  rw [codeChars_append (Nat.zero_le _) (Nat.le_of_lt lower),
    codeChars_cons lower here, openBefore_append]
  simp only [openBefore, opens, opened]

/-- The bracket around a position directly inside of a pair. -/
theorem Matched.enclosing_of_level {span : Span} (matched : Matched source span)
    {position : Nat} (lower : span.start < position)
    (upper : position ≤ span.stop)
    (level : depthThrough 0 (Marked.chars
      (source.codeChars (span.start + 1) position)) = 0) :
    source.enclosing? position = some span.start := by
  obtain ⟨added, outer, opened, depth⟩ := matched.openBefore_inside lower upper
  rw [depth] at level
  obtain rfl := List.length_eq_zero_iff.mp level
  rw [enclosing?, opened, List.nil_append, List.head?_cons]

theorem enclosing_of_topLevel {span : Span} (matched : Matched source span)
    {position : Nat} (member : position ∈ source.topLevel span) :
    source.enclosing? position = some span.start := by
  obtain ⟨lower, upper, level, -⟩ := mem_topLevel.mp member
  exact matched.enclosing_of_level lower (Nat.le_of_lt upper) level

/-- Code without brackets leaves the depth as it was. -/
theorem level_extend {start middle stop : Nat} (lower : start ≤ middle)
    (order : middle ≤ stop)
    (level : depthThrough 0 (Marked.chars (source.codeChars start middle)) = 0)
    (plain : ∀ position c, middle ≤ position → position < stop →
      source.codeAt? position = some c → Bracket.ofChar? c = none) :
    depthThrough 0 (Marked.chars (source.codeChars start stop)) = 0 := by
  rw [codeChars_append lower order, Marked.chars_append, depthThrough_append,
    level]
  refine (Balanced.of_plain fun c member => ?_).depth 0
  obtain ⟨⟨position, d⟩, entry, rfl⟩ := List.mem_map.mp member
  obtain ⟨above, below, code⟩ := mem_codeChars.mp entry
  exact plain position d above below code

theorem no_bracket_of_name {c : Char} (name : isNameChar c) :
    Bracket.ofChar? c = none := by
  unfold Bracket.ofChar?
  repeat' split
  all_goals first
    | rfl
    | (rename_i same; subst same; cases name)

/-- Code that does not count is no bracket. -/
theorem no_bracket_of_hidden {position : Nat} {c : Char}
    (code : source.codeAt? position = some c)
    (hidden : source.isSignificant position = false) :
    Bracket.ofChar? c = none := by
  cases bracket : Bracket.ofChar? c with
  | none => rfl
  | some side =>
      rw [isSignificant_of_codeAt code (isSpace_of_bracket bracket)] at hidden
      cases hidden

/-- A fragment lies deeper in all pairs of brackets but the one around it. -/
theorem Insertion.deep_of_enclosing {insertion : Insertion} {home : Nat}
    (around : insertion.source.enclosing? insertion.place = some home)
    {span : Span} (matched : Matched insertion.source span)
    (other : span.start ≠ home) : insertion.Deep span := by
  by_contra shallow
  simp only [Insertion.Deep, not_or] at shallow
  obtain ⟨before, behind, level⟩ := shallow
  have same := @Matched.enclosing_of_level _ _ matched insertion.place
      (by omega) (by omega) (by
      have none := Nat.eq_zero_of_not_pos level
      exact none)
  rw [around] at same
  exact other (Option.some.inj same).symm

/-! ### The label of a value -/

theorem isSignificant_of_isNameAt {position : Nat} {c : Char}
    (code : source.codeAt? position = some c) (name : isNameChar c) :
    source.isSignificant position := by
  refine isSignificant_of_codeAt code ?_
  cases space : isSpace c with
  | false => rfl
  | true =>
      simp only [isSpace, Bool.or_eq_true, decide_eq_true_eq] at space
      rcases space with (((rfl | rfl) | rfl) | rfl) | rfl <;> cases name

/-- Two positions after which the same one is the next to count are the same. -/
theorem eq_of_next {first second stop stop' found : Nat}
    (here : source.isSignificant first) (there : source.isSignificant second)
    (next : source.nextSignificant? (first + 1) stop = some found)
    (next' : source.nextSignificant? (second + 1) stop' = some found) :
    first = second := by
  obtain ⟨lower, -, -, clear⟩ := next_eq_some_iff.mp next
  obtain ⟨lower', -, -, clear'⟩ := next_eq_some_iff.mp next'
  rcases Nat.lt_trichotomy first second with less | same | greater
  · rw [clear second less lower'] at there
    cases there
  · exact same
  · rw [clear' first greater lower] at here
    cases here

/-- A label in code, and the last character of its name. -/
theorem Labelled.last {stop position colon : Nat} {word : List Char} {c : Char}
    (regular : Regular source) (names : word.all isNameChar) (filled : word ≠ [])
    (code : source.codeAt? position = some c)
    (labelled : Labelled source stop word position colon) :
    ∃ d, source.codeAt? (position + (word.length - 1)) = some d ∧
      isNameChar d ∧ source.nextSignificant?
        (position + (word.length - 1) + 1) stop = some colon := by
  have length := List.length_pos_of_ne_nil filled
  have last := List.getElem?_eq_getElem (Nat.sub_lt length Nat.one_pos)
  have final : position + word.length = position + (word.length - 1) + 1 := by
    omega
  have all := regular.code_of_stands names code labelled.stands
  rw [List.all_eq_true] at names
  exact ⟨_, all _ _ last, names _ (List.mem_of_getElem? last),
    final ▸ labelled.next⟩

/-- The colon of a label in code is code. -/
theorem Labelled.colon_code {stop position colon : Nat} {word : List Char}
    {c : Char} (regular : Regular source) (names : word.all isNameChar)
    (filled : word ≠ []) (code : source.codeAt? position = some c)
    (labelled : Labelled source stop word position colon) :
    source.codeAt? colon = some ':' := by
  obtain ⟨d, here, -, next⟩ := labelled.last regular names filled code
  exact regular.code_next here next labelled.char rfl

/-- A colon has one label. -/
theorem Labelled.unique {stop stop' first second colon : Nat}
    {word word' : List Char} {c d : Char} (regular : Regular source)
    (names : word.all isNameChar) (names' : word'.all isNameChar)
    (filled : word ≠ []) (filled' : word' ≠ [])
    (code : source.codeAt? first = some c)
    (code' : source.codeAt? second = some d)
    (labelled : Labelled source stop word first colon)
    (labelled' : Labelled source stop' word' second colon) :
    first = second ∧ word = word' := by
  obtain ⟨e, here, name, next⟩ := labelled.last regular names filled code
  obtain ⟨e', here', name', next'⟩ :=
    labelled'.last regular names' filled' code'
  have last := eq_of_next (isSignificant_of_isNameAt here name)
    (isSignificant_of_isNameAt here' name') next next'
  have length := List.length_pos_of_ne_nil filled
  have length' := List.length_pos_of_ne_nil filled'
  have inside {start other : Nat} {word : List Char}
      (names : word.all isNameChar) (stands : StandsAt source word start)
      (lower : start < other) (upper : other ≤ start + (word.length - 1)) :
      source.isNameAt (other - 1) := by
    have here := List.getElem?_eq_getElem
      (by omega : other - 1 - start < word.length)
    have found := stands _ _ here
    rw [show start + (other - 1 - start) = other - 1 by omega] at found
    rw [List.all_eq_true] at names
    exact isNameAt_iff.mpr ⟨_, found, names _ (List.mem_of_getElem? here)⟩
  have same : first = second := by
    rcases Nat.lt_trichotomy first second with less | same | greater
    · have name := inside names labelled.stands less (by omega)
      rw [labelled'.starts] at name
      cases name
    · exact same
    · have name := inside names' labelled'.stands greater (by omega)
      rw [labelled.starts] at name
      cases name
  subst same
  refine ⟨rfl, List.ext_getElem (by omega) fun index bound bound' => ?_⟩
  have left := labelled.stands _ _ (List.getElem?_eq_getElem bound)
  have right := labelled'.stands _ _ (List.getElem?_eq_getElem bound')
  rw [left] at right
  exact Option.some.inj right

end

end PackageLayers.Source

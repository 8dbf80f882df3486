/-
Purpose: What stands directly inside of a pair of brackets: its commas, its elements,
and how the three walks over brackets agree on it.
Main exports: IsComma, Splits, elements_split, places, Separates,
  Matched.enclosing_iff, walks_agree
-/
import Mathlib.Data.List.Pairwise
import PackageLayers.Proofs.Source.Boundaries
import PackageLayers.Proofs.Source.Partners

namespace PackageLayers.Source

/-!
The walk for a partner keeps the kinds of the open brackets, the walk for commas
only their number, and the walk for the innermost bracket their positions, from the
start of the text on and with closing brackets that belong to nothing.  Between two
partners none of this makes a difference: whatever is open there was opened there,
so the number is zero just where the brackets before are nested, and just there the
innermost position is that of the first partner.

Commas at such positions cut what is between the partners into places, and a place
in which anything counts is an element.
-/

/-! ### Depth -/

/-- As long as no bracket closes one of another kind, the depth is the number of
brackets that are open. -/
theorem depthThrough_pending {chars : List Char} {pending left : List BracketKind}
    (found : pendingAfter pending (bracketsOf chars) = some left) :
    depthThrough pending.length chars = left.length := by
  induction chars generalizing pending with
  | nil =>
      cases found
      rfl
  | cons c chars inductionHypothesis =>
      rw [depthThrough, List.foldl_cons, ← depthThrough]
      cases bracket : Bracket.ofChar? c with
      | none =>
          rw [bracketsOf_plain bracket] at found
          rw [depthAfter_plain bracket]
          exact inductionHypothesis found
      | some side =>
          rw [bracketsOf_bracket bracket] at found
          cases side with
          | opening kind =>
              rw [depthAfter_opening bracket]
              exact inductionHypothesis found
          | closing kind =>
              rw [depthAfter_closing bracket]
              cases pending with
              | nil => cases found
              | cons innermost outer =>
                  rw [pendingAfter] at found
                  split at found
                  · exact inductionHypothesis found
                  · cases found

section

variable {source : Source} {span : Span} {position : Nat}

/-- Between partners the brackets before a position close none of another kind. -/
theorem Matched.pending (matched : Matched source span) (lower : span.start < position)
    (upper : position ≤ span.stop) :
    ∃ left, pendingAfter [] (source.brackets (span.start + 1) position) = some left := by
  have whole : Nested (source.brackets (span.start + 1) span.stop) :=
    nested_of_balanced matched.balanced
  rw [nested_iff, brackets_append lower upper, pendingAfter_append,
    Option.bind_eq_some_iff] at whole
  obtain ⟨left, found, -⟩ := whole
  exact ⟨left, found⟩

/-- Between partners the depth is zero where the brackets before are nested. -/
theorem Matched.level_iff (matched : Matched source span) (lower : span.start < position)
    (upper : position ≤ span.stop) :
    depthThrough 0 (Marked.chars (source.codeChars (span.start + 1) position)) = 0 ↔
      Nested (source.brackets (span.start + 1) position) := by
  obtain ⟨left, found⟩ := matched.pending lower upper
  have depth : depthThrough 0 (Marked.chars
      (source.codeChars (span.start + 1) position)) = left.length :=
    depthThrough_pending found
  rw [nested_iff, found, depth, List.length_eq_zero_iff, Option.some.injEq]

/-! ### Commas and places -/

/-- A comma in code directly inside of a pair of brackets: what is opened between
the first of them and the comma is closed before the comma. -/
structure IsComma (source : Source) (span : Span) (position : Nat) : Prop where
  lower : span.start < position
  upper : position < span.stop
  code : source.codeAt? position = some ','
  level : Nested (source.brackets (span.start + 1) position)

theorem Matched.mem_commas_iff (matched : Matched source span) :
    position ∈ commas 0 (source.codeChars (span.start + 1) span.stop) ↔
      IsComma source span position := by
  constructor
  · intro member
    obtain ⟨lower, upper, code, level⟩ := comma_level member
    exact ⟨lower, upper, code,
      (matched.level_iff lower (Nat.le_of_lt upper)).mp level⟩
  · rintro ⟨lower, upper, code, level⟩
    have flat := (matched.level_iff lower (Nat.le_of_lt upper)).mpr level
    rw [commas_cut lower upper code flat]
    exact List.mem_append_right _ List.mem_cons_self

/-- What stands between the commas directly inside of a pair of brackets, empty
places included. -/
def places (source : Source) (span : Span) : List Span :=
  slots (span.start + 1) span.stop
    (commas 0 (source.codeChars (span.start + 1) span.stop))

/-- The elements are the places that hold anything, without their ends. -/
theorem mem_elements {range : Span} :
    range ∈ source.elements span ↔
      ∃ slot ∈ source.places span, source.trimmed? slot = some range :=
  List.mem_filterMap

/-- A position separates a range from the next one. -/
def Separates (ranges : List Span) (position : Nat) : Prop :=
  ∃ before left right behind, ranges = before ++ left :: right :: behind ∧
    left.stop = position ∧ right.start = position + 1

theorem slots_eq_cons (start stop : Nat) (cuts : List Nat) :
    ∃ first rest, slots start stop cuts = ⟨start, first⟩ :: rest := by
  cases cuts with
  | nil => exact ⟨stop, [], rfl⟩
  | cons cut cuts => exact ⟨cut, _, rfl⟩

/-- The cuts are what separates the slots. -/
theorem separates_slots {start stop : Nat} {cuts : List Nat} :
    Separates (slots start stop cuts) position ↔ position ∈ cuts := by
  induction cuts generalizing start with
  | nil =>
      refine iff_of_false ?_ List.not_mem_nil
      rintro ⟨before, left, right, behind, same, -⟩
      have size := congrArg List.length same
      simp only [slots, List.length_append, List.length_cons, List.length_nil] at size
      omega
  | cons cut cuts inductionHypothesis =>
      rw [slots, List.mem_cons, ← @inductionHypothesis (cut + 1)]
      constructor
      · rintro ⟨before, left, right, behind, same, ends, starts⟩
        cases before with
        | nil =>
            rw [List.nil_append, List.cons.injEq] at same
            exact Or.inl (by rw [← ends, ← same.1])
        | cons head before =>
            rw [List.cons_append, List.cons.injEq] at same
            exact Or.inr ⟨before, left, right, behind, same.2, ends, starts⟩
      · rintro (rfl | ⟨before, left, right, behind, same, ends, starts⟩)
        · obtain ⟨first, rest, same⟩ := slots_eq_cons (position + 1) stop cuts
          exact ⟨[], ⟨start, position⟩, ⟨position + 1, first⟩, rest, by rw [same]; rfl,
            rfl, rfl⟩
        · exact ⟨⟨start, cut⟩ :: before, left, right, behind, by rw [same]; rfl, ends,
            starts⟩

/-! ### Elements -/

/-- Whether a position lies in a range. -/
def Span.Covers (range : Span) (position : Nat) : Prop :=
  range.start ≤ position ∧ position < range.stop

/-- What is no cut lies in a slot. -/
theorem exists_slot {start stop : Nat} {cuts : List Nat} (lower : start ≤ position)
    (upper : position < stop) (apart : position ∉ cuts) :
    ∃ slot ∈ slots start stop cuts, slot.Covers position := by
  induction cuts generalizing start with
  | nil => exact ⟨⟨start, stop⟩, List.mem_cons_self, lower, upper⟩
  | cons cut cuts inductionHypothesis =>
      rw [List.mem_cons, not_or] at apart
      by_cases early : position < cut
      · exact ⟨⟨start, cut⟩, List.mem_cons_self, lower, early⟩
      · obtain ⟨slot, member, covers⟩ :=
          @inductionHypothesis (cut + 1) (by omega) apart.2
        exact ⟨slot, List.mem_cons_of_mem _ member, covers⟩

/-- No cut lies in a slot. -/
theorem not_covers_cut {start stop cut : Nat} {cuts : List Nat} {slot : Span}
    (ascend : cuts.Pairwise (· < ·)) (bounds : ∀ cut ∈ cuts, cut ≤ stop)
    (member : slot ∈ slots start stop cuts) (here : cut ∈ cuts) :
    ¬slot.Covers cut := by
  induction cuts generalizing start with
  | nil => cases here
  | cons first cuts inductionHypothesis =>
      obtain ⟨above, ascend⟩ := List.pairwise_cons.mp ascend
      have later := fun other inside => bounds other (List.mem_cons_of_mem first inside)
      rintro ⟨lower, upper⟩
      rw [slots, List.mem_cons] at member
      rcases member with rfl | behind
      · rcases List.mem_cons.mp here with rfl | inside
        · exact Nat.lt_irrefl _ upper
        · exact Nat.lt_asymm upper (above cut inside)
      · rcases List.mem_cons.mp here with rfl | inside
        · have bound := (slot_bounds (Nat.le_refl (cut + 1))
            (fun other inside => ⟨above other inside, later other inside⟩) behind).1
          omega
        · exact inductionHypothesis ascend later behind inside ⟨lower, upper⟩

/-- A range and the same range without its ends hold the same of what counts. -/
theorem covers_trimmed {slot range : Span} (trimmed : source.trimmed? slot = some range)
    (counts : source.isSignificant position) :
    range.Covers position ↔ slot.Covers position := by
  obtain ⟨next, last, back, stop⟩ := trimmed_eq_some_iff.mp trimmed
  obtain ⟨first, -, -, clear⟩ := next_eq_some_iff.mp next
  obtain ⟨-, final, -, clear'⟩ := last_eq_some_iff.mp back
  constructor
  · rintro ⟨lower, upper⟩
    exact ⟨by omega, by omega⟩
  · rintro ⟨lower, upper⟩
    have begins : range.start ≤ position := by
      by_contra early
      rw [clear position lower (by omega)] at counts
      cases counts
    refine ⟨begins, ?_⟩
    by_contra late
    rw [clear' position (by omega) upper] at counts
    cases counts

/-- What belongs to an element: it lies between the brackets, is neither separator
nor comment, and is no comma directly inside of the brackets. -/
structure IsContent (source : Source) (span : Span) (position : Nat) : Prop where
  lower : span.start < position
  upper : position < span.stop
  counts : source.isSignificant position
  apart : ¬IsComma source span position

/-- Content lies in a place that has an element. -/
theorem Matched.exists_place (matched : Matched source span)
    (content : IsContent source span position) :
    ∃ slot ∈ source.places span, slot.Covers position ∧
      ∃ range, source.trimmed? slot = some range := by
  obtain ⟨slot, member, covers⟩ := exists_slot content.lower content.upper
    (mt matched.mem_commas_iff.mp content.apart)
  refine ⟨slot, member, covers, ?_⟩
  rw [← Option.ne_none_iff_exists']
  intro none
  have clear := trimmed_eq_none_iff.mp none position covers.1 covers.2
  rw [content.counts] at clear
  cases clear

/-- Behind the place of some content there is a comma, or the brackets close. -/
theorem Matched.stop_of_place (matched : Matched source span) {slot : Span}
    (member : slot ∈ source.places span) (covers : slot.Covers position)
    (lower : span.start < position) :
    IsComma source span slot.stop ∨ slot.stop = span.stop := by
  obtain ⟨left, -, right, cut, rfl⟩ := mem_slots member
  have beyond := covers.2
  rw [List.mem_cons, List.mem_append, List.mem_singleton] at cut
  rcases cut with rfl | comma | closing
  · exact absurd beyond (Nat.lt_asymm lower)
  · exact Or.inl (matched.mem_commas_iff.mp comma)
  · exact Or.inr closing

/-- Two ranges that hold one position are not apart. -/
theorem eq_of_covers {first second : Span} (member : first ∈ source.elements span)
    (member' : second ∈ source.elements span) (here : first.Covers position)
    (there : second.Covers position) : first = second := by
  have symmetric : Std.Symm fun left right : Span =>
      ¬(left.Covers position ∧ right.Covers position) :=
    ⟨fun _ _ apart both => apart both.symm⟩
  have apart : (source.elements span).Pairwise fun left right =>
      ¬(left.Covers position ∧ right.Covers position) := by
    refine (elements_apart source span).imp fun {left right} order both => ?_
    obtain ⟨⟨-, upper⟩, lower, -⟩ := both
    omega
  by_contra different
  exact apart.forall member member' different ⟨here, there⟩

theorem Matched.not_covers_comma (matched : Matched source span) {range : Span}
    (member : range ∈ source.elements span) (comma : IsComma source span position) :
    ¬range.Covers position := by
  obtain ⟨slot, place, trimmed⟩ := mem_elements.mp member
  rw [covers_trimmed trimmed (isSignificant_of_codeAt comma.code rfl)]
  exact not_covers_cut (commas_ascend 0 (codeChars_ascends _ _))
    (fun cut inside => Nat.le_of_lt (comma_level inside).2.1) place
    (matched.mem_commas_iff.mpr comma)

end

/-- Ranges that split what stands between two brackets at the commas directly inside
of them.  Nothing that counts is lost and nothing is there twice. -/
structure Splits (text : String) (span : Span) (ranges : List Span) : Prop where
  ascend : ranges.Pairwise fun first second => first.stop < second.start
  inside : ∀ range ∈ ranges, span.start < range.start ∧ range.start < range.stop ∧
    range.stop ≤ span.stop
  between : ∀ range ∈ ranges, Between text.toList range.start ∧
    Between text.toList range.stop
  ends : ∀ range ∈ ranges, (ofText text).isSignificant range.start ∧
    (ofText text).isSignificant (range.stop - 1)
  whole : ∀ range ∈ ranges, ∀ position, range.Covers position →
    ¬IsComma (ofText text) span position
  covered : ∀ position, IsContent (ofText text) span position →
    ∃! range, range ∈ ranges ∧ range.Covers position
  together : ∀ first second, first ≤ second → IsContent (ofText text) span first →
    IsContent (ofText text) span second →
    ((∃ range ∈ ranges, range.Covers first ∧ range.Covers second) ↔
      ∀ position, first < position → position < second →
        ¬IsComma (ofText text) span position)

theorem elements_split {text : String} {span : Span}
    (partner : (ofText text).partner? span.start = some span.stop) :
    Splits text span ((ofText text).elements span) := by
  have matched : Matched (ofText text) span := matched_of_partner partner
  refine
    { ascend := elements_apart _ _
      inside := fun range member => mem_elementsIn_bounds member
      between := fun range member => between_of_element matched member
      ends := fun range member => ?_
      whole := fun range member position covers comma =>
        matched.not_covers_comma member comma covers
      covered := fun position content => ?_
      together := fun first second order here there => ⟨?_, fun clear => ?_⟩ }
  · obtain ⟨slot, -, trimmed⟩ := mem_elements.mp member
    obtain ⟨next, last, back, stop⟩ := trimmed_eq_some_iff.mp trimmed
    rw [stop, Nat.add_sub_cancel]
    exact ⟨(next_eq_some_iff.mp next).2.2.1, (last_eq_some_iff.mp back).2.2.1⟩
  · obtain ⟨slot, place, covers, range, trimmed⟩ := matched.exists_place content
    have member : range ∈ (ofText text).elements span :=
      mem_elements.mpr ⟨slot, place, trimmed⟩
    have inside := (covers_trimmed trimmed content.counts).mpr covers
    exact ⟨range, ⟨member, inside⟩, fun other found =>
      eq_of_covers found.1 member found.2 inside⟩
  · rintro ⟨range, member, covers, covers'⟩ position behind before comma
    exact matched.not_covers_comma member comma
      ⟨by have := covers.1; omega, by have := covers'.2; omega⟩
  · obtain ⟨slot, place, covers, range, trimmed⟩ := matched.exists_place here
    -- the place goes on beyond the second position, as it ends at a comma
    have beyond : second < slot.stop := by
      by_contra late
      rcases matched.stop_of_place place covers here.lower with comma | closing
      · by_cases same : slot.stop = second
        · exact there.apart (same ▸ comma)
        · exact clear slot.stop covers.2 (by omega) comma
      · have upper := there.upper
        omega
    have covers' : slot.Covers second := ⟨by have := covers.1; omega, beyond⟩
    exact ⟨range, mem_elements.mpr ⟨slot, place, trimmed⟩,
      (covers_trimmed trimmed here.counts).mpr covers,
      (covers_trimmed trimmed there.counts).mpr covers'⟩

/-- An array with a comma in brackets, one in a comment, an empty place and one behind
its last comma. -/
theorem elements_split_array :
    (ofText "[é, f(x, y), /* , */ ,]").partner? 0 = some 23 ∧
      Splits "[é, f(x, y), /* , */ ,]" ⟨0, 23⟩ [⟨1, 3⟩, ⟨5, 12⟩] := by
  have partner : (ofText "[é, f(x, y), /* , */ ,]").partner? 0 = some 23 := by
    decide +kernel
  have ranges : (ofText "[é, f(x, y), /* , */ ,]").elements ⟨0, 23⟩ =
      [⟨1, 3⟩, ⟨5, 12⟩] := by
    decide +kernel
  have splits := @elements_split "[é, f(x, y), /* , */ ,]" ⟨0, 23⟩ partner
  rw [ranges] at splits
  exact ⟨partner, splits⟩

/-! ### Walks -/

/-- The open brackets are listed from the innermost, which is the last, outwards. -/
theorem openBefore_descends {pending : List Nat} {code : Marked}
    (ascends : Marked.Ascends code) (descends : pending.Pairwise (· > ·))
    (before : ∀ place ∈ pending, ∀ entry ∈ code, place < entry.1) :
    (openBefore pending code).Pairwise (· > ·) := by
  induction code generalizing pending with
  | nil => exact descends
  | cons entry code inductionHypothesis =>
      obtain ⟨above, ascends⟩ := List.pairwise_cons.mp ascends
      have early (place : Nat) (member : place ∈ pending) :
          place < entry.1 ∧ ∀ other ∈ code, place < other.1 :=
        ⟨before place member entry List.mem_cons_self,
          fun other inside => before place member other (List.mem_cons_of_mem _ inside)⟩
      rw [openBefore]
      split
      · refine inductionHypothesis ascends
          (List.pairwise_cons.mpr ⟨fun place member => (early place member).1, descends⟩)
          fun place member => ?_
        rcases List.mem_cons.mp member with rfl | outer
        · exact above
        · exact (early place outer).2
      · exact inductionHypothesis ascends descends.tail
          fun place member => (early place (List.mem_of_mem_tail member)).2
      · exact inductionHypothesis ascends descends
          fun place member => (early place member).2

section

variable {source : Source} {span : Span} {position : Nat}

/-- One walk serves positions that ascend: it goes on from the brackets that are open
before one of them. -/
theorem enclosing_resume {reached : Nat} (order : reached ≤ position) :
    source.enclosing? position =
      (openBefore (openBefore [] (source.codeChars 0 reached))
        (source.codeChars reached position)).head? := by
  rw [enclosing?, codeChars_append (Nat.zero_le _) order, openBefore_append]

/-- Between partners the first of them is the innermost bracket just where the depth
is zero, whatever the text before them is. -/
theorem Matched.enclosing_iff (matched : Matched source span)
    (lower : span.start < position) (upper : position ≤ span.stop) :
    source.enclosing? position = some span.start ↔
      Nested (source.brackets (span.start + 1) position) := by
  rw [← matched.level_iff lower upper]
  refine ⟨fun innermost => ?_, matched.enclosing_of_level lower upper⟩
  obtain ⟨added, outer, opened, depth⟩ := matched.openBefore_inside lower upper
  have descends : (openBefore [] (source.codeChars 0 position)).Pairwise (· > ·) :=
    openBefore_descends (codeChars_ascends 0 position) List.Pairwise.nil
      (List.forall_mem_nil _)
  rw [depth, List.length_eq_zero_iff]
  cases added with
  | nil => rfl
  | cons place added =>
      -- a bracket that opens later stands in front of the first partner
      rw [enclosing?, opened, List.cons_append, List.head?_cons] at innermost
      rw [opened, List.cons_append, List.pairwise_cons] at descends
      have later := descends.1 span.start (by simp)
      rw [Option.some.inj innermost] at later
      exact absurd later (Nat.lt_irrefl _)

/-- Between partners no bracket closes where what was opened is closed already. -/
theorem Matched.not_closing (matched : Matched source span)
    (lower : span.start < position) (upper : position < span.stop)
    (level : Nested (source.brackets (span.start + 1) position)) {kind : BracketKind} :
    source.bracketAt? position ≠ some (.closing kind) := by
  intro closes
  have whole : Nested (source.brackets (span.start + 1) span.stop) :=
    nested_of_balanced matched.balanced
  rw [nested_iff, brackets_append lower (Nat.le_of_lt upper), pendingAfter_append,
    level.pendingAfter, brackets_cons closes upper] at whole
  cases whole

/-- The three walks over brackets agree on what stands directly inside of two
partners, whatever the text before them is. -/
theorem walks_agree (partner : source.partner? span.start = some span.stop)
    (lower : span.start < position) (upper : position < span.stop)
    (code : source.isCode position) :
    (position ∈ source.innerPositions span ↔
      source.enclosing? position = some span.start) ∧
    (Separates (source.places span) position ↔
      source.codeAt? position = some ',' ∧
        source.enclosing? position = some span.start) := by
  have matched : Matched source span := matched_of_partner partner
  have innermost := matched.enclosing_iff lower (Nat.le_of_lt upper)
  constructor
  · rw [mem_innerPositions, matched.level_iff lower (Nat.le_of_lt upper), innermost]
    refine ⟨fun ⟨_, _, _, level, _⟩ => level, fun level =>
      ⟨lower, upper, code, level, ?_⟩⟩
    rw [Option.any_eq_false]
    intro c char
    cases side : Bracket.ofChar? c with
    | none => simp [isClosing, side]
    | some side' =>
        cases side' with
        | opening kind => simp [isClosing, side]
        | closing kind =>
            have here : source.bracketAt? position = some (.closing kind) := by
              rw [bracketAt?, codeAt_iff.mpr ⟨char, code⟩, Option.bind_some, side]
            exact absurd here (matched.not_closing lower upper level)
  · rw [places, separates_slots, matched.mem_commas_iff, innermost]
    exact ⟨fun comma => ⟨comma.code, comma.level⟩,
      fun comma => ⟨lower, upper, comma.1, comma.2⟩⟩

/-- Of two commas in an array that stands behind unbalanced brackets, only the first
is directly inside of it. -/
theorem walks_agree_behind_unbalanced :
    (ofText ")( [a, f(b, c)]").partner? 3 = some 14 ∧
      (5 ∈ (ofText ")( [a, f(b, c)]").innerPositions ⟨3, 14⟩ ∧
        Separates ((ofText ")( [a, f(b, c)]").places ⟨3, 14⟩) 5) ∧
      10 ∉ (ofText ")( [a, f(b, c)]").innerPositions ⟨3, 14⟩ ∧
        ¬Separates ((ofText ")( [a, f(b, c)]").places ⟨3, 14⟩) 10 := by
  have partner : (ofText ")( [a, f(b, c)]").partner? 3 = some 14 := by decide +kernel
  have first := @walks_agree (ofText ")( [a, f(b, c)]") ⟨3, 14⟩ 5 partner (by decide)
    (by decide) (by decide +kernel)
  have second := @walks_agree (ofText ")( [a, f(b, c)]") ⟨3, 14⟩ 10 partner (by decide)
    (by decide) (by decide +kernel)
  have outer : (ofText ")( [a, f(b, c)]").enclosing? 5 = some 3 := by decide +kernel
  have inner : (ofText ")( [a, f(b, c)]").enclosing? 10 ≠ some 3 := by decide +kernel
  exact ⟨partner, ⟨first.1.mpr outer, first.2.mpr ⟨by decide +kernel, outer⟩⟩,
    mt second.1.mp inner, fun separates => inner (second.2.mp separates).2⟩

end

end PackageLayers.Source

/-
Purpose: Brackets after a balanced fragment is inserted.
Main exports: Insertion.partner_shift, Insertion.enclosing_shift,
  Insertion.Deep, Insertion.topLevel_shift, Insertion.elements_shift
-/
import PackageLayers.Proofs.Source.Nesting

namespace PackageLayers.Source

/-!
A balanced fragment moves brackets and leaves them paired as they were.  What
stands directly inside a pair of brackets moves too, and the fragment adds
nothing to it if it lies deeper.
-/

namespace Insertion

variable (insertion : Insertion)

/-- The code of the fragment, at its place. -/
def inner : Marked :=
  Marked.moved (insertion.place + ·)
    (insertion.fragment.codeChars 0 insertion.width)

/-- Code at moved positions. -/
def moved (code : Marked) : Marked := Marked.moved insertion.shift code

theorem moved_append (left right : Marked) :
    insertion.moved (left ++ right) =
      insertion.moved left ++ insertion.moved right := List.map_append

theorem mem_moved {code : Marked} {position : Nat} {c : Char} :
    (position, c) ∈ insertion.moved code ↔
      ∃ old, (old, c) ∈ code ∧ insertion.shift old = position := by
  simp only [moved, Marked.moved, List.mem_map, Prod.mk.injEq, Prod.exists]
  constructor
  · rintro ⟨old, d, member, same, rfl⟩
    exact ⟨old, member, same⟩
  · rintro ⟨old, member, same⟩
    exact ⟨old, c, member, same, rfl⟩

theorem mem_inner {position : Nat} {c : Char} :
    (position, c) ∈ insertion.inner ↔
      ∃ index, index < insertion.width ∧
        insertion.fragment.codeAt? index = some c ∧
        insertion.place + index = position := by
  simp only [inner, Marked.moved, List.mem_map, Prod.mk.injEq, Prod.exists]
  constructor
  · rintro ⟨index, d, member, same, rfl⟩
    obtain ⟨-, bound, code⟩ := mem_codeChars.mp member
    exact ⟨index, bound, code, same⟩
  · rintro ⟨index, bound, code, same⟩
    exact ⟨index, c, mem_codeChars.mpr ⟨Nat.zero_le _, bound, code⟩, same, rfl⟩

theorem moved_ascends {code : Marked} (ascends : Marked.Ascends code) :
    Marked.Ascends (insertion.moved code) := by
  refine List.Pairwise.map _ (fun first second less => ?_) ascends
  exact insertion.shift_lt_iff.mpr less

theorem inner_ascends : Marked.Ascends insertion.inner := by
  refine List.Pairwise.map _ (fun first second less => ?_)
    (codeChars_ascends 0 insertion.width)
  exact Nat.add_lt_add_left less insertion.place

/-! ### The code of ranges -/

/-- Code before the fragment. -/
theorem codeChars_before {start stop : Nat} (before : stop ≤ insertion.place) :
    insertion.result.codeChars start stop =
      insertion.moved (insertion.source.codeChars start stop) := by
  refine (codeChars_ascends _ _).ext
    (insertion.moved_ascends (codeChars_ascends _ _)) fun position c => ?_
  rw [mem_codeChars, mem_moved]
  constructor
  · rintro ⟨lower, upper, code⟩
    have same := insertion.shift_of_lt (Nat.lt_of_lt_of_le upper before)
    rw [← same, codeAt_shift] at code
    exact ⟨position, mem_codeChars.mpr ⟨lower, upper, code⟩, same⟩
  · rintro ⟨old, member, rfl⟩
    obtain ⟨lower, upper, code⟩ := mem_codeChars.mp member
    rw [codeAt_shift, insertion.shift_of_lt (Nat.lt_of_lt_of_le upper before)]
    exact ⟨lower, upper, code⟩

/-- Code behind the fragment. -/
theorem codeChars_behind {start stop : Nat} (behind : insertion.place ≤ start) :
    insertion.result.codeChars (start + insertion.width)
        (stop + insertion.width) =
      insertion.moved (insertion.source.codeChars start stop) := by
  refine (codeChars_ascends _ _).ext
    (insertion.moved_ascends (codeChars_ascends _ _)) fun position c => ?_
  rw [mem_codeChars, mem_moved]
  constructor
  · rintro ⟨lower, upper, code⟩
    have same : insertion.shift (position - insertion.width) = position := by
      rw [insertion.shift_of_le (by omega)]
      omega
    rw [← same, codeAt_shift] at code
    exact ⟨_, mem_codeChars.mpr ⟨by omega, by omega, code⟩, same⟩
  · rintro ⟨old, member, rfl⟩
    obtain ⟨lower, upper, code⟩ := mem_codeChars.mp member
    rw [codeAt_shift, insertion.shift_of_le (by omega)]
    exact ⟨by omega, by omega, code⟩

/-- Code of the fragment. -/
theorem codeChars_inner :
    insertion.result.codeChars insertion.place
        (insertion.place + insertion.width) = insertion.inner := by
  refine (codeChars_ascends _ _).ext insertion.inner_ascends
    fun position c => ?_
  rw [mem_codeChars, mem_inner]
  constructor
  · rintro ⟨lower, upper, code⟩
    obtain ⟨index, rfl⟩ := Nat.exists_eq_add_of_le lower
    rw [insertion.codeAt_place (by omega)] at code
    exact ⟨index, by omega, code, rfl⟩
  · rintro ⟨index, bound, code, rfl⟩
    rw [insertion.codeAt_place bound]
    exact ⟨by omega, by omega, code⟩

/-- Code of a range with the fragment in it. -/
theorem codeChars_crossing {start stop : Nat} (before : start ≤ insertion.place)
    (behind : insertion.place ≤ stop) :
    insertion.result.codeChars start (insertion.shift stop) =
      insertion.moved (insertion.source.codeChars start insertion.place) ++
        (insertion.inner ++
          insertion.moved
            (insertion.source.codeChars insertion.place stop)) := by
  rw [insertion.shift_of_le behind,
    codeChars_append before (by omega : insertion.place ≤ stop + insertion.width),
    codeChars_append (by omega : insertion.place ≤
      insertion.place + insertion.width) (by omega : insertion.place +
      insertion.width ≤ stop + insertion.width),
    insertion.codeChars_before (Nat.le_refl _), insertion.codeChars_inner,
    insertion.codeChars_behind (Nat.le_refl _)]

/-- Code between moved positions, where the fragment is not. -/
theorem codeChars_apart {start stop : Nat} (order : start < stop)
    (apart : insertion.place ≤ start ∨ stop < insertion.place) :
    insertion.result.codeChars (insertion.shift start + 1)
        (insertion.shift stop) =
      insertion.moved (insertion.source.codeChars (start + 1) stop) := by
  rcases apart with behind | before
  · rw [insertion.shift_of_le behind, insertion.shift_of_le (by omega),
      Nat.add_right_comm]
    exact insertion.codeChars_behind (by omega)
  · rw [insertion.shift_of_lt before, insertion.shift_of_lt (by omega)]
    exact insertion.codeChars_before (Nat.le_of_lt before)

/-- Code between moved positions, where the fragment is. -/
theorem codeChars_around {start stop : Nat} (before : start < insertion.place)
    (behind : insertion.place ≤ stop) :
    insertion.result.codeChars (insertion.shift start + 1)
        (insertion.shift stop) =
      insertion.moved
          (insertion.source.codeChars (start + 1) insertion.place) ++
        (insertion.inner ++
          insertion.moved
            (insertion.source.codeChars insertion.place stop)) := by
  rw [insertion.shift_of_lt before]
  exact insertion.codeChars_crossing before behind

/-- The fragment is balanced. -/
def IsBalanced : Prop :=
  Balanced (Marked.chars
    (insertion.fragment.codeChars 0 insertion.width))

theorem inner_chars : Marked.chars insertion.inner =
    Marked.chars (insertion.fragment.codeChars 0 insertion.width) :=
  Marked.chars_moved _ _

/-! ### Partners -/

/-- Whether a walk for a partner cannot be over at once: something is pending, or
the walk starts at an opening bracket. -/
def Waits (pending : List BracketKind) (code : Marked) : Prop :=
  pending ≠ [] ∨ ∃ position c rest kind, code = (position, c) :: rest ∧
    Bracket.ofChar? c = some (.opening kind)

theorem closingPosition_insert {pending : List BracketKind}
    {before inserted behind : Marked}
    (balanced : Balanced (Marked.chars inserted))
    (waits : Waits pending before) :
    closingPosition? pending (before ++ (inserted ++ behind)) =
      closingPosition? pending (before ++ behind) := by
  induction before generalizing pending with
  | nil =>
      rcases waits with opened | ⟨position, c, rest, kind, none, -⟩
      · exact balanced.closingPosition rfl opened behind
      · cases none
  | cons entry before inductionHypothesis =>
      obtain ⟨position, c⟩ := entry
      simp only [List.cons_append]
      cases bracket : Bracket.ofChar? c with
      | none =>
          simp only [closingPosition?, bracket]
          refine inductionHypothesis (Or.inl ?_)
          rcases waits with opened | ⟨place, d, rest, kind, same, opens⟩
          · exact opened
          · cases same
            rw [bracket] at opens
            cases opens
      | some side =>
          cases side with
          | opening kind =>
              simp only [closingPosition?, bracket]
              exact inductionHypothesis (Or.inl (List.cons_ne_nil _ _))
          | closing kind =>
              cases pending with
              | nil => simp only [closingPosition?, bracket]
              | cons innermost outer =>
                  simp only [closingPosition?, bracket]
                  split
                  · cases outer with
                    | nil => rfl
                    | cons =>
                        exact inductionHypothesis
                          (Or.inl (List.cons_ne_nil _ _))
                  · rfl

variable {insertion}

/-- Partners move. -/
theorem partner_shift (balanced : insertion.IsBalanced) (start : Nat) :
    insertion.result.partner? (insertion.shift start) =
      (insertion.source.partner? start).map insertion.shift := by
  unfold partner?
  rw [codeAt_shift]
  split
  · rename_i kind opens
    obtain ⟨c, code, opens⟩ := Option.bind_eq_some_iff.mp opens
    have inside := lt_size_of_codeAt code
    rw [← closingPosition_moved, ← moved, insertion.result_size]
    by_cases before : start < insertion.place
    · rw [insertion.shift_of_lt before,
        ← insertion.shift_of_le (Nat.le_of_lt insertion.inside),
        insertion.codeChars_crossing (Nat.le_of_lt before)
          (Nat.le_of_lt insertion.inside)]
      rw [closingPosition_insert (by rwa [inner_chars]) ?_, ← moved_append,
        ← codeChars_append (Nat.le_of_lt before) (Nat.le_of_lt insertion.inside)]
      refine Or.inr ⟨insertion.shift start, c,
        insertion.moved (insertion.source.codeChars (start + 1) insertion.place),
        kind, ?_, opens⟩
      rw [codeChars_cons before code]
      rfl
    · rw [insertion.shift_of_le (by omega), insertion.codeChars_behind (by omega)]
  · rfl

/-- Pairs of brackets move. -/
theorem matched_shift (balanced : insertion.IsBalanced) {span : Span}
    (matched : Matched insertion.source span) :
    Matched insertion.result (insertion.pair span) := by
  have partner := insertion.partner_shift balanced span.start
  rw [partner_of_matched matched] at partner
  exact matched_of_partner partner

/-- The brackets around a place move. -/
theorem enclosing_shift (balanced : insertion.IsBalanced) (position : Nat) :
    insertion.result.enclosing? (insertion.shift position) =
      (insertion.source.enclosing? position).map insertion.shift := by
  unfold enclosing?
  have start : openBefore [] (insertion.moved
      (insertion.source.codeChars 0 position)) =
        (openBefore [] (insertion.source.codeChars 0 position)).map
          insertion.shift := openBefore_moved insertion.shift [] _
  by_cases before : position < insertion.place
  · rw [insertion.shift_of_lt before,
      insertion.codeChars_before (Nat.le_of_lt before), start, List.head?_map]
  · have skip (pending : List Nat) :
        openBefore pending insertion.inner = pending :=
      Balanced.openBefore balanced insertion.inner_chars.symm pending
    rw [insertion.codeChars_crossing (Nat.zero_le _) (by omega),
      openBefore_append, openBefore_append, skip, ← openBefore_append,
      ← moved_append, ← codeChars_append (Nat.zero_le _) (by omega), start,
      List.head?_map]

/-! ### Directly inside of brackets -/

variable (insertion)

/-- The number of brackets inside a pair of them that are open at the place of
the fragment. -/
def depth (span : Span) : Nat :=
  depthThrough 0 (Marked.chars
    (insertion.source.codeChars (span.start + 1) insertion.place))

/-- The fragment does not lie directly inside a pair of brackets. -/
def Deep (span : Span) : Prop :=
  insertion.place ≤ span.start ∨ span.stop < insertion.place ∨
    0 < insertion.depth span

variable {insertion}

/-- What stands directly inside a pair of brackets, with the fragment in it. -/
theorem topLevel_around {span : Span} (before : span.start < insertion.place)
    (behind : insertion.place ≤ span.stop)
    (balanced : insertion.IsBalanced) :
    ∃ early late, insertion.source.topLevel span = early ++ late ∧
      early = depthZero 0
        (insertion.source.codeChars (span.start + 1) insertion.place) ∧
      insertion.result.topLevel (insertion.pair span) =
        early.map insertion.shift ++
          (depthZero (insertion.depth span) insertion.inner ++
            late.map insertion.shift) := by
  refine ⟨_, depthZero (insertion.depth span)
    (insertion.source.codeChars insertion.place span.stop), ?_, rfl, ?_⟩
  · rw [topLevel, codeChars_append before behind, depthZero_append]
    rfl
  · simp only [topLevel, pair]
    rw [insertion.codeChars_around before behind, depthZero_append,
      depthZero_append, moved, moved, Marked.chars_moved, depthZero_moved,
      depthZero_moved, inner_chars, balanced.depth]
    rfl

/-- What stands directly inside a pair of brackets moves if the fragment lies
deeper. -/
theorem topLevel_shift {span : Span} (order : span.start < span.stop)
    (balanced : insertion.IsBalanced) (deep : insertion.Deep span) :
    insertion.result.topLevel (insertion.pair span) =
      (insertion.source.topLevel span).map insertion.shift := by
  by_cases around : span.start < insertion.place ∧ insertion.place ≤ span.stop
  · obtain ⟨early, late, whole, -, wider⟩ :=
      topLevel_around around.1 around.2 balanced
    have inside : 0 < insertion.depth span := by
      rcases deep with behind | before | inside
      · omega
      · omega
      · exact inside
    rw [wider, whole, Balanced.depthZero balanced insertion.inner_chars.symm
      inside, List.nil_append, List.map_append]
  · simp only [topLevel, pair]
    rw [insertion.codeChars_apart order (by omega), moved, depthZero_moved]

/-- The commas directly inside a pair of brackets, with the fragment in it. -/
theorem commas_around {span : Span} (before : span.start < insertion.place)
    (behind : insertion.place ≤ span.stop)
    (balanced : insertion.IsBalanced) :
    commas 0 (insertion.source.codeChars (span.start + 1) span.stop) =
        commas 0
          (insertion.source.codeChars (span.start + 1) insertion.place) ++
        commas (insertion.depth span)
          (insertion.source.codeChars insertion.place span.stop) ∧
      commas 0 (insertion.result.codeChars (insertion.shift span.start + 1)
          (insertion.shift span.stop)) =
        (commas 0 (insertion.source.codeChars (span.start + 1)
            insertion.place)).map insertion.shift ++
          (commas (insertion.depth span) insertion.inner ++
            (commas (insertion.depth span) (insertion.source.codeChars
              insertion.place span.stop)).map insertion.shift) := by
  constructor
  · rw [codeChars_append before behind, commas_append]
    rfl
  · rw [insertion.codeChars_around before behind, commas_append,
      commas_append, moved, moved, Marked.chars_moved, commas_moved,
      commas_moved, inner_chars, balanced.depth]
    rfl

variable (insertion) in
/-- The fragment is no part of what stands directly inside a pair of brackets: it
lies deeper, or nothing of it counts. -/
def Spares (span : Span) : Prop := insertion.Deep span ∨ insertion.IsHidden

/-- Code that does not count is white space. -/
theorem IsHidden.isSpace (hidden : insertion.IsHidden) {position : Nat} {c : Char}
    (member : (position, c) ∈ insertion.inner) : isSpace c := by
  obtain ⟨index, inner, code, -⟩ := insertion.mem_inner.mp member
  have clear := hidden index inner
  rw [codeAt?, Option.bind_eq_some_iff] at code
  obtain ⟨cell, here, code⟩ := code
  split at code
  · rename_i plain
    rw [isSignificant, here, Option.any_some, plain, code] at clear
    simpa using clear
  · cases code

theorem commas_of_spaces {depth : Nat} {code : Marked}
    (spaces : ∀ position c, (position, c) ∈ code → isSpace c) :
    commas depth code = [] := by
  induction code generalizing depth with
  | nil => rfl
  | cons entry code inductionHypothesis =>
      obtain ⟨position, c⟩ := entry
      have space := spaces position c List.mem_cons_self
      have plain : ¬(depth = 0 ∧ c = ',') := by
        rintro ⟨-, rfl⟩
        cases space
      rw [commas, if_neg plain]
      exact inductionHypothesis fun position c member =>
        spaces position c (List.mem_cons_of_mem _ member)

/-- The commas directly inside a pair of brackets move if the fragment is no part
of what stands there. -/
theorem commas_shift {span : Span} (order : span.start < span.stop)
    (balanced : insertion.IsBalanced) (spares : insertion.Spares span) :
    commas 0 (insertion.result.codeChars (insertion.shift span.start + 1)
        (insertion.shift span.stop)) =
      (commas 0 (insertion.source.codeChars (span.start + 1) span.stop)).map
        insertion.shift := by
  by_cases around : span.start < insertion.place ∧ insertion.place ≤ span.stop
  · obtain ⟨whole, wider⟩ := commas_around around.1 around.2 balanced
    have none : commas (insertion.depth span) insertion.inner = [] := by
      rcases spares with deep | hidden
      · refine Balanced.commas balanced insertion.inner_chars.symm ?_
        rcases deep with behind | before | inside
        · omega
        · omega
        · exact inside
      · exact commas_of_spaces fun _ _ member => hidden.isSpace member
    rw [wider, whole, none, List.nil_append, List.map_append]
  · rw [insertion.codeChars_apart order (by omega), moved, commas_moved]

/-! ### Elements -/

/-- A range between two positions does not have the fragment at either of its
ends, as far as it counts. -/
def Passes (insertion : Insertion) (start stop : Nat) : Prop :=
  insertion.IsHidden ∨ insertion.place ≤ start ∨ stop < insertion.place ∨
    (∃ other, start < other ∧ other < stop ∧ other < insertion.place ∧
      insertion.source.isSignificant other) ∧
    ∃ other, insertion.place ≤ other ∧ other < stop ∧
      insertion.source.isSignificant other

/-- What is between two positions moves as a whole. -/
theorem trimmed_shift {start stop : Nat} (passes : insertion.Passes start stop) :
    insertion.result.trimmed? ⟨insertion.shift start + 1, insertion.shift stop⟩ =
      (insertion.source.trimmed? ⟨start + 1, stop⟩).map insertion.range := by
  have ahead := @Insertion.next_shift insertion start stop
      (passes.imp id (Or.imp id (Or.imp id And.left)))
  simp only [trimmed?, Option.bind_eq_bind, ahead]
  cases found : insertion.source.nextSignificant? (start + 1) stop with
  | none => rfl
  | some first =>
      obtain ⟨lower, upper, holds, -⟩ := next_eq_some_iff.mp found
      have back := @Insertion.last_shift insertion first stop (by
        rcases passes with hidden | behind | before | ⟨-, other⟩
        · exact Or.inl hidden
        · exact Or.inr (Or.inl (by omega))
        · exact Or.inr (Or.inr (Or.inl before))
        · exact Or.inr (Or.inr (Or.inr other)))
      simp only [Option.map_some, Option.bind_some, back]
      cases insertion.source.lastSignificant? first stop with
      | none => rfl
      | some last => rfl

theorem slots_shift {start stop : Nat} {cuts : List Nat}
    (passes : List.IsChain insertion.Passes (start :: (cuts ++ [stop]))) :
    (slots (insertion.shift start + 1) (insertion.shift stop)
        (cuts.map insertion.shift)).filterMap insertion.result.trimmed? =
      ((slots (start + 1) stop cuts).filterMap
        insertion.source.trimmed?).map insertion.range := by
  induction cuts generalizing start with
  | nil =>
      rw [List.nil_append, List.isChain_cons_cons] at passes
      simp only [slots, List.map_nil, List.filterMap_cons, List.filterMap_nil,
        trimmed_shift passes.1]
      cases insertion.source.trimmed? ⟨start + 1, stop⟩ <;> rfl
  | cons cut cuts inductionHypothesis =>
      rw [List.cons_append, List.isChain_cons_cons] at passes
      simp only [slots, List.map_cons, List.filterMap_cons,
        trimmed_shift passes.1, inductionHypothesis passes.2]
      cases insertion.source.trimmed? ⟨start + 1, cut⟩ <;> rfl

end Insertion

/-! ### Depth along a text -/

theorem depthThrough_le {depth : Nat} {chars : List Char}
    (closed : ∀ c ∈ chars, ∀ kind, Bracket.ofChar? c ≠ some (.opening kind)) :
    depthThrough depth chars ≤ depth := by
  induction chars generalizing depth with
  | nil => exact Nat.le_refl _
  | cons c chars inductionHypothesis =>
      rw [depthThrough, List.foldl_cons, ← depthThrough]
      refine Nat.le_trans (inductionHypothesis fun d member =>
        closed d (by simp [member])) ?_
      cases bracket : Bracket.ofChar? c with
      | none => rw [depthAfter_plain bracket]
      | some side =>
          cases side with
          | opening kind => exact absurd bracket (closed c (by simp) kind)
          | closing kind =>
              rw [depthAfter_closing bracket]
              exact Nat.sub_le _ _

theorem le_depthThrough {depth : Nat} {chars : List Char}
    (opened : ∀ c ∈ chars, ∀ kind, Bracket.ofChar? c ≠ some (.closing kind)) :
    depth ≤ depthThrough depth chars := by
  induction chars generalizing depth with
  | nil => exact Nat.le_refl _
  | cons c chars inductionHypothesis =>
      rw [depthThrough, List.foldl_cons, ← depthThrough]
      refine Nat.le_trans ?_ (inductionHypothesis fun d member =>
        opened d (by simp [member]))
      cases bracket : Bracket.ofChar? c with
      | none => rw [depthAfter_plain bracket]
      | some side =>
          cases side with
          | opening kind =>
              rw [depthAfter_opening bracket]
              exact Nat.le_succ _
          | closing kind => exact absurd bracket (opened c (by simp) kind)

/-- Brackets are no separators. -/
theorem isSpace_of_bracket {c : Char} {side : Bracket}
    (bracket : Bracket.ofChar? c = some side) : isSpace c = false := by
  unfold Bracket.ofChar? at bracket
  repeat' split at bracket
  all_goals first
    | (rename_i same; rw [same]; rfl)
    | cases bracket

theorem isSignificant_of_codeAt {source : Source} {position : Nat} {c : Char}
    (code : source.codeAt? position = some c) (visible : isSpace c = false) :
    source.isSignificant position := by
  have here := codeAt_eq_some code
  simp [isSignificant, here, visible]

/-- A fragment of which nothing counts has no brackets. -/
theorem Insertion.IsHidden.isBalanced {insertion : Insertion}
    (hidden : insertion.IsHidden) : insertion.IsBalanced := by
  rw [Insertion.IsBalanced, ← insertion.inner_chars]
  refine Balanced.of_plain fun c member => ?_
  obtain ⟨⟨position, d⟩, entry, rfl⟩ := List.mem_map.mp member
  have space := hidden.isSpace entry
  cases bracket : Bracket.ofChar? d with
  | none => rfl
  | some side =>
      rw [isSpace_of_bracket bracket] at space
      cases space

/-- Where the depth rises, a bracket opens. -/
theorem exists_opening {source : Source} {start stop depth : Nat}
    (rises : depth < depthThrough depth
      (Marked.chars (source.codeChars start stop))) :
    ∃ position, start ≤ position ∧ position < stop ∧
      source.isSignificant position ∧
      ∃ c kind, source.codeAt? position = some c ∧
        Bracket.ofChar? c = some (.opening kind) := by
  by_contra none
  refine Nat.not_le_of_lt rises (depthThrough_le fun c member kind opens => ?_)
  obtain ⟨⟨position, d⟩, entry, rfl⟩ := List.mem_map.mp member
  obtain ⟨lower, upper, code⟩ := mem_codeChars.mp entry
  exact none ⟨position, lower, upper,
    isSignificant_of_codeAt code (isSpace_of_bracket opens), d, kind, code, opens⟩

/-- Where the depth falls, a bracket closes. -/
theorem exists_closing {source : Source} {start stop depth : Nat}
    (falls : depthThrough depth (Marked.chars (source.codeChars start stop)) <
      depth) :
    ∃ position, start ≤ position ∧ position < stop ∧
      source.isSignificant position := by
  by_contra none
  refine Nat.not_le_of_lt falls (le_depthThrough fun c member kind closes => ?_)
  obtain ⟨⟨position, d⟩, entry, rfl⟩ := List.mem_map.mp member
  obtain ⟨lower, upper, code⟩ := mem_codeChars.mp entry
  exact none ⟨position, lower, upper,
    isSignificant_of_codeAt code (isSpace_of_bracket closes)⟩

/-- The commas at depth zero. -/
theorem mem_commas {depth position : Nat} {code : Marked}
    (member : position ∈ commas depth code) :
    ∃ before rest, code = before ++ (position, ',') :: rest ∧
      depthThrough depth (Marked.chars before) = 0 := by
  induction code generalizing depth with
  | nil => cases member
  | cons entry code inductionHypothesis =>
      obtain ⟨place, c⟩ := entry
      simp only [commas] at member
      have later (found : position ∈ commas (depthAfter depth c) code) :
          ∃ before rest, (place, c) :: code = before ++ (position, ',') :: rest ∧
            depthThrough depth (Marked.chars before) = 0 := by
        obtain ⟨before, rest, rfl, level⟩ := inductionHypothesis found
        exact ⟨(place, c) :: before, rest, rfl, level⟩
      split at member
      · rename_i comma
        rcases List.mem_cons.mp member with rfl | found
        · refine ⟨[], code, ?_, comma.1⟩
          rw [comma.2]
          rfl
        · exact later found
      · exact later member

/-- A comma directly inside of brackets. -/
theorem comma_level {source : Source} {start stop position : Nat}
    (member : position ∈ commas 0 (source.codeChars start stop)) :
    start ≤ position ∧ position < stop ∧
      source.codeAt? position = some ',' ∧
      depthThrough 0 (Marked.chars (source.codeChars start position)) = 0 := by
  obtain ⟨before, rest, split, level⟩ := mem_commas member
  have here : (position, ',') ∈ source.codeChars start stop := by
    rw [split]
    simp
  rw [(codeChars_split split).1] at level
  obtain ⟨lower, upper, code⟩ := mem_codeChars.mp here
  exact ⟨lower, upper, code, level⟩

theorem commas_ascend (depth : Nat) {code : Marked}
    (ascends : Marked.Ascends code) : (commas depth code).Pairwise (· < ·) := by
  induction code generalizing depth with
  | nil => exact List.Pairwise.nil
  | cons entry code inductionHypothesis =>
      obtain ⟨above, ascends⟩ := List.pairwise_cons.mp ascends
      simp only [commas]
      split
      · refine List.pairwise_cons.mpr ⟨fun position member => ?_,
          inductionHypothesis _ ascends⟩
        obtain ⟨before, rest, rfl, -⟩ := mem_commas member
        exact above (position, ',') (by simp)
      · exact inductionHypothesis _ ascends

/-- A slot of an array lies behind a bracket or a comma of it. -/
theorem mem_slots {start stop : Nat} {cuts : List Nat} {slot : Span}
    (member : slot ∈ slots (start + 1) stop cuts) :
    ∃ left ∈ start :: (cuts ++ [stop]), ∃ right ∈ start :: (cuts ++ [stop]),
      slot = ⟨left + 1, right⟩ := by
  induction cuts generalizing start with
  | nil =>
      rw [slots, List.mem_singleton] at member
      exact ⟨start, by simp, stop, by simp, member⟩
  | cons cut cuts inductionHypothesis =>
      rw [slots, List.mem_cons] at member
      rcases member with rfl | later
      · exact ⟨start, by simp, cut, by simp, rfl⟩
      · obtain ⟨left, here, right, there, same⟩ := inductionHypothesis later
        exact ⟨left, List.mem_cons_of_mem _ here, right,
          List.mem_cons_of_mem _ there, same⟩

namespace Insertion

variable {insertion : Insertion}

/-- Whether a position is directly inside a pair of brackets, or one of them. -/
def IsLevel (source : Source) (span : Span) (position : Nat) : Prop :=
  span.start ≤ position ∧ position ≤ span.stop ∧
    depthThrough 0
      (Marked.chars (source.codeChars (span.start + 1) position)) = 0 ∧
    (position = span.start ∨ position = span.stop ∨
      source.codeAt? position = some ',')

/-- Between a position directly inside of brackets and a deeper place a bracket
opens. -/
theorem opening_of_level {span : Span} {left : Nat}
    (deep : insertion.Deep span)
    (level : IsLevel insertion.source span left) (before : left < insertion.place)
    (behind : insertion.place ≤ span.stop) :
    ∃ position, left < position ∧ position < insertion.place ∧
      insertion.source.isSignificant position ∧
      ∃ c kind, insertion.source.codeAt? position = some c ∧
        Bracket.ofChar? c = some (.opening kind) := by
  have inside : 0 < insertion.depth span := by
    rcases deep with early | late | inside
    · have lower := level.1
      omega
    · omega
    · exact inside
  have rises : 0 < depthThrough 0 (Marked.chars
      (insertion.source.codeChars (left + 1) insertion.place)) := by
    obtain ⟨lower, -, flat, kinds⟩ := level
    rcases kinds with same | last | comma
    · rw [same]
      exact inside
    · omega
    · by_cases same : left = span.start
      · rw [same]
        exact inside
      · rw [depth, codeChars_append (by omega : span.start + 1 ≤ left)
          (Nat.le_of_lt before), Marked.chars_append, depthThrough_append, flat,
          codeChars_cons before comma] at inside
        exact inside
  obtain ⟨position, lower, upper, significant, code⟩ := exists_opening rises
  exact ⟨position, lower, upper, significant, code⟩

/-- Between two positions of one depth a deeper place has brackets on both
sides. -/
theorem passes_of_level {span : Span} {left right : Nat}
    (deep : insertion.Deep span)
    (first : IsLevel insertion.source span left)
    (second : IsLevel insertion.source span right) :
    insertion.Passes left right := by
  by_cases around : left < insertion.place ∧ insertion.place ≤ right
  · have inside : 0 < insertion.depth span := by
      rcases deep with behind | before | inside
      · have lower := first.1
        omega
      · have upper := second.2.1
        omega
      · exact inside
    refine Or.inr (Or.inr (Or.inr ⟨?_, ?_⟩))
    · obtain ⟨position, lower, upper, significant, -⟩ :=
        opening_of_level deep first around.1 (by have := second.2.1; omega)
      exact ⟨position, lower, by omega, upper, significant⟩
    · have falls : depthThrough (insertion.depth span) (Marked.chars
          (insertion.source.codeChars insertion.place right)) <
            insertion.depth span := by
        have lower := first.1
        have level := second.2.2.1
        rw [codeChars_append (by omega : span.start + 1 ≤ insertion.place)
          around.2, Marked.chars_append, depthThrough_append, ← depth] at level
        rw [level]
        exact inside
      obtain ⟨position, lower, upper, significant⟩ := exists_closing falls
      exact ⟨position, lower, upper, significant⟩
  · rw [not_and_or] at around
    rcases around with behind | before
    · exact Or.inr (Or.inl (by omega))
    · exact Or.inr (Or.inr (Or.inl (by omega)))

/-- The bracket before, the commas directly inside of and the bracket behind an
array. -/
def cutsOf (source : Source) (span : Span) : List Nat :=
  span.start :: (commas 0 (source.codeChars (span.start + 1) span.stop) ++
    [span.stop])

theorem isLevel_of_cut {source : Source} {span : Span}
    (matched : Matched source span) {position : Nat}
    (member : position ∈ cutsOf source span) : IsLevel source span position := by
  have order := matched.order
  rw [cutsOf, List.mem_cons, List.mem_append, List.mem_singleton] at member
  rcases member with rfl | comma | rfl
  · refine ⟨Nat.le_refl _, Nat.le_of_lt order, ?_, Or.inl rfl⟩
    rw [codeChars_of_le (Nat.le_succ _)]
    rfl
  · obtain ⟨lower, upper, code, level⟩ := comma_level comma
    exact ⟨by omega, by omega, level, Or.inr (Or.inr code)⟩
  · exact ⟨Nat.le_of_lt order, Nat.le_refl _, matched.balanced.depth 0,
      Or.inr (Or.inl rfl)⟩

theorem cutsOf_ascend {source : Source} {span : Span}
    (order : span.start < span.stop) :
    (cutsOf source span).Pairwise (· < ·) := by
  refine List.pairwise_cons.mpr ⟨fun position member => ?_,
    List.pairwise_append.mpr ⟨commas_ascend 0 (codeChars_ascends _ _),
      List.pairwise_singleton _ _, fun position member last same => ?_⟩⟩
  · rw [List.mem_append, List.mem_singleton] at member
    rcases member with comma | rfl
    · have bound := (comma_level comma).1
      omega
    · exact order
  · have bound := (comma_level member).2.1
    rw [List.mem_singleton] at same
    omega

/-- The elements of an array move if the fragment is no part of it. -/
theorem elements_shift {span : Span} (matched : Matched insertion.source span)
    (balanced : insertion.IsBalanced) (spares : insertion.Spares span) :
    insertion.result.elements (insertion.pair span) =
      (insertion.source.elements span).map insertion.range := by
  have order := matched.order
  have passes := (List.Pairwise.imp_of_mem (S := insertion.Passes)
    (fun first second _ => spares.elim
      (fun deep => passes_of_level deep (isLevel_of_cut matched first)
        (isLevel_of_cut matched second)) Or.inl) (cutsOf_ascend order)).isChain
  rw [elements, elements, ← slots_shift passes,
    ← commas_shift order balanced spares]
  rfl

end Insertion

end PackageLayers.Source

/-
Purpose: What is before a bracket, before and after an insertion.
Main exports: wordBefore_eq_some, wordBefore_shift, isTargetsContainer_shift
-/
import PackageLayers.Proofs.Manifest.Arguments

namespace PackageLayers.Manifest

open Source (Span Insertion Regular asksBack answersBack isMark isNameChar)

/-!
Whether targets stand in a bracket is read off the words before it, from right to
left.  Every step of this looks back from a character of code to the one before
it that counts, and such a step does not cross the place of a fragment with
another result than before.
-/

section

variable {source : Source}

/-- What is last before code is code unless it is a mark. -/
theorem code_before (regular : Regular source) {start position last : Nat}
    {c d : Char} (code : source.codeAt? position = some c)
    (found : source.lastSignificant? start position = some last)
    (char : source.charAt? last = some d) (plain : isMark d = false) :
    source.codeAt? last = some d := by
  obtain ⟨-, upper, significant, clear⟩ := Source.last_eq_some_iff.mp found
  obtain ⟨cls, here⟩ := Source.cell_of_charAt char
  by_contra other
  have away := Source.cell_of_codeAt_none here other
  cases cls with
  | code => exact away rfl
  | comment => simp [Source.isSignificant, here] at significant
  | literal =>
      have inside (gap : Nat) (short : last + gap < position) :
          ∃ char?, source.cells[last + gap]? = some ⟨char?, .literal⟩ := by
        induction gap with
        | zero => exact ⟨_, here⟩
        | succ gap inductionHypothesis =>
            obtain ⟨char?, before⟩ := inductionHypothesis (by omega)
            have bound := Source.lt_size_of_codeAt code
            have next := Array.getElem?_eq_getElem
              (by rw [Source.size] at bound; omega :
                last + gap + 1 < source.cells.size)
            by_contra outside
            obtain ⟨e, same, mark⟩ := regular.leaveLiteral _ _ _ before next rfl
              fun literal => outside
                ⟨_, by rw [← Nat.add_assoc, next, ← literal]⟩
            cases same
            rcases Nat.eq_zero_or_pos gap with rfl | positive
            · rw [Nat.add_zero, here] at before
              cases before
              rw [mark] at plain
              cases plain
            · have none := clear (last + gap) (by omega) (by omega)
              simp only [isMark, Bool.or_eq_true, decide_eq_true_eq] at mark
              rcases mark with rfl | rfl <;>
                simp [Source.isSignificant, before, Source.isSpace] at none
      obtain ⟨gap, rfl⟩ := Nat.exists_eq_add_of_lt upper
      obtain ⟨char?, before⟩ := inside gap (by omega)
      obtain ⟨e, same, mark⟩ := regular.leaveLiteral _ _ _ before
        (Source.codeAt_eq_some code) rfl (by simp)
      cases same
      rcases Nat.eq_zero_or_pos gap with rfl | positive
      · rw [Nat.add_zero, here] at before
        cases before
        rw [mark] at plain
        cases plain
      · have none := clear (last + gap) (by omega) (by omega)
        simp only [isMark, Bool.or_eq_true, decide_eq_true_eq] at mark
        rcases mark with rfl | rfl <;>
          simp [Source.isSignificant, before, Source.isSpace] at none

/-- A name ends with the last position before another one that counts. -/
structure WordEnds (source : Source) (stop start last : Nat) : Prop where
  found : source.lastSignificant? 0 stop = some last
  order : start ≤ last
  names : ∀ position, start ≤ position → position ≤ last →
    source.isNameAt position
  starts : start = 0 ∨ source.isNameAt (start - 1) = false

/-- The start of the name that ends with a position. -/
def nameStart (source : Source) (last : Nat) : Nat :=
  ((Source.positions 0 (last + 1)).reverse.find? fun position =>
    !source.isNameAt position).elim 0 (· + 1)

theorem wordBefore_eq {stop : Nat} : wordBefore? source stop =
    (source.lastSignificant? 0 stop).bind fun last =>
      if nameStart source last ≤ last then
        some (nameStart source last,
          source.slice (nameStart source last) (last + 1))
      else none := by
  unfold wordBefore? nameStart
  cases source.lastSignificant? 0 stop with
  | none => rfl
  | some last =>
      simp only [Option.bind_eq_bind, Option.bind_some]
      cases (Source.positions 0 (last + 1)).reverse.find? fun position =>
        !source.isNameAt position <;> rfl

theorem nameStart_eq_iff {start last : Nat} (order : start ≤ last) :
    nameStart source last = start ↔
      (∀ position, start ≤ position → position ≤ last →
        source.isNameAt position) ∧
      (start = 0 ∨ source.isNameAt (start - 1) = false) := by
  unfold nameStart
  cases here : (Source.positions 0 (last + 1)).reverse.find? fun position =>
      !source.isNameAt position with
  | none =>
      rw [List.find?_eq_none] at here
      have all (position : Nat) (upper : position ≤ last) :
          source.isNameAt position := by
        simpa using here position (by
          rw [List.mem_reverse, Source.mem_positions]
          omega)
      constructor
      · rintro rfl
        exact ⟨fun position _ upper => all position upper, Or.inl rfl⟩
      · rintro ⟨-, rfl | boundary⟩
        · rfl
        · rw [all (start - 1) (by omega)] at boundary
          cases boundary
  | some before =>
      obtain ⟨-, upper, stops, clear⟩ := Source.find_positions_reverse.mp here
      have all (position : Nat) (lower : before < position)
          (upper : position ≤ last) : source.isNameAt position := by
        simpa using clear position lower (by omega)
      constructor
      · rintro rfl
        exact ⟨fun position lower upper => all position lower upper,
          Or.inr (by simpa using stops)⟩
      · rintro ⟨names, starts⟩
        have late : before < start := by
          by_contra early
          rw [names before (by omega) (by omega)] at stops
          cases stops
        rcases starts with rfl | boundary
        · cases late
        · by_contra other
          rw [all (start - 1) (by simp only [Option.elim] at other; omega)
            (by omega)] at boundary
          cases boundary

theorem wordBefore_eq_some {stop start : Nat} {word : String} :
    wordBefore? source stop = some (start, word) ↔
      ∃ last, WordEnds source stop start last ∧
        word = source.slice start (last + 1) := by
  rw [wordBefore_eq, Option.bind_eq_some_iff]
  constructor
  · rintro ⟨last, found, here⟩
    split at here
    · rename_i order
      cases here
      obtain ⟨names, starts⟩ := (nameStart_eq_iff order).mp rfl
      exact ⟨last, ⟨found, order, names, starts⟩, rfl⟩
    · cases here
  · rintro ⟨last, ends, rfl⟩
    have same := (nameStart_eq_iff ends.order).mpr ⟨ends.names, ends.starts⟩
    exact ⟨last, ends.found, by rw [same, if_pos ends.order]⟩

/-- A name before code is code. -/
theorem WordEnds.code (regular : Regular source) {stop start last : Nat}
    {c : Char} (code : source.codeAt? stop = some c)
    (ends : WordEnds source stop start last) {position : Nat}
    (lower : start ≤ position) (upper : position ≤ last) :
    ∃ d, source.codeAt? position = some d ∧ isNameChar d := by
  obtain ⟨gap, rfl⟩ := Nat.exists_eq_add_of_le upper
  clear upper
  induction gap generalizing position with
  | zero =>
      obtain ⟨d, char, name⟩ := Source.isNameAt_iff.mp
        (ends.names _ ends.order (Nat.le_refl _))
      refine ⟨d, code_before regular code ends.found char ?_, name⟩
      cases mark : isMark d with
      | false => rfl
      | true =>
          have edge := Source.not_isEdge_of_isNameChar name
          rw [Source.isEdge_of_isMark mark] at edge
          cases edge
  | succ gap inductionHypothesis =>
      have shuffle : position + (gap + 1) = position + 1 + gap := by omega
      rw [shuffle] at ends
      obtain ⟨e, later, name'⟩ := inductionHypothesis (by omega) ends
      obtain ⟨d, char, name⟩ := Source.isNameAt_iff.mp
        (ends.names position lower (by omega))
      refine ⟨d, regular.code_behind later char
        (Source.not_isEdge_of_isNameChar name) ?_, name⟩
      rintro rfl
      cases name'

/-- The first character of a slice. -/
theorem slice_head {start stop : Nat} {c : Char} (order : start < stop)
    (char : source.charAt? start = some c) :
    (source.slice start stop).toList.head? = some c := by
  obtain ⟨cls, here⟩ := Source.cell_of_charAt char
  obtain ⟨length, rfl⟩ := Nat.exists_eq_add_of_lt order
  have inside := (Array.getElem?_eq_some_iff.mp here).1
  have first : (source.cells.extract start (start + length + 1)).toList[0]? =
      some ⟨some c, cls⟩ := by
    rw [Array.getElem?_toList, Array.getElem?_extract, if_pos (by omega)]
    exact here
  rw [Source.slice, String.toList_ofList]
  cases cells : (source.cells.extract start (start + length + 1)).toList with
  | nil =>
      rw [cells] at first
      cases first
  | cons head tail =>
      rw [cells] at first
      cases first
      rfl

end

/-! ### Containers move -/

section

variable {insertion : Insertion}

/-- What is found before code that asks for it is what was found, or is no answer
with the fragment as it was none without it. -/
theorem last_asked (seam : insertion.Seam) {position : Nat} {c : Char}
    (code : insertion.source.codeAt? position = some c) (asks : asksBack c) :
    insertion.result.lastSignificant? 0 (insertion.shift position) =
        (insertion.source.lastSignificant? 0 position).map insertion.shift ∨
      (∃ last, insertion.result.lastSignificant? 0 (insertion.shift position) =
          some last ∧
        ∀ d, insertion.result.charAt? last = some d → !answersBack d) ∧
      ∀ last, insertion.source.lastSignificant? 0 position = some last →
        ∀ d, insertion.source.charAt? last = some d → !answersBack d := by
  rcases seam.meets with hidden | meets
  · have moved := @Insertion.last_shift insertion 0 position (Or.inl hidden)
    rw [insertion.shift_zero] at moved
    exact Or.inl moved
  by_cases crossing : insertion.place ≤ position ∧
      ∀ other, insertion.place ≤ other → other < position →
        insertion.source.isSignificant other = false
  · obtain ⟨behind, clear⟩ := crossing
    obtain ⟨answer, inert⟩ := meets.back position c behind code asks clear
    obtain ⟨-, final, -, found⟩ := meets.filled
    have bound : final < insertion.width := (Source.last_eq_some_iff.mp found).2.1
    have crossed := insertion.last_crossing insertion.positive behind clear found
    rw [insertion.shift_zero] at crossed
    refine Or.inr ⟨⟨_, crossed, fun d char => ?_⟩, fun last here d char => ?_⟩
    · rw [insertion.charAt_place bound] at char
      exact inert final found d char
    · obtain ⟨lower, upper, significant, later⟩ :=
        Source.last_eq_some_iff.mp here
      have early : last < insertion.place := by
        by_contra late
        rw [clear last (by omega) upper] at significant
        cases significant
      refine answer last (Source.last_eq_some_iff.mpr
        ⟨lower, early, significant, fun other above below => ?_⟩) d char
      exact later other above (by omega)
  · left
    have moved := @Insertion.last_shift insertion 0 position (by
      by_cases behind : insertion.place ≤ position
      · right
        right
        right
        by_contra none
        refine crossing ⟨behind, fun other above below => ?_⟩
        cases significant : insertion.source.isSignificant other with
        | false => rfl
        | true => exact absurd ⟨other, above, below, significant⟩ none
      · exact Or.inr (Or.inr (Or.inl (by omega))))
    rwa [insertion.shift_zero] at moved

theorem answersBack_of_isNameChar {c : Char} (name : isNameChar c) :
    answersBack c := by
  simp [answersBack, name]

/-- The positions of a name do not have the place between them. -/
theorem apart_of_names (seam : insertion.Seam) {start last : Nat}
    (names : ∀ position, start ≤ position → position ≤ last →
      insertion.source.isNameAt position) :
    last < insertion.place ∨ insertion.place ≤ start := by
  by_contra across
  obtain ⟨before, same⟩ : ∃ before, insertion.place = before + 1 :=
    ⟨insertion.place - 1, by have := insertion.positive; omega⟩
  refine seam.whole (same ▸ Insertion.Seam.joinsAt_of_names
    (names before (by omega) (by omega)) (names (before + 1) (by omega) (by omega)))

/-- A name ends where it ended. -/
theorem wordEnds_shift (seam : insertion.Seam) {stop start last : Nat}
    (ends : WordEnds insertion.source stop start last)
    (moved : insertion.result.lastSignificant? 0 (insertion.shift stop) =
      some (insertion.shift last)) :
    WordEnds insertion.result (insertion.shift stop) (insertion.shift start)
      (insertion.shift last) where
  found := moved
  order := insertion.shift_le_iff.mpr ends.order
  names := by
    intro position lower upper
    rcases insertion.cover position with ⟨old, rfl⟩ | ⟨index, inner, rfl⟩
    · rw [insertion.shift_le_iff] at lower upper
      rw [insertion.isNameAt_shift]
      exact ends.names old lower upper
    · exfalso
      rcases apart_of_names seam ends.names with before | behind
      · rw [insertion.shift_of_lt before] at upper
        omega
      · rw [insertion.shift_of_le behind] at lower
        omega
  starts := by
    rcases Nat.eq_zero_or_pos start with rfl | positive
    · exact Or.inl insertion.shift_zero
    · right
      rw [seam.isNameAt_before positive
        (ends.names start (Nat.le_refl _) ends.order)]
      exact ends.starts.resolve_left (Nat.ne_of_gt positive)

/-- A name that ends with the fragment ends with it without the fragment. -/
theorem wordEnds_of_shift (seam : insertion.Seam) {stop start last : Nat}
    (ends : WordEnds insertion.result (insertion.shift stop) start
      (insertion.shift last))
    (moved : insertion.source.lastSignificant? 0 stop = some last) :
    ∃ old, start = insertion.shift old ∧
      WordEnds insertion.source stop old last := by
  have positive := insertion.positive
  have apart : insertion.shift last < insertion.place ∨
      insertion.place + insertion.width ≤ start := by
    by_contra across
    rw [not_or] at across
    have late : insertion.place ≤ last := by
      by_contra early
      rw [insertion.shift_of_lt (by omega)] at across
      omega
    obtain ⟨before, same⟩ : ∃ before,
        insertion.place + insertion.width = before + 1 :=
      ⟨insertion.place + insertion.width - 1, by omega⟩
    have upper := insertion.shift_of_le late
    refine seam.right (same ▸ Insertion.Seam.joinsAt_of_names
      (ends.names before (by omega) (by omega))
      (ends.names (before + 1) (by omega) (by omega)))
  obtain ⟨old, rfl⟩ : ∃ old, start = insertion.shift old := by
    rcases insertion.cover start with ⟨old, same⟩ | ⟨index, inner, same⟩
    · exact ⟨old, same⟩
    · have order := ends.order
      omega
  have order := insertion.shift_le_iff.mp ends.order
  refine ⟨old, rfl, moved, order, fun position lower upper => ?_, ?_⟩
  · rw [← insertion.isNameAt_shift]
    exact ends.names _ (insertion.shift_le_iff.mpr lower)
      (insertion.shift_le_iff.mpr upper)
  · rcases Nat.eq_zero_or_pos old with rfl | positive
    · exact Or.inl rfl
    · right
      have name : insertion.source.isNameAt old := by
        rw [← insertion.isNameAt_shift]
        exact ends.names _ (Nat.le_refl _) ends.order
      rw [← seam.isNameAt_before positive name]
      refine ends.starts.resolve_left fun zero => ?_
      rw [← insertion.shift_zero, insertion.shift_inj] at zero
      omega

theorem slice_of_wordEnds (seam : insertion.Seam) {stop start last : Nat}
    (ends : WordEnds insertion.source stop start last) :
    insertion.result.slice (insertion.shift start) (insertion.shift last + 1) =
      insertion.source.slice start (last + 1) := by
  have apart := apart_of_names seam ends.names
  obtain ⟨gap, rfl⟩ := Nat.exists_eq_add_of_le ends.order
  have step (index : Nat) (short : index < gap + 1) :
      insertion.shift (start + index) = insertion.shift start + index :=
    @Insertion.Seam.shift_add _ _ (gap + 1) _
        (apart.imp (fun before => by omega) id) short
  rw [step gap (by omega), Nat.add_assoc, Nat.add_assoc]
  refine Source.slice_congr fun index short => ?_
  rw [← step index short, insertion.cells_shift]

/-- The name before code that asks for it. -/
theorem wordBefore_shift (seam : insertion.Seam) {position : Nat} {c : Char}
    (code : insertion.source.codeAt? position = some c) (asks : asksBack c) :
    wordBefore? insertion.result (insertion.shift position) =
      (wordBefore? insertion.source position).map fun word =>
        (insertion.shift word.1, word.2) := by
  refine Option.ext fun word => ?_
  obtain ⟨start, word⟩ := word
  rw [wordBefore_eq_some, Option.map_eq_some_iff]
  rcases last_asked seam code asks with
    moved | ⟨⟨final, found, inert⟩, none⟩
  · constructor
    · rintro ⟨last, ends, rfl⟩
      have here := ends.found
      rw [moved, Option.map_eq_some_iff] at here
      obtain ⟨old, same, rfl⟩ := here
      obtain ⟨first, rfl, before⟩ := wordEnds_of_shift seam ends same
      refine ⟨(first, insertion.source.slice first (old + 1)),
        wordBefore_eq_some.mpr ⟨old, before, rfl⟩, ?_⟩
      rw [slice_of_wordEnds seam before]
    · rintro ⟨⟨first, text⟩, here, same⟩
      cases same
      obtain ⟨last, ends, rfl⟩ := wordBefore_eq_some.mp here
      rw [ends.found] at moved
      exact ⟨_, wordEnds_shift seam ends moved, (slice_of_wordEnds seam ends).symm⟩
  · constructor
    · rintro ⟨last, ends, rfl⟩
      have here := ends.found
      rw [found] at here
      cases here
      obtain ⟨d, char, name⟩ := Source.isNameAt_iff.mp
        (ends.names _ ends.order (Nat.le_refl _))
      have quiet := inert d char
      rw [answersBack_of_isNameChar name] at quiet
      cases quiet
    · rintro ⟨⟨first, text⟩, here, same⟩
      obtain ⟨last, ends, rfl⟩ := wordBefore_eq_some.mp here
      obtain ⟨d, char, name⟩ := Source.isNameAt_iff.mp
        (ends.names _ ends.order (Nat.le_refl _))
      have quiet := none last ends.found d char
      rw [answersBack_of_isNameChar name] at quiet
      cases quiet

theorem endsInTargets_shift (seam : insertion.Seam) {position : Nat} {c : Char}
    (code : insertion.source.codeAt? position = some c) (asks : asksBack c) :
    endsInTargets insertion.result (insertion.shift position) =
      endsInTargets insertion.source position := by
  rw [endsInTargets, endsInTargets, wordBefore_shift seam code asks,
    Option.any_map]

/-- Whether the character before code is one that answers, with more to be asked
of it. -/
theorem lastIs_shift (seam : insertion.Seam) {position : Nat} {c d : Char}
    (code : insertion.source.codeAt? position = some c) (asks : asksBack c)
    (answers : answersBack d) {more more' : Nat → Bool}
    (same : ∀ last, insertion.source.lastSignificant? 0 position = some last →
      insertion.source.charAt? last = some d →
        more' (insertion.shift last) = more last) :
    ((insertion.result.lastSignificant? 0 (insertion.shift position)).any
        fun last => insertion.result.charAt? last == some d && more' last) =
      (insertion.source.lastSignificant? 0 position).any
        fun last => insertion.source.charAt? last == some d && more last := by
  rcases last_asked seam code asks with
    moved | ⟨⟨final, found, inert⟩, none⟩
  · rw [moved]
    cases here : insertion.source.lastSignificant? 0 position with
    | none => rfl
    | some last =>
        simp only [Option.map_some, Option.any_some, insertion.charAt_shift]
        cases char : insertion.source.charAt? last == some d with
        | false => rfl
        | true =>
            rw [Bool.true_and, Bool.true_and]
            exact same last here (by simpa using char)
  · have quiet (source : Source) (last : Nat)
        (inert : ∀ e, source.charAt? last = some e → !answersBack e) :
        (source.charAt? last == some d) = false := by
      rw [beq_eq_false_iff_ne]
      intro char
      have quiet := inert d char
      rw [answers] at quiet
      cases quiet
    rw [found, Option.any_some, quiet _ _ inert, Bool.false_and]
    cases here : insertion.source.lastSignificant? 0 position with
    | none => rfl
    | some last =>
        rw [Option.any_some, quiet _ _ (none last here), Bool.false_and]

/-- The first character of a word before code. -/
theorem word_head {source : Source} (regular : Regular source) {position start : Nat}
    {word : String} {c d : Char} (code : source.codeAt? position = some c)
    (found : wordBefore? source position = some (start, word))
    (first : word.toList.head? = some d) : source.codeAt? start = some d := by
  obtain ⟨last, ends, rfl⟩ := wordBefore_eq_some.mp found
  obtain ⟨e, here, -⟩ := ends.code regular code (Nat.le_refl _) ends.order
  have head := slice_head (Nat.lt_succ_of_le ends.order)
    (Source.charAt_of_codeAt here)
  rw [first] at head
  rw [here, ← head]

theorem isTargetsAppend_eq {source : Source} {paren : Nat} :
    isTargetsAppend source paren =
      (wordBefore? source paren).any fun word => word.2 == "append" &&
        (source.lastSignificant? 0 word.1).any fun dot =>
          source.charAt? dot == some '.' && endsInTargets source dot := by
  unfold isTargetsAppend
  split
  · rename_i start found
    rw [found]
    rfl
  · rename_i other
    cases found : wordBefore? source paren with
    | none => rfl
    | some word =>
        obtain ⟨start, word⟩ := word
        rw [Option.any_some]
        cases same : word == "append" with
        | false => rfl
        | true =>
            rw [beq_iff_eq] at same
            subst same
            exact absurd found (other start)

theorem isTargetsAppend_shift (seam : insertion.Seam) {paren : Nat} {c : Char}
    (code : insertion.source.codeAt? paren = some c) (asks : asksBack c) :
    isTargetsAppend insertion.result (insertion.shift paren) =
      isTargetsAppend insertion.source paren := by
  rw [isTargetsAppend_eq, isTargetsAppend_eq, wordBefore_shift seam code asks,
    Option.any_map]
  cases found : wordBefore? insertion.source paren with
  | none => rfl
  | some word =>
      obtain ⟨start, word⟩ := word
      simp only [Option.any_some]
      cases same : word == "append" with
      | false => rfl
      | true =>
          rw [beq_iff_eq] at same
          subst same
          have head := word_head seam.regular code found (by rfl)
          rw [Bool.true_and, Bool.true_and]
          refine lastIs_shift seam head rfl rfl fun dot here char => ?_
          exact endsInTargets_shift seam
            (code_before seam.regular head here char rfl) rfl

/-- Whether the code before a colon makes what follows it an array of targets. -/
def isTargetsLabel (source : Source) (colon : Nat) : Bool :=
  (wordBefore? source colon).any fun word => word.2 == "targets" ||
    (word.2 == "contentsOf" &&
      (source.lastSignificant? 0 word.1).any fun paren =>
        source.charAt? paren == some '(' && isTargetsAppend source paren)

/-- Whether the code before an equals sign makes what follows it an array of
targets. -/
def isTargetsSum (source : Source) (equals : Nat) : Bool :=
  0 < equals && source.charAt? (equals - 1) == some '+' &&
    endsInTargets source (equals - 1)

theorem isTargetsArray_eq {source : Source} {bracket : Nat} :
    isTargetsArray source bracket =
      ((source.lastSignificant? 0 bracket).any (fun before =>
        source.charAt? before == some ':' && isTargetsLabel source before) ||
      (source.lastSignificant? 0 bracket).any fun before =>
        source.charAt? before == some '=' && isTargetsSum source before) := by
  unfold isTargetsArray
  cases source.lastSignificant? 0 bracket with
  | none => rfl
  | some before =>
      simp only [Option.any_some]
      by_cases colon : source.charAt? before = some ':'
      · have other : (some ':' == some '=') = false := rfl
        rw [if_pos colon, colon]
        simp only [beq_self_eq_true, Bool.true_and, other, Bool.false_and,
          Bool.or_false]
        unfold isTargetsLabel
        split
        · rename_i found
          rw [found]
          rfl
        · rename_i start found
          rw [found]
          rfl
        · rename_i first second
          cases found : wordBefore? source before with
          | none => rfl
          | some word =>
              obtain ⟨start, word⟩ := word
              have one : (word == "targets") = false := by
                rw [beq_eq_false_iff_ne]
                rintro rfl
                exact first start found
              have two : (word == "contentsOf") = false := by
                rw [beq_eq_false_iff_ne]
                rintro rfl
                exact second start found
              rw [Option.any_some, one, two]
              rfl
      · rw [if_neg colon]
        have none : (source.charAt? before == some ':') = false := by
          rwa [beq_eq_false_iff_ne]
        rw [none, Bool.false_and, Bool.false_or]
        by_cases equals : source.charAt? before = some '='
        · rw [if_pos equals, equals]
          simp [isTargetsSum]
        · rw [if_neg equals]
          have none : (source.charAt? before == some '=') = false := by
            rwa [beq_eq_false_iff_ne]
          rw [none, Bool.false_and]

theorem isTargetsLabel_shift (seam : insertion.Seam) {colon : Nat}
    (code : insertion.source.codeAt? colon = some ':') :
    isTargetsLabel insertion.result (insertion.shift colon) =
      isTargetsLabel insertion.source colon := by
  rw [isTargetsLabel, isTargetsLabel, wordBefore_shift seam code rfl,
    Option.any_map]
  cases found : wordBefore? insertion.source colon with
  | none => rfl
  | some word =>
      obtain ⟨start, word⟩ := word
      simp only [Option.any_some]
      congr 1
      cases same : word == "contentsOf" with
      | false => rfl
      | true =>
          rw [beq_iff_eq] at same
          subst same
          have head := word_head seam.regular code found (by rfl)
          rw [Bool.true_and, Bool.true_and]
          refine lastIs_shift seam head rfl rfl fun paren here char => ?_
          exact isTargetsAppend_shift seam
            (code_before seam.regular head here char rfl) rfl

theorem isTargetsSum_shift (seam : insertion.Seam) {equals : Nat}
    (code : insertion.source.codeAt? equals = some '=') :
    isTargetsSum insertion.result (insertion.shift equals) =
      isTargetsSum insertion.source equals := by
  have joined {source : Source} {position : Nat} (positive : 0 < position)
      (plus : source.charAt? (position - 1) = some '+')
      (char : source.charAt? position = some '=') :
      Source.JoinsAt source position :=
    ⟨'+', '=', positive, plus, char, rfl⟩
  have char := Source.charAt_of_codeAt code
  rcases Nat.eq_zero_or_pos equals with rfl | positive
  · rw [insertion.shift_zero]
    rfl
  · by_cases first : equals = insertion.place
    · have none : (insertion.source.charAt? (equals - 1) == some '+') = false := by
        rw [beq_eq_false_iff_ne]
        intro plus
        exact seam.whole (first ▸ joined positive plus char)
      have none' : (insertion.result.charAt? (insertion.shift equals - 1) ==
          some '+') = false := by
        rw [beq_eq_false_iff_ne]
        intro plus
        have here := insertion.charAt_shift equals
        rw [char] at here
        have place : insertion.shift equals =
            insertion.place + insertion.width := by
          rw [insertion.shift_of_le (by omega), first]
        rw [place] at plus here
        exact seam.right (joined (by omega) plus here)
      rw [isTargetsSum, isTargetsSum, none, none', Bool.and_false,
        Bool.and_false, Bool.false_and, Bool.false_and]
    · have before : insertion.shift equals - 1 =
          insertion.shift (equals - 1) := by
        unfold Insertion.shift
        split <;> split <;> omega
      have positive' : 0 < insertion.shift equals := by
        rw [← insertion.shift_zero, insertion.shift_lt_iff]
        exact positive
      rw [isTargetsSum, isTargetsSum, before, insertion.charAt_shift,
        decide_eq_true positive, decide_eq_true positive']
      cases plus : insertion.source.charAt? (equals - 1) == some '+' with
      | false => rfl
      | true =>
          rw [Bool.true_and, Bool.true_and]
          rw [beq_iff_eq] at plus
          have here := @Regular.code_behind _ seam.regular (equals - 1) _ _
              (by rwa [Nat.sub_add_cancel positive]) plus rfl (by decide)
          exact endsInTargets_shift seam here rfl

theorem isTargetsArray_shift (seam : insertion.Seam) {bracket : Nat} {c : Char}
    (code : insertion.source.codeAt? bracket = some c) (asks : asksBack c) :
    isTargetsArray insertion.result (insertion.shift bracket) =
      isTargetsArray insertion.source bracket := by
  rw [isTargetsArray_eq, isTargetsArray_eq]
  congr 1
  · refine lastIs_shift seam code asks rfl fun colon here char => ?_
    exact isTargetsLabel_shift seam
      (code_before seam.regular code here char rfl)
  · refine lastIs_shift seam code asks rfl fun equals here char => ?_
    exact isTargetsSum_shift seam
      (code_before seam.regular code here char rfl)

/-- Whether targets stand in a bracket stays. -/
theorem isTargetsContainer_shift (seam : insertion.Seam) {bracket : Nat}
    {c : Char} (code : insertion.source.codeAt? bracket = some c) :
    isTargetsContainer insertion.result (insertion.shift bracket) =
      isTargetsContainer insertion.source bracket := by
  unfold isTargetsContainer
  rw [insertion.charAt_shift, Source.charAt_of_codeAt code]
  by_cases paren : c = '('
  · subst paren
    exact isTargetsAppend_shift seam code rfl
  · simp only [Option.some.injEq, paren, if_false]
    by_cases square : c = '['
    · subst square
      exact isTargetsArray_shift seam code rfl
    · simp only [square, if_false]

end

/-- The bracket around a position is code. -/
theorem code_of_enclosing {source : Source} {position bracket : Nat}
    (around : source.enclosing? position = some bracket) :
    ∃ c, source.codeAt? bracket = some c := by
  have opened {pending : List Nat} {code : Source.Marked}
      (member : bracket ∈ Source.openBefore pending code) :
      bracket ∈ pending ∨ ∃ c, (bracket, c) ∈ code := by
    induction code generalizing pending with
    | nil => exact Or.inl member
    | cons entry code inductionHypothesis =>
        obtain ⟨place, d⟩ := entry
        have later {pending' : List Nat}
            (member : bracket ∈ Source.openBefore pending' code)
            (grows : ∀ other ∈ pending', other ∈ pending ∨ other = place) :
            bracket ∈ pending ∨ ∃ c, (bracket, c) ∈ (place, d) :: code := by
          rcases inductionHypothesis member with early | ⟨c, here⟩
          · rcases grows bracket early with before | rfl
            · exact Or.inl before
            · exact Or.inr ⟨d, List.mem_cons_self⟩
          · exact Or.inr ⟨c, List.mem_cons_of_mem _ here⟩
        simp only [Source.openBefore] at member
        split at member
        · refine later member fun other here => ?_
          exact (List.mem_cons.mp here).symm
        · exact later member fun other here => Or.inl (List.mem_of_mem_tail here)
        · exact later member fun other here => Or.inl here
  rcases opened (List.mem_of_mem_head? around) with none | ⟨c, member⟩
  · cases none
  · exact ⟨c, (Source.mem_codeChars.mp member).2.2⟩

end PackageLayers.Manifest

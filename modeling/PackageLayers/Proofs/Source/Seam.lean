/-
Purpose: Insertions that leave what stands around them alone.
Main exports: Insertion.Seam, Insertion.Seam.memberCalls_shift,
  Insertion.Seam.labelAt_shift, Insertion.Seam.literalAt_shift
-/
import PackageLayers.Proofs.Source.Brackets
import PackageLayers.Proofs.Source.Words
import PackageLayers.Source.Literal

namespace PackageLayers.Source

/-!
A seam is harmless if no word can reach across it and if what is on the one side
does not ask for what is on the other.  A name asks whether a parenthesis or a
colon follows, a colon asks for the value that follows, and brackets and some
words ask for what is before them.  Then every search around the fragment finds
what it found without the fragment.  If nothing of the fragment counts, a search
passes over it, whatever it asks for.
-/

/-- Whether two characters that may be next to each other in a word stand at a
position and before it. -/
def JoinsAt (source : Source) (position : Nat) : Prop :=
  ∃ left right, 0 < position ∧ source.charAt? (position - 1) = some left ∧
    source.charAt? position = some right ∧ joins left right

/-- Whether what follows a character is asked for. -/
def asksAhead (c : Char) : Bool := isNameChar c || c = ':'

/-- Whether a character answers such a question. -/
def answersAhead (c : Char) : Bool := c = '(' || c = ':' || c = '['

/-- Whether what is before a character is asked for, as it may be a bracket,
stand between a label and one, or start the words `append` or `contentsOf`. -/
def asksBack (c : Char) : Bool :=
  c = '(' || c = '[' || c = ':' || c = '=' || c = '+' || c = '.' || c = 'a' ||
    c = 'c'

/-- Whether a character answers such a question. -/
def answersBack (c : Char) : Bool :=
  isNameChar c || c = ':' || c = '.' || c = '(' || c = '=' || c = '+'

namespace Insertion

/-- What is on the one side of either seam does not ask for what is on the other,
where something of the fragment counts. -/
structure Meets (insertion : Insertion) : Prop where
  filled : ∃ first last,
    insertion.fragment.nextSignificant? 0 insertion.width = some first ∧
      insertion.fragment.lastSignificant? 0 insertion.width = some last
  ahead : ∀ position c, position < insertion.place →
    insertion.source.codeAt? position = some c → asksAhead c →
    (∀ other, position < other → other < insertion.place →
      insertion.source.isSignificant other = false) →
    (∀ next, insertion.source.nextSignificant? insertion.place
        insertion.source.size = some next →
      ∃ d, insertion.source.codeAt? next = some d ∧ !answersAhead d) ∧
    ∀ first, insertion.fragment.nextSignificant? 0 insertion.width =
        some first →
      ∃ d, insertion.fragment.codeAt? first = some d ∧ !answersAhead d
  back : ∀ position c, insertion.place ≤ position →
    insertion.source.codeAt? position = some c → asksBack c →
    (∀ other, insertion.place ≤ other → other < position →
      insertion.source.isSignificant other = false) →
    (∀ last, insertion.source.lastSignificant? 0 insertion.place = some last →
      ∀ d, insertion.source.charAt? last = some d → !answersBack d) ∧
    ∀ last, insertion.fragment.lastSignificant? 0 insertion.width =
        some last →
      ∀ d, insertion.fragment.charAt? last = some d → !answersBack d

/-- An insertion whose seams are harmless. -/
structure Seam (insertion : Insertion) : Prop where
  regular : Regular insertion.source
  fragmentRegular : Regular insertion.fragment
  resultRegular : Regular insertion.result
  outside : ∀ literal ∈ insertion.source.literals,
    literal.stop ≤ insertion.place ∨ insertion.place ≤ literal.start
  balanced : insertion.IsBalanced
  whole : ¬JoinsAt insertion.source insertion.place
  left : ¬JoinsAt insertion.result insertion.place
  right : ¬JoinsAt insertion.result (insertion.place + insertion.width)
  meets : insertion.IsHidden ∨ insertion.Meets

namespace Seam

variable {insertion : Insertion} {word : List Char}

/-! ### Words -/

/-- A word does not reach across the place. -/
theorem apart_of_stands (seam : insertion.Seam) (run : IsRun word)
    {position : Nat} (stands : StandsAt insertion.source word position) :
    position + word.length ≤ insertion.place ∨ insertion.place ≤ position := by
  by_contra across
  obtain ⟨index, place⟩ : ∃ index, insertion.place = position + (index + 1) :=
    ⟨insertion.place - position - 1, by omega⟩
  have first := List.getElem?_eq_getElem (by omega : index < word.length)
  have second := List.getElem?_eq_getElem (by omega : index + 1 < word.length)
  refine seam.whole ⟨_, _, by omega, ?_, ?_,
    run _ _ _ first second⟩
  · rw [place, ← Nat.add_assoc, Nat.add_sub_cancel]
    exact stands index _ first
  · rw [place]
    exact stands (index + 1) _ second

theorem apart_of_stands_result (seam : insertion.Seam) (run : IsRun word)
    {position : Nat}
    (stands : StandsAt insertion.result word (insertion.shift position)) :
    position + word.length ≤ insertion.place ∨ insertion.place ≤ position := by
  by_contra across
  rw [insertion.shift_of_lt (by omega)] at stands
  obtain ⟨index, place⟩ : ∃ index, insertion.place = position + (index + 1) :=
    ⟨insertion.place - position - 1, by omega⟩
  have first := List.getElem?_eq_getElem (by omega : index < word.length)
  have second := List.getElem?_eq_getElem (by omega : index + 1 < word.length)
  refine seam.left ⟨_, _, by omega, ?_, ?_,
    run _ _ _ first second⟩
  · rw [place, ← Nat.add_assoc, Nat.add_sub_cancel]
    exact stands index _ first
  · rw [place]
    exact stands (index + 1) _ second

theorem inside_of_stands (seam : insertion.Seam) (run : IsRun word)
    {start : Nat} (inner : start < insertion.width)
    (stands : StandsAt insertion.result word (insertion.place + start)) :
    start + word.length ≤ insertion.width := by
  by_contra across
  obtain ⟨index, place⟩ : ∃ index, insertion.width = start + (index + 1) :=
    ⟨insertion.width - start - 1, by omega⟩
  have first := List.getElem?_eq_getElem (by omega : index < word.length)
  have second := List.getElem?_eq_getElem (by omega : index + 1 < word.length)
  refine seam.right ⟨_, _, by omega, ?_, ?_,
    run _ _ _ first second⟩
  · rw [place, ← Nat.add_assoc, ← Nat.add_assoc, Nat.add_sub_cancel]
    exact stands index _ first
  · rw [place, ← Nat.add_assoc]
    exact stands (index + 1) _ second

/-- The positions of something that does not reach across the place move
together. -/
theorem shift_add {position length index : Nat}
    (apart : position + length ≤ insertion.place ∨ insertion.place ≤ position)
    (inside : index < length) :
    insertion.shift (position + index) = insertion.shift position + index := by
  rcases apart with before | behind
  · rw [insertion.shift_of_lt (by omega), insertion.shift_of_lt (by omega)]
  · rw [insertion.shift_of_le (by omega), insertion.shift_of_le (by omega)]
    omega

/-- A word stands where it stood. -/
theorem stands_shift (seam : insertion.Seam) (run : IsRun word)
    (position : Nat) :
    StandsAt insertion.result word (insertion.shift position) ↔
      StandsAt insertion.source word position := by
  constructor
  · intro stands index c here
    have apart := seam.apart_of_stands_result run stands
    have inside := (List.getElem?_eq_some_iff.mp here).1
    rw [← insertion.charAt_shift, shift_add apart inside]
    exact stands index c here
  · intro stands index c here
    have apart := seam.apart_of_stands run stands
    have inside := (List.getElem?_eq_some_iff.mp here).1
    rw [← shift_add apart inside, insertion.charAt_shift]
    exact stands index c here

theorem standsAt_of_codeAt {source : Source} {position : Nat}
    (code : CodeAt source word position) : StandsAt source word position :=
  fun index c here => charAt_of_codeAt (code index c here)

theorem codeAt_shift_iff (seam : insertion.Seam) (run : IsRun word)
    (position : Nat) :
    CodeAt insertion.result word (insertion.shift position) ↔
      CodeAt insertion.source word position := by
  constructor
  · intro code index c here
    have apart := seam.apart_of_stands_result run (standsAt_of_codeAt code)
    have inside := (List.getElem?_eq_some_iff.mp here).1
    rw [← insertion.codeAt_shift, shift_add apart inside]
    exact code index c here
  · intro code index c here
    have apart := seam.apart_of_stands run (standsAt_of_codeAt code)
    have inside := (List.getElem?_eq_some_iff.mp here).1
    rw [← shift_add apart inside, insertion.codeAt_shift]
    exact code index c here

/-- The end of a word moves with its last character. -/
theorem shift_end {position : Nat} (filled : word ≠ [])
    (apart : position + word.length ≤ insertion.place ∨
      insertion.place ≤ position) :
    insertion.shift position + word.length =
      insertion.shift (position + (word.length - 1)) + 1 := by
  have length := List.length_pos_of_ne_nil filled
  rw [shift_add apart (by omega)]
  omega

/-- Where a word stands in the fragment. -/
theorem codeAt_place_iff (seam : insertion.Seam) (run : IsRun word)
    {start : Nat} (inner : start < insertion.width) :
    CodeAt insertion.result word (insertion.place + start) ↔
      CodeAt insertion.fragment word start := by
  constructor
  · intro code index c here
    have short := seam.inside_of_stands run inner (standsAt_of_codeAt code)
    have inside := (List.getElem?_eq_some_iff.mp here).1
    rw [← insertion.codeAt_place (by omega), ← Nat.add_assoc]
    exact code index c here
  · intro code index c here
    have found := code index c here
    have bound : start + index < insertion.width := lt_size_of_codeAt found
    rw [Nat.add_assoc, insertion.codeAt_place bound]
    exact found

/-- The occurrences of a word in a range are those that were there and those of
the fragment. -/
theorem mem_occurrences_range (seam : insertion.Seam) {text : String}
    (good : isWord text.toList) {span : Span} (order : span.start < span.stop)
    {position : Nat} :
    position ∈ insertion.result.occurrences text (insertion.range span) ↔
      (∃ old ∈ insertion.source.occurrences text span,
        position = insertion.shift old) ∨
      (span.start < insertion.place ∧ insertion.place < span.stop ∧
        ∃ start ∈ insertion.fragment.occurrences text
          insertion.fragment.whole, position = insertion.place + start) := by
  have filled := Words.filled good
  have length := List.length_pos_of_ne_nil filled
  rw [mem_occurrences good]
  simp only [range, after]
  constructor
  · rintro ⟨lower, upper, code⟩
    rcases insertion.cover position with ⟨old, rfl⟩ | ⟨start, inner, rfl⟩
    · rw [insertion.shift_le_iff] at lower
      rw [seam.codeAt_shift_iff (Words.isRun good)] at code
      have apart := seam.apart_of_stands (Words.isRun good) (standsAt_of_codeAt code)
      rw [shift_end filled apart, Nat.add_le_add_iff_right,
        insertion.shift_le_iff] at upper
      exact Or.inl ⟨old, (mem_occurrences good).mpr ⟨lower, by omega, code⟩, rfl⟩
    · rw [seam.codeAt_place_iff (Words.isRun good) inner] at code
      have last := lt_size_of_codeAt (code _ _ (List.getElem?_eq_getElem
        (Nat.sub_lt length Nat.one_pos)))
      have start_lt : span.start < insertion.place := by
        by_contra late
        rw [insertion.shift_of_le (by omega)] at lower
        omega
      have stop_gt : insertion.place < span.stop := by
        by_contra early
        rw [insertion.shift_of_lt (by omega)] at upper
        omega
      refine Or.inr ⟨start_lt, stop_gt, start, ?_, rfl⟩
      exact (mem_occurrences good).mpr
        ⟨Nat.zero_le _, by simp only [Source.whole]; omega, code⟩
  · rintro (⟨old, member, rfl⟩ | ⟨start_lt, stop_gt, start, member, rfl⟩)
    · obtain ⟨lower, upper, code⟩ := (mem_occurrences good).mp member
      have apart := seam.apart_of_stands (Words.isRun good) (standsAt_of_codeAt code)
      rw [insertion.shift_le_iff, shift_end filled apart,
        Nat.add_le_add_iff_right, insertion.shift_le_iff,
        seam.codeAt_shift_iff (Words.isRun good)]
      exact ⟨lower, by omega, code⟩
    · obtain ⟨-, upper, code⟩ := (mem_occurrences good).mp member
      simp only [Source.whole] at upper
      rw [insertion.shift_of_lt start_lt, insertion.shift_of_le (by omega),
        seam.codeAt_place_iff (Words.isRun good) (by rw [width]; omega)]
      exact ⟨by omega, by rw [width]; omega, code⟩

/-- The occurrences of a word that is not in the fragment move. -/
theorem occurrences_shift (seam : insertion.Seam) {text : String}
    (good : isWord text.toList)
    (absent : insertion.fragment.occurrences text
      insertion.fragment.whole = [])
    {span : Span} (order : span.start < span.stop) :
    insertion.result.occurrences text (insertion.range span) =
      (insertion.source.occurrences text span).map insertion.shift := by
  refine List.Pairwise.eq_of_mem_iff (r := (· < ·)) (occurrences_ascend good _)
    ?_ fun position => ?_
  · exact List.Pairwise.map _ (fun _ _ => insertion.shift_lt_iff.mpr)
      (occurrences_ascend good _)
  · rw [seam.mem_occurrences_range good order, absent, List.mem_map]
    constructor
    · rintro (⟨old, member, rfl⟩ | ⟨-, -, start, member, -⟩)
      · exact ⟨old, member, rfl⟩
      · cases member
    · rintro ⟨old, member, rfl⟩
      exact Or.inl ⟨old, member, rfl⟩

/-! ### What follows a name or a colon -/

theorem joinsAt_of_names {source : Source} {position : Nat}
    (first : source.isNameAt position)
    (second : source.isNameAt (position + 1)) :
    JoinsAt source (position + 1) := by
  obtain ⟨left, here, name⟩ := isNameAt_iff.mp first
  obtain ⟨right, there, name'⟩ := isNameAt_iff.mp second
  exact ⟨left, right, Nat.succ_pos _, here, there, by simp [joins, name, name']⟩

/-- Whether a name goes on after one of its characters. -/
theorem isNameAt_after (seam : insertion.Seam) {position : Nat}
    (name : insertion.source.isNameAt position) :
    insertion.result.isNameAt (insertion.shift position + 1) =
      insertion.source.isNameAt (position + 1) := by
  by_cases last : position + 1 = insertion.place
  · have name' : insertion.result.isNameAt position := by
      rwa [← insertion.shift_of_lt (by omega : position < insertion.place),
        isNameAt_shift]
    rw [insertion.shift_of_lt (by omega)]
    trans false
    · rw [Bool.eq_false_iff]
      intro next
      exact seam.left (last ▸ joinsAt_of_names name' next)
    · symm
      rw [Bool.eq_false_iff]
      intro next
      exact seam.whole (last ▸ joinsAt_of_names name next)
  · have same : insertion.shift position + 1 =
        insertion.shift (position + 1) := by
      unfold shift
      split <;> split <;> omega
    rw [same, isNameAt_shift]

/-- Whether a name goes on before one of its characters. -/
theorem isNameAt_before (seam : insertion.Seam) {position : Nat}
    (positive : 0 < position) (name : insertion.source.isNameAt position) :
    insertion.result.isNameAt (insertion.shift position - 1) =
      insertion.source.isNameAt (position - 1) := by
  by_cases first : position = insertion.place
  · subst first
    obtain ⟨place, same⟩ : ∃ place, insertion.place = place + 1 :=
      ⟨insertion.place - 1, by omega⟩
    trans false
    · rw [Bool.eq_false_iff]
      intro before
      have here : insertion.result.isNameAt
          (insertion.place + insertion.width) := by
        rwa [← insertion.shift_of_le (Nat.le_refl _), isNameAt_shift]
      rw [insertion.shift_of_le (Nat.le_refl _)] at before
      have shuffle : insertion.place + insertion.width =
          insertion.place + insertion.width - 1 + 1 := by omega
      rw [shuffle] at here
      exact seam.right (shuffle ▸ joinsAt_of_names before here)
    · symm
      rw [Bool.eq_false_iff]
      intro before
      rw [same] at before name
      exact seam.whole (same ▸ joinsAt_of_names before name)
  · have same : insertion.shift position - 1 =
        insertion.shift (position - 1) := by
      unfold shift
      split <;> split <;> omega
    rw [same, isNameAt_shift]

/-- What is found after a character that asks for it is what was found, or is no
answer with the fragment as it was none without it. -/
theorem next_asked (seam : insertion.Seam) {position stop : Nat} {c : Char}
    (code : insertion.source.codeAt? position = some c) (asks : asksAhead c) :
    insertion.result.nextSignificant? (insertion.shift position + 1)
        (insertion.shift stop) =
      (insertion.source.nextSignificant? (position + 1) stop).map
        insertion.shift ∨
    (∃ next d, insertion.result.nextSignificant?
        (insertion.shift position + 1) (insertion.shift stop) = some next ∧
      insertion.result.codeAt? next = some d ∧ !answersAhead d) ∧
    ∀ next, insertion.source.nextSignificant? (position + 1) stop = some next →
      ∃ d, insertion.source.codeAt? next = some d ∧ !answersAhead d := by
  rcases seam.meets with hidden | meets
  · exact Or.inl (insertion.next_shift (Or.inl hidden))
  by_cases crossing : position < insertion.place ∧ insertion.place ≤ stop ∧
      ∀ other, position < other → other < insertion.place →
        insertion.source.isSignificant other = false
  · obtain ⟨before, behind, clear⟩ := crossing
    obtain ⟨answer, inert⟩ := meets.ahead position c before code asks clear
    obtain ⟨first, last, found, -⟩ := meets.filled
    obtain ⟨d, inner, quiet⟩ := inert first found
    have bound : first < insertion.width := (next_eq_some_iff.mp found).2.1
    refine Or.inr ⟨⟨insertion.place + first, d,
      insertion.next_crossing before behind clear found,
      by rwa [insertion.codeAt_place bound], quiet⟩, fun next here => ?_⟩
    obtain ⟨lower, upper, holds, earlier⟩ := next_eq_some_iff.mp here
    have late : insertion.place ≤ next := by
      by_contra early
      rw [clear next (by omega) (by omega)] at holds
      cases holds
    refine answer next (next_eq_some_iff.mpr
      ⟨late, lt_size_of_isSignificant holds, holds, fun other above below => ?_⟩)
    exact earlier other (by omega) below
  · refine Or.inl (insertion.next_shift (Or.inr ?_))
    by_cases before : position < insertion.place
    · by_cases behind : insertion.place ≤ stop
      · have other : ∃ other, position < other ∧ other < insertion.place ∧
            insertion.source.isSignificant other := by
          by_contra none
          refine crossing ⟨before, behind, fun other above below => ?_⟩
          cases holds : insertion.source.isSignificant other with
          | false => rfl
          | true => exact absurd ⟨other, above, below, holds⟩ none
        obtain ⟨other, above, below, holds⟩ := other
        exact Or.inr (Or.inr ⟨other, above, by omega, below, holds⟩)
      · exact Or.inr (Or.inl (by omega))
    · exact Or.inl (by omega)

/-! ### Calls -/

end Seam

end Insertion

/-- The call of a member with a pattern of a length whose dot is at a position. -/
def callAt? (source : Source) (length dot : Nat) : Option MemberCall := do
  let after := dot + length
  if source.isNameAt after then none
  else
    let paren ← source.nextSignificant? after source.size
    if source.charAt? paren = some '(' then pure ⟨dot, paren⟩ else none

theorem memberCalls_eq {source : Source} {name : String} {span : Span}
    (good : isWord ("." ++ name).toList) :
    source.memberCalls name span =
      (source.occurrences ("." ++ name) span).filterMap
        (source.callAt? ("." ++ name).toList.length) := by
  rw [memberCalls, footprint_of_isWord good, List.length_map]
  rfl

theorem callAt_eq_some {source : Source} {length dot : Nat} {call : MemberCall}
    (found : source.callAt? length dot = some call) :
    call.dot = dot ∧ source.isNameAt (dot + length) = false ∧
      source.nextSignificant? (dot + length) source.size = some call.paren ∧
      source.charAt? call.paren = some '(' := by
  simp only [callAt?, Option.bind_eq_bind] at found
  split at found
  · cases found
  · rename_i name
    obtain ⟨paren, next, here⟩ := Option.bind_eq_some_iff.mp found
    split at here
    · rename_i opens
      cases here
      exact ⟨rfl, by simpa using name, next, opens⟩
    · cases here

/-- A call of a member is its dot and its name in code, and a parenthesis. -/
theorem mem_memberCalls {source : Source} {name : String} {span : Span}
    (good : isWord ("." ++ name).toList) {call : MemberCall}
    (member : call ∈ source.memberCalls name span) :
    CodeAt source ("." ++ name).toList call.dot ∧
      source.nextSignificant? (call.dot + ("." ++ name).toList.length)
        source.size = some call.paren ∧
      source.charAt? call.paren = some '(' := by
  rw [memberCalls_eq good] at member
  obtain ⟨dot, here, found⟩ := List.mem_filterMap.mp member
  obtain ⟨rfl, -, next, opens⟩ := callAt_eq_some found
  exact ⟨((mem_occurrences good).mp here).2.2, next, opens⟩

/-- A call after an insertion. -/
def MemberCall.moved (insertion : Insertion) (call : MemberCall) : MemberCall :=
  ⟨insertion.shift call.dot, insertion.shift call.paren⟩

namespace Insertion

namespace Seam

variable {insertion : Insertion} {word : List Char}

theorem shift_size (insertion : Insertion) :
    insertion.shift insertion.source.size = insertion.result.size := by
  rw [insertion.shift_of_le (Nat.le_of_lt insertion.inside), result_size]

theorem not_answersAhead {c : Char} (quiet : !answersAhead c) :
    c ≠ '(' ∧ c ≠ ':' ∧ c ≠ '[' := by
  simpa [answersAhead, and_assoc] using quiet

/-- A call is where it was. -/
theorem callAt_shift (seam : insertion.Seam) (good : isWord word) {dot : Nat}
    (code : CodeAt insertion.source word dot) :
    insertion.result.callAt? word.length (insertion.shift dot) =
      (insertion.source.callAt? word.length dot).map
        (MemberCall.moved insertion) := by
  have filled := Words.filled good
  have length := List.length_pos_of_ne_nil filled
  have last := List.getElem?_eq_getElem (Nat.sub_lt length Nat.one_pos)
  have name := Words.last_isNameChar good last
  have here := code _ _ last
  have apart := seam.apart_of_stands (Words.isRun good) (standsAt_of_codeAt code)
  have stop : dot + word.length = dot + (word.length - 1) + 1 := by omega
  simp only [callAt?, Option.bind_eq_bind]
  rw [shift_end filled apart, seam.isNameAt_after
    (isNameAt_iff.mpr ⟨_, charAt_of_codeAt here, name⟩), ← stop]
  split
  · rfl
  · rw [← shift_size]
    rcases @Insertion.Seam.next_asked _ seam _ insertion.source.size _ here
        (by simp [asksAhead, name]) with same | ⟨⟨next, d, found, code, quiet⟩, none⟩
    · rw [same, ← stop]
      cases insertion.source.nextSignificant? (dot + word.length)
        insertion.source.size with
      | none => rfl
      | some paren =>
          simp only [Option.map_some, Option.bind_some, charAt_shift]
          split <;> rfl
    · rw [found, Option.bind_some, charAt_of_codeAt code,
        if_neg fun opens => (not_answersAhead quiet).1 (Option.some.inj opens)]
      rw [← stop] at none
      cases other : insertion.source.nextSignificant? (dot + word.length)
        insertion.source.size with
      | none => rfl
      | some paren =>
          obtain ⟨e, code', quiet'⟩ := none paren other
          rw [Option.bind_some, charAt_of_codeAt code',
            if_neg fun opens =>
              (not_answersAhead quiet').1 (Option.some.inj opens)]
          rfl

/-- The calls of a member that the fragment does not call move. -/
theorem memberCalls_shift (seam : insertion.Seam) {name : String}
    (good : isWord ("." ++ name).toList)
    (absent : insertion.fragment.occurrences ("." ++ name)
      insertion.fragment.whole = [])
    {span : Span} (order : span.start < span.stop) :
    insertion.result.memberCalls name (insertion.range span) =
      (insertion.source.memberCalls name span).map
        (MemberCall.moved insertion) := by
  rw [memberCalls_eq good, memberCalls_eq good,
    seam.occurrences_shift good absent order, List.filterMap_map,
    List.map_filterMap]
  refine List.filterMap_congr fun dot member => ?_
  exact seam.callAt_shift good ((mem_occurrences good).mp member).2.2

/-- The range of a whole text. -/
theorem range_whole (insertion : Insertion) :
    insertion.range insertion.source.whole = insertion.result.whole := by
  have inside := insertion.inside
  simp only [range, after, Source.whole, shift_zero, result_size]
  rw [insertion.shift_of_le (by omega)]
  congr 1
  omega

/-! ### Slices and literals -/

end Seam

end Insertion

theorem slice_congr {left right : Source} {start start' length : Nat}
    (same : ∀ index, index < length →
      left.cells[start + index]? = right.cells[start' + index]?) :
    left.slice start (start + length) = right.slice start' (start' + length) := by
  unfold slice
  congr 2
  refine List.ext_getElem? fun index => ?_
  rw [Array.getElem?_toList, Array.getElem?_toList, Array.getElem?_extract,
    Array.getElem?_extract]
  by_cases inside : index < length
  · have entry := same index inside
    have bound (cells : Array Cell) (place : Nat) :
        (if index < min (place + length) cells.size - place then
          cells[place + index]? else none) = cells[place + index]? := by
      split
      · rfl
      · rw [Array.getElem?_eq_none (by omega)]
    rw [bound, bound, entry]
  · rw [if_neg (by omega), if_neg (by omega)]

/-- A literal with its value after an insertion. -/
def Quoted.moved (insertion : Insertion) (quoted : Quoted) : Quoted :=
  { start := insertion.shift quoted.start
    stop := insertion.after quoted.stop
    value := quoted.value }

/-- The literal with its value that a literal of a text is. -/
def Literal.quoted (source : Source) (literal : Literal) : Quoted :=
  { start := literal.start
    stop := literal.stop
    value := literal.value (source.slice literal.start literal.stop).toList }

theorem literalAt_eq {source : Source} {position : Nat} :
    source.literalAt? position =
      (source.literals.find? fun literal => literal.start == position).map
        (Literal.quoted source) := rfl

theorem value_moved (offset : Nat) (literal : Literal) (chars : List Char) :
    (literal.moved offset).value chars = literal.value chars := by
  have same : (literal.moved offset).stop - (literal.moved offset).start =
      literal.stop - literal.start := by
    simp only [Literal.moved]
    omega
  simp only [Literal.value, Literal.inner, same]
  rfl

/-- No literal starts at a position of code. -/
theorem literalAt_of_codeAt {source : Source} (regular : Regular source)
    {position : Nat} {c : Char} (code : source.codeAt? position = some c) :
    source.literalAt? position = none := by
  rw [literalAt_eq, Option.map_eq_none_iff, List.find?_eq_none]
  intro literal member same
  rw [beq_iff_eq] at same
  obtain ⟨d, here, -⟩ := regular.literalStart literal member
  rw [same, codeAt_eq_some code] at here
  cases here

theorem find_append_left {α : Type} {p : α → Bool} {left right : List α}
    (none : ∀ item ∈ right, p item = false) :
    (left ++ right).find? p = left.find? p := by
  rw [List.find?_append, List.find?_eq_none.mpr fun item member =>
    Bool.eq_false_iff.mp (none item member), Option.or_none]

theorem find_append_right {α : Type} {p : α → Bool} {left right : List α}
    (none : ∀ item ∈ left, p item = false) :
    (left ++ right).find? p = right.find? p := by
  rw [List.find?_append, List.find?_eq_none.mpr fun item member =>
    Bool.eq_false_iff.mp (none item member), Option.none_or]

theorem find_filter_of_imp {α : Type} {p q : α → Bool} (items : List α)
    (implies : ∀ item, q item → p item) :
    (items.filter p).find? q = items.find? q := by
  rw [List.find?_filter]
  congr 1
  funext item
  cases holds : q item with
  | false => simp
  | true => simp [implies item holds]

namespace Insertion

namespace Seam

variable {insertion : Insertion} {word : List Char}

theorem quoted_before (seam : insertion.Seam) {literal : Literal}
    (member : literal ∈ insertion.source.literals)
    (before : literal.start < insertion.place) :
    literal.quoted insertion.result =
      (literal.quoted insertion.source).moved insertion := by
  have bound := seam.regular.bounds literal member
  have stop := (seam.outside literal member).resolve_right (by omega)
  obtain ⟨length, same⟩ := Nat.exists_eq_add_of_lt bound.1
  have slices := @slice_congr insertion.result insertion.source literal.start
      literal.start (length + 1) fun index inside => by
      rw [← insertion.cells_shift, insertion.shift_of_lt (by omega)]
  rw [← Nat.add_assoc, ← same] at slices
  simp only [Literal.quoted, Quoted.moved, after, slices,
    insertion.shift_of_lt before,
    insertion.shift_of_lt (by omega : literal.stop - 1 < insertion.place)]
  congr 1
  omega

theorem quoted_behind (seam : insertion.Seam) {literal : Literal}
    (member : literal ∈ insertion.source.literals)
    (behind : insertion.place ≤ literal.start) :
    (literal.moved insertion.fragment.size).quoted insertion.result =
      (literal.quoted insertion.source).moved insertion := by
  have bound := seam.regular.bounds literal member
  obtain ⟨length, same⟩ := Nat.exists_eq_add_of_lt bound.1
  have slices := @slice_congr insertion.result insertion.source
      (literal.start + insertion.fragment.size) literal.start (length + 1)
      fun index inside => by
      rw [← insertion.cells_shift, insertion.shift_of_le (by omega), width]
      congr 1
      omega
  have stop : literal.start + insertion.fragment.size + (length + 1) =
      literal.stop + insertion.fragment.size := by omega
  rw [stop, ← Nat.add_assoc, ← same] at slices
  simp only [Literal.quoted, value_moved, Quoted.moved, after]
  simp only [Literal.moved, slices, insertion.shift_of_le behind,
    insertion.shift_of_le (by omega : insertion.place ≤ literal.stop - 1), width]
  congr 1
  omega

/-- The literals that start before the place stay where they are. -/
theorem find_literal_before {position : Nat}
    (before : position < insertion.place) :
    insertion.result.literals.find? (fun literal => literal.start == position) =
      insertion.source.literals.find? fun literal =>
        literal.start == position := by
  have early := find_filter_of_imp insertion.source.literals
      (p := fun literal => decide (literal.start < insertion.place))
      (q := fun literal => literal.start == position) fun literal same => by
      rw [beq_iff_eq] at same
      rw [same, decide_eq_true_iff]
      exact before
  rw [result, insert, find_append_left, find_append_left, early]
  · intro literal fragment
    rw [beq_eq_false_iff_ne]
    obtain ⟨old, -, rfl⟩ := List.mem_map.mp fragment
    simp only [Literal.moved]
    omega
  · intro literal late
    rw [beq_eq_false_iff_ne]
    obtain ⟨old, inside, rfl⟩ := List.mem_map.mp late
    have bound := of_decide_eq_true (List.mem_filter.mp inside).2
    simp only [Literal.moved]
    omega

/-- The literals that start behind the place move with it. -/
theorem find_literal_behind (seam : insertion.Seam) {position : Nat}
    (behind : insertion.place ≤ position) :
    insertion.result.literals.find?
        (fun literal => literal.start == position + insertion.width) =
      (insertion.source.literals.find? fun literal =>
        literal.start == position).map (Literal.moved insertion.width) := by
  have late := find_filter_of_imp insertion.source.literals
      (p := fun literal => decide (insertion.place ≤ literal.start))
      (q := fun literal => literal.start == position) fun literal same => by
      rw [beq_iff_eq] at same
      rw [same, decide_eq_true_iff]
      exact behind
  have same : (fun literal : Literal =>
      literal.start == position + insertion.width) ∘
        Literal.moved insertion.fragment.size =
      fun literal => literal.start == position := by
    funext literal
    simp only [Function.comp_apply, Literal.moved, width]
    rw [Bool.eq_iff_iff, beq_iff_eq, beq_iff_eq]
    omega
  rw [result, insert, find_append_right, List.find?_map, same, late]
  · rfl
  · intro literal member
    rw [beq_eq_false_iff_ne]
    rcases List.mem_append.mp member with early | fragment
    · have bound := of_decide_eq_true (List.mem_filter.mp early).2
      omega
    · obtain ⟨old, inside, rfl⟩ := List.mem_map.mp fragment
      have bound := seam.fragmentRegular.bounds old inside
      simp only [Literal.moved, width]
      omega

/-- The literal that starts at a position moves. -/
theorem literalAt_shift (seam : insertion.Seam) (position : Nat) :
    insertion.result.literalAt? (insertion.shift position) =
      (insertion.source.literalAt? position).map (Quoted.moved insertion) := by
  rw [literalAt_eq, literalAt_eq]
  by_cases before : position < insertion.place
  · rw [insertion.shift_of_lt before, find_literal_before before]
    cases found : insertion.source.literals.find? fun literal =>
        literal.start == position with
    | none => rfl
    | some literal =>
        have start := List.find?_some found
        rw [beq_iff_eq] at start
        simp only [Option.map_some]
        rw [seam.quoted_before (List.mem_of_find?_eq_some found) (by omega)]
  · rw [insertion.shift_of_le (by omega), seam.find_literal_behind (by omega)]
    cases found : insertion.source.literals.find? fun literal =>
        literal.start == position with
    | none => rfl
    | some literal =>
        have start := List.find?_some found
        rw [beq_iff_eq] at start
        simp only [Option.map_some]
        rw [width, seam.quoted_behind (List.mem_of_find?_eq_some found)
          (by omega)]

/-- The literals of the fragment are at its place. -/
theorem literalAt_place (seam : insertion.Seam) {index : Nat}
    (inner : index < insertion.width) :
    (insertion.result.literalAt? (insertion.place + index)).map Quoted.value =
      (insertion.fragment.literalAt? index).map Quoted.value := by
  have same : (fun literal : Literal =>
      literal.start == insertion.place + index) ∘
        Literal.moved insertion.place = fun literal => literal.start == index := by
    funext literal
    simp only [Function.comp_apply, Literal.moved]
    rw [Bool.eq_iff_iff, beq_iff_eq, beq_iff_eq]
    omega
  have found : insertion.result.literals.find? (fun literal =>
      literal.start == insertion.place + index) =
        (insertion.fragment.literals.find? fun literal =>
          literal.start == index).map (Literal.moved insertion.place) := by
    rw [result, insert, find_append_left, find_append_right, List.find?_map,
      same]
    · intro literal early
      have bound := of_decide_eq_true (List.mem_filter.mp early).2
      rw [beq_eq_false_iff_ne]
      omega
    · intro literal member
      obtain ⟨old, late, rfl⟩ := List.mem_map.mp member
      have bound := of_decide_eq_true (List.mem_filter.mp late).2
      rw [beq_eq_false_iff_ne]
      simp only [Literal.moved]
      rw [width] at inner
      omega
  rw [literalAt_eq, literalAt_eq, found]
  cases here : insertion.fragment.literals.find? fun literal =>
      literal.start == index with
  | none => rfl
  | some literal =>
      have bound := seam.fragmentRegular.bounds literal
        (List.mem_of_find?_eq_some here)
      obtain ⟨length, stop⟩ := Nat.exists_eq_add_of_lt bound.1
      have slices := @slice_congr insertion.result insertion.fragment
          (insertion.place + literal.start) literal.start (length + 1)
          fun offset inside => by
          rw [Nat.add_assoc, insertion.cells_place (by rw [width]; omega)]
      have shuffle : insertion.place + literal.start + (length + 1) =
          literal.stop + insertion.place := by omega
      rw [shuffle, ← Nat.add_assoc, ← stop, Nat.add_comm insertion.place] at slices
      simp only [Option.map_some, Literal.quoted, value_moved]
      rw [Literal.moved, slices]

end Seam

end Insertion

end PackageLayers.Source

/-
Purpose: Where words stand in classified text.
Main exports: isWord, StandsAt, mem_occurrences, occurrences_ascend
-/
import PackageLayers.Proofs.Source.Classes
import PackageLayers.Proofs.Source.Nesting

namespace PackageLayers.Source

/-!
The words that are looked for are names, some with a dot before them.  None of
them has its first character again, so its occurrences cannot overlap.
-/

/-- Whether two characters are looked for next to each other: in a searched word,
or as an assignment that adds. -/
def joins (left right : Char) : Bool :=
  isNameChar right && (isNameChar left || (left = '.' && right ≠ 'd')) ||
    (left = '+' && right = '=')

/-- Whether a text is a name or a dot and a name, without its first character
again. -/
def isWord : List Char → Bool
  | [] => false
  | first :: rest =>
      (isNameChar first || (first = '.' && !rest.isEmpty && rest.head? ≠ some 'd'))
        && rest.all isNameChar && !rest.contains first

/-- Neighbouring characters of a text may be next to each other in what is looked
for. -/
def IsRun (word : List Char) : Prop :=
  ∀ index left right, word[index]? = some left →
    word[index + 1]? = some right → joins left right

theorem isRun_of_names {word : List Char} (names : word.all isNameChar) :
    IsRun word := by
  intro index left right here there
  rw [List.all_eq_true] at names
  simp [joins, names left (List.mem_of_getElem? here),
    names right (List.mem_of_getElem? there)]

theorem utf8Size_of_isNameChar {c : Char} (name : isNameChar c) :
    c.utf8Size = 1 := by
  rw [Char.utf8Size_eq_one_iff]
  delta isNameChar Char.isAlphanum Char.isAlpha Char.isUpper Char.isLower
    Char.isDigit at name
  simp only [Bool.or_eq_true, Bool.and_eq_true, decide_eq_true_eq] at name
  rcases name with ((upper | lower) | digit) | rfl
  · exact UInt32.le_trans upper.2 (by decide)
  · exact UInt32.le_trans lower.2 (by decide)
  · exact UInt32.le_trans digit.2 (by decide)
  · decide

namespace Words

variable {word : List Char}

theorem filled (good : isWord word) : word ≠ [] := by
  rintro rfl
  cases good

theorem utf8Size_eq (good : isWord word) : ∀ c ∈ word, c.utf8Size = 1 := by
  cases word with
  | nil => cases good
  | cons first rest =>
      simp only [isWord, Bool.and_eq_true, Bool.or_eq_true, List.all_eq_true,
        decide_eq_true_eq] at good
      intro c member
      rcases List.mem_cons.mp member with rfl | later
      · rcases good.1.1 with name | dot
        · exact utf8Size_of_isNameChar name
        · rw [dot.1.1]
          rfl
      · exact utf8Size_of_isNameChar (good.1.2 c later)

theorem isRun (good : isWord word) : IsRun word := by
  intro index left right here there
  cases word with
  | nil => cases good
  | cons first rest =>
      simp only [isWord, Bool.and_eq_true, Bool.or_eq_true, List.all_eq_true,
        decide_eq_true_eq] at good
      rw [List.getElem?_cons_succ] at there
      have name := good.1.2 right (List.mem_of_getElem? there)
      simp only [joins, name, Bool.true_and, Bool.or_eq_true, Bool.and_eq_true,
        decide_eq_true_eq]
      left
      cases index with
      | zero =>
          rw [List.getElem?_cons_zero, Option.some.injEq] at here
          subst here
          refine good.1.1.imp id fun dot => ⟨dot.1.1, ?_⟩
          rintro rfl
          rw [List.head?_eq_getElem?] at dot
          exact dot.2 there
      | succ index =>
          rw [List.getElem?_cons_succ] at here
          exact Or.inl (good.1.2 left (List.mem_of_getElem? here))

/-- The last character of a word is one of a name. -/
theorem last_isNameChar (good : isWord word) {c : Char}
    (last : word[word.length - 1]? = some c) : isNameChar c := by
  cases word with
  | nil => cases good
  | cons first rest =>
      simp only [isWord, Bool.and_eq_true, Bool.or_eq_true, List.all_eq_true,
        decide_eq_true_eq] at good
      rw [List.length_cons, Nat.add_sub_cancel] at last
      cases rest with
      | nil =>
          cases last
          exact good.1.1.resolve_right fun dot => by simp at dot
      | cons second rest =>
          rw [List.length_cons, List.getElem?_cons_succ] at last
          exact good.1.2 c (List.mem_of_getElem? last)

/-- The first character of a word does not occur again. -/
theorem first_once (good : isWord word) {index : Nat} (later : 0 < index) :
    word[index]? ≠ word[0]? ∨ word[index]? = none := by
  cases word with
  | nil => cases good
  | cons first rest =>
      simp only [isWord, Bool.and_eq_true, Bool.not_eq_true',
        List.contains_eq_mem, decide_eq_false_iff_not] at good
      obtain ⟨index, rfl⟩ := Nat.exists_eq_add_of_lt later
      rw [Nat.zero_add, List.getElem?_cons_succ, List.getElem?_cons_zero]
      refine Or.inl fun same => good.2 (List.mem_of_getElem? same)

end Words

/-! ### Where a word stands -/

/-- A text stands at a position. -/
def StandsAt (source : Source) (word : List Char) (position : Nat) : Prop :=
  ∀ index c, word[index]? = some c →
    source.charAt? (position + index) = some c

/-- A text stands at a position in code. -/
def CodeAt (source : Source) (word : List Char) (position : Nat) : Prop :=
  ∀ index c, word[index]? = some c →
    source.codeAt? (position + index) = some c

section

variable {source : Source}

theorem charAt_of_codeAt {position : Nat} {c : Char}
    (code : source.codeAt? position = some c) :
    source.charAt? position = some c := by
  rw [charAt?, codeAt_eq_some code]
  rfl

theorem isNameAt_iff {position : Nat} :
    source.isNameAt position = true ↔
      ∃ c, source.charAt? position = some c ∧ isNameChar c := by
  rw [isNameAt, Option.any_eq_true]

theorem lt_size_of_charAt {position : Nat} {c : Char}
    (here : source.charAt? position = some c) : position < source.size := by
  by_contra outside
  rw [charAt?, Array.getElem?_eq_none (Nat.le_of_not_lt outside)] at here
  cases here

/-- What is found where a text of single positions stands. -/
theorem footprint_of_sizes {text : String}
    (sizes : ∀ c ∈ text.toList, c.utf8Size = 1) :
    footprint text = text.toList.map some := by
  unfold footprint
  generalize text.toList = chars at sizes
  induction chars with
  | nil => rfl
  | cons c rest inductionHypothesis =>
      rw [List.flatMap_cons, inductionHypothesis fun d member =>
        sizes d (List.mem_cons_of_mem c member), sizes c (by simp)]
      rfl

theorem footprint_of_isWord {text : String} (good : isWord text.toList) :
    footprint text = text.toList.map some :=
  footprint_of_sizes (Words.utf8Size_eq good)

theorem footprint_of_names {text : String}
    (names : text.toList.all isNameChar) :
    footprint text = text.toList.map some := by
  rw [List.all_eq_true] at names
  exact footprint_of_sizes fun c member =>
    utf8Size_of_isNameChar (names c member)

theorem matchesAt_iff {word : List Char} {position : Nat} :
    source.matchesAt (word.map some) position ↔
      StandsAt source word position := by
  rw [matchesAt, beq_iff_eq, List.length_map]
  constructor
  · intro same index c here
    have entry := congrArg (·[index]?) same
    have bound := (List.getElem?_eq_some_iff.mp here).1
    simp only [List.getElem?_map, here, Array.getElem?_toList,
      Array.getElem?_extract] at entry
    split at entry
    · rw [charAt?]
      cases cell : source.cells[position + index]? with
      | none =>
          rw [cell] at entry
          cases entry
      | some cell' =>
          rw [cell] at entry
          exact Option.some.inj entry
    · cases entry
  · intro stands
    refine List.ext_getElem? fun index => ?_
    simp only [List.getElem?_map, Array.getElem?_toList, Array.getElem?_extract]
    cases here : word[index]? with
    | none =>
        have outside := List.getElem?_eq_none_iff.mp here
        rw [if_neg (by omega)]
        rfl
    | some c =>
        have bound := (List.getElem?_eq_some_iff.mp here).1
        have found := stands index c here
        have inside := lt_size_of_charAt found
        rw [size] at inside
        rw [if_pos (by omega)]
        rw [charAt?] at found
        cases cell : source.cells[position + index]? with
        | none =>
            rw [cell] at found
            cases found
        | some cell' =>
            rw [cell] at found
            exact congrArg some found

theorem codeAt_iff {position : Nat} {c : Char} :
    source.codeAt? position = some c ↔
      source.charAt? position = some c ∧ source.isCode position := by
  simp only [codeAt?, charAt?, isCode, classAt?]
  cases source.cells[position]? with
  | none => simp
  | some cell =>
      simp only [Option.bind_some, Option.map_some, beq_iff_eq,
        Option.some.injEq]
      split
      · rename_i code
        simp [code]
      · rename_i other
        simp [other]

/-- A word stands in code where it matches and all is code. -/
theorem codeAt_word_iff {word : List Char} {position : Nat} :
    (source.isCodeRange position (position + word.length) &&
        source.matchesAt (word.map some) position) = true ↔
      CodeAt source word position := by
  rw [Bool.and_eq_true, matchesAt_iff, isCodeRange, List.all_eq_true]
  constructor
  · rintro ⟨code, stands⟩ index c here
    have bound := (List.getElem?_eq_some_iff.mp here).1
    exact codeAt_iff.mpr ⟨stands index c here,
      code _ (mem_positions.mpr ⟨by omega, by omega⟩)⟩
  · intro stands
    refine ⟨fun place member => ?_, fun index c here =>
      charAt_of_codeAt (stands index c here)⟩
    obtain ⟨lower, upper⟩ := mem_positions.mp member
    obtain ⟨index, rfl⟩ := Nat.exists_eq_add_of_le lower
    have inside : index < word.length := by omega
    exact (codeAt_iff.mp
      (stands index word[index] (List.getElem?_eq_getElem inside))).2

theorem withoutOverlaps_eq {width free : Nat} {found : List Nat}
    (apart : found.Pairwise fun first second => first + width ≤ second)
    (lower : ∀ position ∈ found, free ≤ position) :
    withoutOverlaps width free found = found := by
  induction found generalizing free with
  | nil => rfl
  | cons position found inductionHypothesis =>
      obtain ⟨above, apart⟩ := List.pairwise_cons.mp apart
      rw [withoutOverlaps, if_neg (Nat.not_lt_of_le (lower position (by simp))),
        inductionHypothesis apart above]

/-- Two places of a word do not overlap. -/
theorem apart_of_codeAt {word : List Char} (good : isWord word)
    {first second : Nat} (here : CodeAt source word first)
    (there : CodeAt source word second) (order : first < second) :
    first + word.length ≤ second := by
  by_contra overlap
  obtain ⟨index, rfl⟩ := Nat.exists_eq_add_of_lt order
  have inside : index + 1 < word.length := by omega
  have start : 0 < word.length := by omega
  have left := here _ _ (List.getElem?_eq_getElem inside)
  have right := there _ _ (List.getElem?_eq_getElem start)
  rw [Nat.add_zero, ← Nat.add_assoc] at *
  rcases Words.first_once good (Nat.succ_pos index) with different | none
  · refine different ?_
    rw [List.getElem?_eq_getElem inside, List.getElem?_eq_getElem start,
      ← left, right]
  · rw [List.getElem?_eq_none_iff] at none
    omega

/-- The occurrences of a word, as a list. -/
theorem occurrences_eq {text : String} (good : isWord text.toList)
    (range : Span) :
    source.occurrences text range =
      (positions range.start (min range.stop source.size + 1 -
        text.toList.length)).filter fun position =>
          source.isCodeRange position (position + text.toList.length) &&
            source.matchesAt (text.toList.map some) position := by
  have filled := Words.filled good
  rw [occurrences, footprint_of_isWord good]
  simp only [List.isEmpty_map, List.length_map]
  rw [if_neg (by simpa using filled)]
  refine withoutOverlaps_eq ?_ fun position member => ?_
  · refine List.Pairwise.imp_of_mem ?_
      (List.Pairwise.filter _ List.pairwise_lt_range')
    intro first second here there order
    have left := codeAt_word_iff.mp (List.mem_filter.mp here).2
    have right := codeAt_word_iff.mp (List.mem_filter.mp there).2
    exact apart_of_codeAt good left right order
  · exact (mem_positions.mp (List.mem_filter.mp member).1).1

/-- The occurrences of a word are the places in the range where it stands in
code. -/
theorem mem_occurrences {text : String} (good : isWord text.toList)
    {range : Span} {position : Nat} :
    position ∈ source.occurrences text range ↔
      range.start ≤ position ∧ position + text.toList.length ≤ range.stop ∧
        CodeAt source text.toList position := by
  have filled := Words.filled good
  have length := List.length_pos_of_ne_nil filled
  rw [occurrences_eq good, List.mem_filter, codeAt_word_iff, mem_positions]
  constructor
  · rintro ⟨⟨lower, upper⟩, stands⟩
    exact ⟨lower, by omega, stands⟩
  · rintro ⟨lower, upper, stands⟩
    have last := stands _ _ (List.getElem?_eq_getElem
      (Nat.sub_lt length Nat.one_pos))
    have inside := lt_size_of_codeAt last
    exact ⟨⟨lower, by omega⟩, stands⟩

theorem occurrences_ascend {text : String} (good : isWord text.toList)
    (range : Span) :
    (source.occurrences text range).Pairwise (· < ·) := by
  rw [occurrences_eq good]
  exact List.Pairwise.filter _ List.pairwise_lt_range'

end

end PackageLayers.Source

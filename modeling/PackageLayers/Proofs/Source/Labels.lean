/-
Purpose: Labels of arguments before and after an insertion.
Main exports: labelAt_eq_some, Insertion.Seam.label_shift, label_of_first
-/
import PackageLayers.Proofs.Source.Seam

namespace PackageLayers.Source

/-!
A label is a name directly inside of parentheses.  As it starts in code it is
code as a whole, and so is the colon after it.
-/

theorem findSome_congr {α β : Type} {items : List α} {f g : α → Option β}
    (same : ∀ item ∈ items, f item = g item) :
    items.findSome? f = items.findSome? g := by
  rw [← List.head?_filterMap, ← List.head?_filterMap, List.filterMap_congr same]

section

variable {source : Source}

/-! ### Code that goes on -/

theorem cell_of_charAt {position : Nat} {c : Char}
    (here : source.charAt? position = some c) :
    ∃ cls, source.cells[position]? = some ⟨some c, cls⟩ := by
  rw [charAt?, Option.bind_eq_some_iff] at here
  obtain ⟨⟨char, cls⟩, found, same⟩ := here
  simp only at same
  exact ⟨cls, by rw [found, same]⟩

theorem cell_of_codeAt_none {position : Nat} {c : Char} {cls : CharClass}
    (here : source.cells[position]? = some ⟨some c, cls⟩)
    (other : source.codeAt? position ≠ some c) : cls ≠ .code := by
  rintro rfl
  exact other (by simp [codeAt?, here])

/-- A character after code is code unless it is an edge. -/
theorem Regular.code_ahead (regular : Regular source) {position : Nat}
    {c d : Char} (code : source.codeAt? position = some c)
    (next : source.charAt? (position + 1) = some d) (plain : isEdge d = false) :
    source.codeAt? (position + 1) = some d := by
  by_contra other
  obtain ⟨cls, there⟩ := cell_of_charAt next
  have here := codeAt_eq_some code
  have away := cell_of_codeAt_none there other
  cases cls with
  | code => exact away rfl
  | comment =>
      have slash := regular.enterComment _ _ _ here there (by simp) rfl
      cases slash
      cases plain
  | literal =>
      obtain ⟨e, same, mark⟩ :=
        regular.enterLiteral _ _ _ here there (by simp) rfl
      cases same
      rw [isEdge_of_isMark mark] at plain
      cases plain

/-- A character before code is code if it is no edge and the code is no line
break. -/
theorem Regular.code_behind (regular : Regular source) {position : Nat}
    {c d : Char} (code : source.codeAt? (position + 1) = some c)
    (before : source.charAt? position = some d) (plain : isEdge d = false)
    (inner : c ≠ '\n') : source.codeAt? position = some d := by
  by_contra other
  obtain ⟨cls, here⟩ := cell_of_charAt before
  have there := codeAt_eq_some code
  rcases regular.enterCode _ _ _ here there
    (cell_of_codeAt_none here other) rfl with ⟨e, same, edge⟩ | lineBreak
  · cases same
    rw [edge] at plain
    cases plain
  · exact inner (Option.some.inj lineBreak)

theorem not_isEdge_of_isNameChar {c : Char} (name : isNameChar c) :
    isEdge c = false := by
  cases edge : isEdge c with
  | false => rfl
  | true =>
      simp only [isEdge, Bool.or_eq_true, decide_eq_true_eq] at edge
      rcases edge with (rfl | rfl) | rfl <;> cases name

/-- A name that starts in code is code as a whole. -/
theorem Regular.code_of_stands (regular : Regular source) {word : List Char}
    (names : word.all isNameChar) {position : Nat} {c : Char}
    (code : source.codeAt? position = some c)
    (stands : StandsAt source word position) : CodeAt source word position := by
  intro index
  induction index with
  | zero =>
      intro d here
      have char := stands 0 d here
      rw [Nat.add_zero] at char ⊢
      rw [charAt_of_codeAt code] at char
      rw [code, char]
  | succ index inductionHypothesis =>
      intro d here
      have inside := (List.getElem?_eq_some_iff.mp here).1
      have previous := inductionHypothesis _
        (List.getElem?_eq_getElem (by omega : index < word.length))
      rw [List.all_eq_true] at names
      exact regular.code_ahead previous (stands (index + 1) d here)
        (not_isEdge_of_isNameChar (names d (List.mem_of_getElem? here)))

/-- Behind code no literal starts before something significant. -/
theorem Regular.outside_ahead (regular : Regular source) {position : Nat}
    {c : Char} (code : source.codeAt? position = some c) {gap : Nat}
    (clear : ∀ other, position < other → other ≤ position + gap →
      source.isSignificant other = false) {cell : Cell}
    (here : source.cells[position + gap]? = some cell) :
    cell.cls ≠ .literal := by
  induction gap generalizing cell with
  | zero =>
      rw [Nat.add_zero, codeAt_eq_some code] at here
      cases here
      simp
  | succ gap inductionHypothesis =>
      intro literal
      have inside := (Array.getElem?_eq_some_iff.mp here).1
      have previous := Array.getElem?_eq_getElem
        (by omega : position + gap < source.cells.size)
      have outside := inductionHypothesis
        (fun other above below => clear other above (by omega)) previous
      obtain ⟨d, same, mark⟩ :=
        regular.enterLiteral _ _ _ previous here outside literal
      have none := clear (position + (gap + 1)) (by omega) (Nat.le_refl _)
      rw [isSignificant, here] at none
      simp only [isMark, Bool.or_eq_true, decide_eq_true_eq] at mark
      rcases mark with rfl | rfl <;> simp [literal, same, isSpace] at none

/-- What follows code next is code unless it is a mark. -/
theorem Regular.code_next (regular : Regular source) {position stop next : Nat}
    {c d : Char} (code : source.codeAt? position = some c)
    (found : source.nextSignificant? (position + 1) stop = some next)
    (char : source.charAt? next = some d) (plain : isMark d = false) :
    source.codeAt? next = some d := by
  obtain ⟨lower, -, significant, clear⟩ := next_eq_some_iff.mp found
  obtain ⟨cls, here⟩ := cell_of_charAt char
  obtain ⟨gap, rfl⟩ := Nat.exists_eq_add_of_le lower
  by_contra other
  have away := cell_of_codeAt_none here other
  cases cls with
  | code => exact away rfl
  | comment => simp [isSignificant, here] at significant
  | literal =>
      have shuffle : position + 1 + gap = position + gap + 1 := by omega
      rw [shuffle] at here
      have inside := (Array.getElem?_eq_some_iff.mp here).1
      have previous := Array.getElem?_eq_getElem
        (by omega : position + gap < source.cells.size)
      have outside := regular.outside_ahead code
        (fun other above below => clear other above (by omega)) previous
      obtain ⟨e, same, mark⟩ :=
        regular.enterLiteral _ _ _ previous here outside rfl
      cases same
      rw [mark] at plain
      cases plain

/-! ### Directly inside of brackets -/

theorem mem_depthZero {depth position : Nat} {code : Marked} :
    position ∈ depthZero depth code ↔
      ∃ before c rest, code = before ++ (position, c) :: rest ∧
        depthThrough depth (Marked.chars before) = 0 ∧ isClosing c = false := by
  induction code generalizing depth with
  | nil => simp [depthZero]
  | cons entry code inductionHypothesis =>
      obtain ⟨place, d⟩ := entry
      have later : position ∈ depthZero (depthAfter depth d) code ↔
          ∃ before c rest, (place, d) :: code =
            (place, d) :: before ++ (position, c) :: rest ∧
            depthThrough depth (Marked.chars ((place, d) :: before)) = 0 ∧
            isClosing c = false := by
        rw [inductionHypothesis]
        simp only [List.cons_append, List.cons.injEq, true_and]
        rfl
      simp only [depthZero]
      constructor
      · intro member
        split at member
        · rename_i here
          rcases List.mem_cons.mp member with rfl | found
          · exact ⟨[], d, code, rfl, here.1, by simpa using here.2⟩
          · obtain ⟨before, c, rest, whole, level⟩ := later.mp found
            exact ⟨_, c, rest, whole, level⟩
        · obtain ⟨before, c, rest, whole, level⟩ := later.mp member
          exact ⟨_, c, rest, whole, level⟩
      · rintro ⟨before, c, rest, whole, level, side⟩
        cases before with
        | nil =>
            rw [List.nil_append] at whole
            cases whole
            rw [if_pos ⟨level, by simpa using side⟩]
            exact List.mem_cons_self
        | cons head before =>
            rw [List.cons_append] at whole
            cases whole
            have found := later.mpr ⟨before, c, rest, rfl, level, side⟩
            split
            · exact List.mem_cons_of_mem _ found
            · exact found

/-- What stands directly inside of brackets. -/
theorem mem_topLevel {span : Span} {position : Nat} :
    position ∈ source.topLevel span ↔
      span.start < position ∧ position < span.stop ∧
        depthThrough 0 (Marked.chars
          (source.codeChars (span.start + 1) position)) = 0 ∧
        ∃ c, source.codeAt? position = some c ∧ isClosing c = false := by
  rw [topLevel, mem_depthZero]
  constructor
  · rintro ⟨before, c, rest, whole, level, side⟩
    have member : (position, c) ∈
        source.codeChars (span.start + 1) span.stop := by
      rw [whole]
      simp
    obtain ⟨lower, upper, code⟩ := mem_codeChars.mp member
    rw [(codeChars_split whole).1] at level
    exact ⟨lower, upper, level, c, code, side⟩
  · rintro ⟨lower, upper, level, c, code, side⟩
    refine ⟨source.codeChars (span.start + 1) position, c,
      source.codeChars (position + 1) span.stop, ?_, level, side⟩
    rw [← codeChars_cons upper code]
    exact codeChars_append lower (Nat.le_of_lt upper)

/-- The characters of code at some positions. -/
def charsAt (source : Source) (places : List Nat) : Marked :=
  places.filterMap fun position =>
    (source.codeAt? position).map fun c => (position, c)

theorem codeChars_eq (source : Source) (start stop : Nat) :
    source.codeChars start stop =
      source.charsAt (positions start (min stop source.size)) := rfl

theorem charsAt_cons (source : Source) (place : Nat) (rest : List Nat) :
    source.charsAt (place :: rest) =
      ((source.codeAt? place).map fun c => (place, c)).toList ++
        source.charsAt rest := by
  rw [charsAt, List.filterMap_cons]
  cases source.codeAt? place <;> rfl

theorem codeAt_eq_none {position : Nat}
    (other : source.isCode position = false ∨ source.charAt? position = none) :
    source.codeAt? position = none := by
  rw [Option.eq_none_iff_forall_ne_some]
  intro c here
  obtain ⟨char, code⟩ := codeAt_iff.mp here
  rcases other with hidden | inner
  · rw [code] at hidden
    cases hidden
  · rw [char] at inner
    cases inner

/-- One step of the walk over positions: what is not the start of a character
changes nothing. -/
theorem levelPositions_cons (source : Source) (depth place : Nat) (rest : List Nat) :
    source.levelPositions depth (place :: rest) =
      (if source.isCode place ∧ depth = 0 ∧
          (source.charAt? place).any isClosing = false then [place] else []) ++
        source.levelPositions
          (depthThrough depth (Marked.chars (source.charsAt [place]))) rest := by
  rw [charsAt_cons]
  cases code : source.isCode place with
  | false =>
      rw [codeAt_eq_none (Or.inl code)]
      simp [levelPositions, code, charsAt, Marked.chars, depthThrough]
  | true =>
      cases char : source.charAt? place with
      | none =>
          rw [codeAt_eq_none (Or.inr char)]
          by_cases zero : depth = 0 <;>
            simp [levelPositions, code, char, charsAt, Marked.chars, depthThrough,
              zero]
      | some c =>
          rw [codeAt_iff.mpr ⟨char, code⟩]
          by_cases inside : depth = 0 ∧ isClosing c = false <;>
            simp [levelPositions, code, char, charsAt, Marked.chars, depthThrough,
              inside]

theorem mem_levelPositions {depth position : Nat} {places : List Nat} :
    position ∈ source.levelPositions depth places ↔
      ∃ before rest, places = before ++ position :: rest ∧ source.isCode position ∧
        depthThrough depth (Marked.chars (source.charsAt before)) = 0 ∧
        (source.charAt? position).any isClosing = false := by
  induction places generalizing depth with
  | nil => simp [levelPositions]
  | cons place places inductionHypothesis =>
      have depths (before : List Nat) :
          depthThrough (depthThrough depth (Marked.chars (source.charsAt [place])))
              (Marked.chars (source.charsAt before)) =
            depthThrough depth (Marked.chars (source.charsAt (place :: before))) := by
        rw [← depthThrough_append, ← Marked.chars_append, charsAt_cons _ place before,
          charsAt_cons]
        simp [charsAt]
      rw [levelPositions_cons, List.mem_append, inductionHypothesis]
      constructor
      · rintro (here | ⟨before, rest, rfl, code, level, side⟩)
        · split at here
          · rename_i holds
            obtain rfl := List.mem_singleton.mp here
            exact ⟨[], places, rfl, holds.1, holds.2.1, holds.2.2⟩
          · cases here
        · exact ⟨place :: before, rest, rfl, code, depths before ▸ level, side⟩
      · rintro ⟨before, rest, whole, code, level, side⟩
        cases before with
        | nil =>
            cases whole
            rw [if_pos ⟨code, level, side⟩]
            exact Or.inl List.mem_cons_self
        | cons first before =>
            cases whole
            exact Or.inr ⟨before, rest, rfl, code, (depths before).trans level, side⟩

theorem lt_size_of_isCode {position : Nat} (code : source.isCode position) : position < source.size := by
  rw [isCode, beq_iff_eq, classAt?, Option.map_eq_some_iff] at code
  obtain ⟨cell, here, -⟩ := code
  exact (Array.getElem?_eq_some_iff.mp here).1

/-- The positions directly inside of brackets are those of code before which the
depth is zero, closing brackets left out. -/
theorem mem_innerPositions {span : Span} {position : Nat} :
    position ∈ source.innerPositions span ↔
      span.start < position ∧ position < span.stop ∧ source.isCode position ∧
        depthThrough 0 (Marked.chars
          (source.codeChars (span.start + 1) position)) = 0 ∧
        (source.charAt? position).any isClosing = false := by
  rw [innerPositions, mem_levelPositions]
  constructor
  · rintro ⟨before, rest, split, code, level, side⟩
    obtain ⟨lower, upper, rfl⟩ := positions_eq_append split
    rw [codeChars_eq, Nat.min_eq_left (by omega : position ≤ source.size)]
    exact ⟨lower, by omega, code, level, side⟩
  · rintro ⟨lower, upper, code, level, side⟩
    have inside : position < source.size := lt_size_of_isCode code
    rw [codeChars_eq, Nat.min_eq_left (Nat.le_of_lt inside)] at level
    refine ⟨_, positions (position + 1) (min span.stop source.size), ?_, code, level,
      side⟩
    have upper' : position ≤ min span.stop source.size := by omega
    rw [positions_append lower upper']
    congr 1
    rw [positions, positions, ← List.range'_succ]
    congr 1
    omega

/-- A search that finds nothing inside of characters only looks at where they
start. -/
theorem findSome_levelPositions {α : Type} {f : Nat → Option α}
    (inner : ∀ position, source.isCode position → source.charAt? position = none →
      f position = none) (depth : Nat) (places : List Nat) :
    (source.levelPositions depth places).findSome? f =
      (depthZero depth (source.charsAt places)).findSome? f := by
  induction places generalizing depth with
  | nil => rfl
  | cons place places inductionHypothesis =>
      rw [levelPositions_cons, List.findSome?_append, inductionHypothesis,
        charsAt_cons source place places, depthZero_append, List.findSome?_append]
      have same : Marked.chars ((source.codeAt? place).map fun c => (place, c)).toList =
          Marked.chars (source.charsAt [place]) := by
        rw [charsAt_cons]
        simp [charsAt]
      rw [same]
      congr 1
      cases here : source.codeAt? place with
      | none =>
          have apart : source.isCode place → source.charAt? place = none := by
            intro code
            rw [Option.eq_none_iff_forall_ne_some]
            intro c char
            rw [codeAt_iff.mpr ⟨char, code⟩] at here
            cases here
          split
          · rename_i holds
            simp [inner place holds.1 (apart holds.1), depthZero]
          · rfl
      | some c =>
          obtain ⟨char, code⟩ := codeAt_iff.mp here
          by_cases inside : depth = 0 ∧ isClosing c = false <;>
            simp [char, code, depthZero, inside]

/-! ### Labels -/

theorem charAt_of_matchesAt {print : List (Option Char)} {position : Nat} {c : Char}
    (matched : source.matchesAt (some c :: print) position) :
    source.charAt? position = some c := by
  rw [matchesAt, beq_iff_eq] at matched
  have first := congrArg (·[0]?) matched
  simp only [List.getElem?_map, Array.getElem?_toList, Array.getElem?_extract,
    Nat.add_zero, List.length_cons, List.getElem?_cons_zero] at first
  split at first
  · obtain ⟨cell, here, char⟩ := Option.map_eq_some_iff.mp first
    rw [charAt?, here, Option.bind_some, char]
  · cases first

/-- No label stands inside of a character: its name does not start there, and one
without a name would have its colon there. -/
theorem labelAt_inner {span : Span} {label : String} {position : Nat}
    (code : source.isCode position) (inner : source.charAt? position = none) :
    source.labelAt? span (footprint label) position = none := by
  have significant : source.isSignificant position := by
    rw [isCode, beq_iff_eq, classAt?, Option.map_eq_some_iff] at code
    obtain ⟨cell, here, cls⟩ := code
    rw [charAt?, here, Option.bind_some] at inner
    simp [isSignificant, here, cls, inner]
  rw [Option.eq_none_iff_forall_ne_some]
  intro after found
  cases chars : label.toList with
  | cons c rest =>
      have print : footprint label =
          some c :: (List.replicate (c.utf8Size - 1) none ++
            rest.flatMap fun c => some c :: List.replicate (c.utf8Size - 1) none) := by
        rw [footprint, chars]
        rfl
      rw [labelAt?, print] at found
      split at found
      · cases found
      · rename_i fits
        rw [Bool.or_eq_true, not_or, Bool.not_eq_true', Bool.not_eq_false] at fits
        rw [charAt_of_matchesAt fits.2] at inner
        cases inner
  | nil =>
      have print : footprint label = [] := by
        rw [footprint, chars]
        rfl
      simp only [labelAt?, print, List.length_nil, Nat.add_zero] at found
      repeat' split at found
      all_goals try cases found
      rename_i colon next char
      obtain ⟨lower, -, -, clear⟩ := next_eq_some_iff.mp next
      obtain rfl : position = colon := by
        by_contra apart
        rw [clear position (Nat.le_refl _) (by omega)] at significant
        cases significant
      rw [inner] at char
      cases char

/-- A label is looked for at the characters directly inside of its parentheses. -/
theorem label_eq (source : Source) (span : Span) (label : String) :
    source.label? span label =
      (source.topLevel span).findSome? (source.labelAt? span (footprint label)) :=
  findSome_levelPositions (fun _ => labelAt_inner) 0 _

/-- A label stands at a position, with its colon before the end of its
parentheses. -/
structure Labelled (source : Source) (stop : Nat) (word : List Char)
    (position colon : Nat) : Prop where
  stands : StandsAt source word position
  starts : source.isNameAt (position - 1) = false
  ends : source.isNameAt (position + word.length) = false
  next : source.nextSignificant? (position + word.length) stop = some colon
  char : source.charAt? colon = some ':'

theorem labelAt_eq_some {span : Span} {word : List Char} {position after : Nat}
    (positive : 0 < position) :
    source.labelAt? span (word.map some) position = some after ↔
      ∃ colon, Labelled source span.stop word position colon ∧
        after = colon + 1 := by
  simp only [labelAt?, List.length_map, positive, decide_true, Bool.true_and]
  constructor
  · intro found
    split at found
    · cases found
    · rename_i inside
      rw [Bool.or_eq_true, not_or, Bool.not_eq_true', Bool.not_eq_false,
        decide_eq_true_eq, matchesAt_iff] at inside
      split at found
      · cases found
      · rename_i starts
        split at found
        · cases found
        · rename_i ends
          split at found
          · rename_i colon next
            split at found
            · rename_i char
              have bound := next_eq_some_iff.mp next
              have order : position + word.length < span.stop := by omega
              rw [decide_eq_true order, Bool.true_and] at ends
              exact ⟨colon, ⟨inside.2, by simpa using starts, by simpa using ends,
                next, char⟩, (Option.some.inj found).symm⟩
            · cases found
          · cases found
  · rintro ⟨colon, labelled, rfl⟩
    have bound := next_eq_some_iff.mp labelled.next
    have order : position + word.length < span.stop := by omega
    have stands := matchesAt_iff.mpr labelled.stands
    rw [if_neg (by simp [stands]; omega), labelled.starts, labelled.ends,
      labelled.next]
    simp [labelled.char]

end

/-- Whether a text is a name. -/
def isName (text : String) : Bool :=
  text.toList.all isNameChar && !text.toList.isEmpty

theorem names_of_isName {text : String} (name : isName text) :
    text.toList.all isNameChar ∧ text.toList ≠ [] := by
  simpa [isName] using name

namespace Insertion

/-- The fragment does not have a label directly inside of some parentheses. -/
def Keeps (insertion : Insertion) (span : Span) (label : String) : Prop :=
  insertion.Deep span ∨ ∀ index, ¬CodeAt insertion.fragment label.toList index

namespace Seam

variable {insertion : Insertion} {word : List Char}

/-- A label stands where it stood. -/
theorem labelled_shift (seam : insertion.Seam) (names : word.all isNameChar)
    (filled : word ≠ []) {stop position : Nat} {c : Char}
    (code : insertion.source.codeAt? position = some c)
    (positive : 0 < position) {colon : Nat} :
    Labelled insertion.result (insertion.shift stop) word
        (insertion.shift position) colon ↔
      ∃ old, Labelled insertion.source stop word position old ∧
        colon = insertion.shift old := by
  have run := isRun_of_names names
  have length := List.length_pos_of_ne_nil filled
  have last := List.getElem?_eq_getElem (Nat.sub_lt length Nat.one_pos)
  have final : position + word.length = position + (word.length - 1) + 1 := by
    omega
  have ends (stands : StandsAt insertion.source word position) :
      (∀ d, insertion.source.charAt? position = some d → isNameChar d) ∧
      ∃ d, insertion.source.codeAt? (position + (word.length - 1)) = some d ∧
        isNameChar d ∧ insertion.shift position + word.length =
          insertion.shift (position + (word.length - 1)) + 1 := by
    have all := seam.regular.code_of_stands names code stands
    rw [List.all_eq_true] at names
    refine ⟨fun d here => ?_, _, all _ _ last,
      names _ (List.mem_of_getElem? last),
      shift_end filled (seam.apart_of_stands run stands)⟩
    have first := stands 0 _ (List.getElem?_eq_getElem length)
    rw [Nat.add_zero, here] at first
    rw [Option.some.inj first]
    exact names _ (List.getElem_mem length)
  constructor
  · intro labelled
    have stands := (seam.stands_shift run position).mp labelled.stands
    obtain ⟨first, d, here, name, shifted⟩ := ends stands
    obtain ⟨e, start, -⟩ : ∃ e, insertion.source.charAt? position = some e ∧
        insertion.source.codeAt? position = some e :=
      ⟨c, charAt_of_codeAt code, code⟩
    have starts := labelled.starts
    rw [seam.isNameAt_before positive
      (isNameAt_iff.mpr ⟨e, start, first e start⟩)] at starts
    have behind := labelled.ends
    rw [shifted, seam.isNameAt_after
      (isNameAt_iff.mpr ⟨d, charAt_of_codeAt here, name⟩), ← final] at behind
    have next := labelled.next
    rw [shifted] at next
    rcases @Insertion.Seam.next_asked _ seam _ stop _ here
        (by simp [asksAhead, name]) with
      same | ⟨⟨other, f, found, other_code, quiet⟩, -⟩
    · rw [same, ← final, Option.map_eq_some_iff] at next
      obtain ⟨old, next, rfl⟩ := next
      have char := labelled.char
      rw [charAt_shift] at char
      exact ⟨old, ⟨stands, starts, behind, next, char⟩, rfl⟩
    · rw [found] at next
      cases next
      have char := labelled.char
      rw [charAt_of_codeAt other_code] at char
      exact absurd (Option.some.inj char) (not_answersAhead quiet).2.1
  · rintro ⟨old, labelled, rfl⟩
    obtain ⟨first, d, here, name, shifted⟩ := ends labelled.stands
    have start := charAt_of_codeAt code
    refine ⟨(seam.stands_shift run position).mpr labelled.stands, ?_, ?_, ?_, ?_⟩
    · rw [seam.isNameAt_before positive
        (isNameAt_iff.mpr ⟨c, start, first c start⟩)]
      exact labelled.starts
    · rw [shifted, seam.isNameAt_after
        (isNameAt_iff.mpr ⟨d, charAt_of_codeAt here, name⟩), ← final]
      exact labelled.ends
    · rw [shifted]
      have next := labelled.next
      rw [final] at next
      rcases @Insertion.Seam.next_asked _ seam _ stop _ here
          (by simp [asksAhead, name]) with
        same | ⟨-, none⟩
      · rw [same, next, Option.map_some]
      · obtain ⟨f, other_code, quiet⟩ := none old next
        have char := labelled.char
        rw [charAt_of_codeAt other_code] at char
        exact absurd (Option.some.inj char) (not_answersAhead quiet).2.1
    · rw [charAt_shift]
      exact labelled.char

theorem labelAt_shift (seam : insertion.Seam) (names : word.all isNameChar)
    (filled : word ≠ []) {span : Span} {position : Nat} {c : Char}
    (code : insertion.source.codeAt? position = some c)
    (positive : 0 < position) :
    insertion.result.labelAt? (insertion.pair span) (word.map some)
        (insertion.shift position) =
      (insertion.source.labelAt? span (word.map some) position).map
        insertion.after := by
  have positive' : 0 < insertion.shift position := by
    rw [← insertion.shift_zero, shift_lt_iff]
    exact positive
  refine Option.ext fun found => ?_
  rw [labelAt_eq_some positive', Option.map_eq_some_iff]
  simp only [pair, seam.labelled_shift names filled code positive,
    labelAt_eq_some positive]
  constructor
  · rintro ⟨colon, ⟨old, labelled, rfl⟩, rfl⟩
    exact ⟨old + 1, ⟨old, labelled, rfl⟩, rfl⟩
  · rintro ⟨after, ⟨old, labelled, rfl⟩, rfl⟩
    exact ⟨_, ⟨old, labelled, rfl⟩, rfl⟩

/-- A label that is not in the fragment does not stand there. -/
theorem labelAt_place (seam : insertion.Seam) (names : word.all isNameChar)
    (absent : ∀ index, ¬CodeAt insertion.fragment word index)
    {span : Span} {index : Nat} {c : Char}
    (code : insertion.fragment.codeAt? index = some c) :
    insertion.result.labelAt? span (word.map some) (insertion.place + index) =
      none := by
  have inner : index < insertion.width := lt_size_of_codeAt code
  rw [Option.eq_none_iff_forall_ne_some]
  intro after found
  obtain ⟨colon, labelled, -⟩ := (labelAt_eq_some
    (by have positive := insertion.positive; omega)).mp found
  have run := isRun_of_names names
  have short := seam.inside_of_stands run inner labelled.stands
  refine absent index (seam.fragmentRegular.code_of_stands names code ?_)
  intro offset d here
  have inside := (List.getElem?_eq_some_iff.mp here).1
  rw [← insertion.charAt_place (by omega), ← Nat.add_assoc]
  exact labelled.stands offset d here

/-- The first argument with a label moves, unless the fragment has the label
directly inside of the same parentheses. -/
theorem label_shift (seam : insertion.Seam) {label : String}
    (name : isName label) {span : Span} (order : span.start < span.stop)
    (keeps : insertion.Keeps span label) :
    insertion.result.label? (insertion.pair span) label =
      (insertion.source.label? span label).map insertion.after := by
  obtain ⟨names, filled⟩ := names_of_isName name
  rw [label_eq, label_eq, footprint_of_names names]
  have moved (positions : List Nat)
      (all : ∀ position ∈ positions, position ∈ insertion.source.topLevel span) :
      (positions.map insertion.shift).findSome?
          (insertion.result.labelAt? (insertion.pair span)
            (label.toList.map some)) =
        (positions.findSome? (insertion.source.labelAt? span
          (label.toList.map some))).map insertion.after := by
    rw [List.findSome?_map, List.map_findSome?]
    refine findSome_congr fun position member => ?_
    obtain ⟨lower, -, -, c, code, -⟩ := mem_topLevel.mp (all position member)
    exact seam.labelAt_shift names filled code (by omega)
  by_cases around : span.start < insertion.place ∧ insertion.place ≤ span.stop ∧
      ∀ index, ¬CodeAt insertion.fragment label.toList index
  · obtain ⟨early, late, whole, -, wider⟩ :=
      topLevel_around around.1 around.2.1 seam.balanced
    have none : (depthZero (insertion.depth span) insertion.inner).findSome?
        (insertion.result.labelAt? (insertion.pair span)
          (label.toList.map some)) = none := by
      rw [List.findSome?_eq_none_iff]
      intro position member
      obtain ⟨before, c, rest, split, -⟩ := mem_depthZero.mp member
      have entry : (position, c) ∈ insertion.inner := by
        rw [split]
        simp
      obtain ⟨index, -, code, rfl⟩ := insertion.mem_inner.mp entry
      exact seam.labelAt_place names around.2.2 code
    rw [wider, List.findSome?_append, List.findSome?_append, none, Option.none_or,
      moved early (by rw [whole]; simp +contextual),
      moved late (by rw [whole]; simp +contextual), whole, List.findSome?_append,
      Option.map_or]
  · have deep : insertion.Deep span := by
      rcases keeps with deep | absent
      · exact deep
      · by_contra shallow
        refine around ⟨?_, ?_, absent⟩
        · by_contra late
          exact shallow (Or.inl (by omega))
        · by_contra early
          exact shallow (Or.inr (Or.inl (by omega)))
    rw [topLevel_shift order seam.balanced deep]
    exact moved _ fun position member => member

end Seam

end Insertion

/-- The first argument with a label, and its colon. -/
theorem label_eq_some {source : Source} {span : Span} {label : String}
    (names : label.toList.all isNameChar) {after : Nat}
    (found : source.label? span label = some after) :
    ∃ position c colon, position ∈ source.topLevel span ∧
      source.codeAt? position = some c ∧
      Labelled source span.stop label.toList position colon ∧
      after = colon + 1 := by
  rw [label_eq, footprint_of_names names] at found
  obtain ⟨position, member, here⟩ := List.exists_of_findSome?_eq_some found
  obtain ⟨lower, -, -, c, code, -⟩ := mem_topLevel.mp member
  obtain ⟨colon, labelled, same⟩ := (labelAt_eq_some (by omega)).mp here
  exact ⟨position, c, colon, member, code, labelled, same⟩

theorem depthZero_sublist (depth : Nat) (code : Marked) :
    (depthZero depth code).Sublist (code.map Prod.fst) := by
  induction code generalizing depth with
  | nil => exact List.Sublist.refl _
  | cons entry code inductionHypothesis =>
      rw [depthZero, List.map_cons]
      split
      · exact (inductionHypothesis _).cons_cons _
      · exact (inductionHypothesis _).cons _

theorem topLevel_ascends (source : Source) (span : Span) :
    (source.topLevel span).Pairwise (· < ·) := by
  refine List.Pairwise.sublist (depthZero_sublist 0 _) ?_
  exact List.pairwise_map.mpr (codeChars_ascends (span.start + 1) span.stop)

/-- A label directly inside of parentheses is found unless an equal one stands
before it. -/
theorem label_of_first {source : Source} {span : Span} {label : String}
    (name : isName label) {position colon : Nat}
    (member : position ∈ source.topLevel span)
    (labelled : Labelled source span.stop label.toList position colon)
    (first : ∀ other ∈ source.topLevel span, other < position →
      source.labelAt? span (label.toList.map some) other = none) :
    source.label? span label = some (colon + 1) := by
  have ascends := topLevel_ascends source span
  have positive : 0 < position := by
    have lower := (mem_topLevel.mp member).1
    omega
  obtain ⟨left, right, split⟩ := List.mem_iff_append.mp member
  rw [split, List.pairwise_append] at ascends
  have none : left.findSome?
      (source.labelAt? span (label.toList.map some)) = none := by
    rw [List.findSome?_eq_none_iff]
    intro other here
    refine first other ?_ (ascends.2.2 other here position List.mem_cons_self)
    rw [split]
    exact List.mem_append_left _ here
  rw [label_eq, footprint_of_names (names_of_isName name).1, split,
    List.findSome?_append, none, Option.none_or, List.findSome?_cons,
    (labelAt_eq_some positive).mpr ⟨colon, labelled, rfl⟩]

end PackageLayers.Source

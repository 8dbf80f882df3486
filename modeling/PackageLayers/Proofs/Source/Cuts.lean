/-
Purpose: What stands on the two sides of a cut through a text, and what stays as it is
when code is put in there.
Main exports: Cut.pos_iff, Cut.lt_size_iff, Cut.outside, Cut.cell,
  Cut.plain_behind, cut_behind_last, Cut.code_next, Cut.undisturbed
-/
import PackageLayers.Proofs.Source.Elements

namespace PackageLayers.Source

/-!
A cut outside of literals has every literal on one side.  What follows it is
classified by one step, so a mark that follows it is never overlooked.

Code that is put in at a cut disturbs nothing: both sides and the code keep their
classes and their literals, as long as no comment and no delimiter starts where they
meet.
-/

namespace Cut

variable {text : String} {position : Nat} {before after : List Char}
  {middle : Mode}

/-- A cut with something before it is behind the start. -/
theorem pos_iff (cut : Cut text.toList position before after middle) :
    0 < position ↔ before ≠ [] := by
  rw [← cut.place]
  refine ⟨?_, byteLength_pos⟩
  rintro filled rfl
  exact Nat.lt_irrefl 0 filled

/-- A cut with something behind it is before the end. -/
theorem lt_size_iff (cut : Cut text.toList position before after middle) :
    position < (ofText text).size ↔ after ≠ [] := by
  rw [ofText_size, cut.parts, byteLength_append, cut.place, Nat.lt_add_right_iff_pos]
  refine ⟨?_, byteLength_pos⟩
  rintro filled rfl
  exact Nat.lt_irrefl 0 filled

/-- A cut outside of literals has every literal on one side. -/
theorem outside (cut : Cut text.toList position before after middle)
    (calm : middle.isLiteral = false) :
    ∀ literal ∈ (ofText text).literals,
      literal.stop ≤ position ∨ position ≤ literal.start := by
  obtain ⟨found, reads⟩ := cut.reads
  have place : sizeOf found = position := by
    rw [sizeOf, reads.chars_eq, cut.place]
  have rest := reads_whole middle after
  have whole : lexemes text.toList = found ++ lexemesAfter middle 0 after := by
    rw [lexemes, cut.parts, reads.lexemes]
  have early := @literal_bounds 0 0 found none (by intro _ _ same; cases same)
      (Nat.le_refl 0) reads.filled
  have late := @literal_bounds position position (lexemesAfter middle 0 after)
      none (by intro _ _ same; cases same) (Nat.le_refl position) rest.filled
  intro literal member
  rw [ofText, literalsOf, whole,
    literalsFrom_append _ (reads.carried_eq_none calm 0), Nat.zero_add, place,
    List.mem_append] at member
  rcases member with first | second
  · have bound := early literal first
    omega
  · exact Or.inr (late literal second).1

/-- What follows a cut is classified as the next lexeme. -/
theorem cell {c : Char} {rest : List Char}
    (cut : Cut text.toList position before (c :: rest) middle) :
    (ofText text).cells[position]? = some ⟨some c, (step middle c rest).cls⟩ := by
  obtain ⟨found, reads⟩ := cut.reads
  have place : sizeOf found = position := by
    rw [sizeOf, reads.chars_eq, cut.place]
  have whole : lexemes text.toList =
      found ++ lexemesAfter middle 0 (c :: rest) := by
    rw [lexemes, cut.parts, reads.lexemes]
  have first := @cell_of_lexeme found
      (lexemesAfter (step middle c rest).next (step middle c rest).more rest)
      ⟨c :: rest.take (step middle c rest).more,
      (step middle c rest).cls, (step middle c rest).role⟩ 0
      (Lexeme.size_pos (List.cons_ne_nil _ _))
  rw [Nat.add_zero, place] at first
  rw [ofText_cells, List.getElem?_toArray, whole]
  exact first

/-- In code a mark is not read as a comment. -/
theorem mark_class {c : Char} {rest : List Char} (mark : isMark c) :
    (step .code c rest).cls ≠ .comment := by
  intro comment
  have slash := (steps_step .code c rest).enter_comment comment rfl
  subst slash
  cases mark

/-- Where nothing follows but commas, no mark follows. -/
theorem plain_behind {stop : Nat}
    (cut : Cut text.toList position before after middle)
    (calm : middle = .code ∨ middle = .lineComment ∧ after.head? = some '\n')
    (only : OnlyCommas (ofText text) position stop)
    (upper : position < stop ∨ ∃ d, (ofText text).codeAt? position = some d ∧
      isMark d = false) :
    ∀ c ∈ after.head?, isMark c = false := by
  intro c head
  obtain ⟨rest, rfl⟩ : ∃ rest, after = c :: rest := by
    cases after with
    | nil => cases head
    | cons d rest =>
        cases head
        exact ⟨rest, rfl⟩
  have here := cut.cell
  rcases calm with rfl | ⟨-, lineBreak⟩
  · cases mark : isMark c with
    | false => rfl
    | true =>
        have significant : (ofText text).isSignificant position := by
          have seen : isSpace c = false := by
            simp only [isMark, Bool.or_eq_true, decide_eq_true_eq] at mark
            rcases mark with rfl | rfl <;> decide
          simp [isSignificant, here, seen, mark_class mark]
        obtain ⟨d, code, plain⟩ : ∃ d,
            (ofText text).codeAt? position = some d ∧ isMark d = false := by
          rcases upper with before | known
          · exact ⟨',', only position (Nat.le_refl _) before significant,
              by decide⟩
          · exact known
        have cell := codeAt_eq_some code
        rw [here, Option.some.injEq, Cell.mk.injEq, Option.some.injEq] at cell
        rw [cell.1, plain] at mark
        cases mark
  · rw [List.head?_cons, Option.some.injEq] at lineBreak
    subst lineBreak
    rfl

end Cut

theorem isSpace_of_isMark {c : Char} (mark : isMark c) : isSpace c = false := by
  simp only [isMark, Bool.or_eq_true, decide_eq_true_eq] at mark
  rcases mark with rfl | rfl <;> decide

/-- Literals that are closed do not end in positions that do not count. -/
theorem not_literal_of_clear {text : String} {start stop : Nat} {d : Char}
    (closed : ClosedIn (ofText text) start stop) (order : start ≤ stop)
    (code : (ofText text).codeAt? stop = some d)
    (clear : ∀ position, start ≤ position → position < stop →
      (ofText text).isSignificant position = false)
    {cell : Cell} (here : (ofText text).cells[start]? = some cell) :
    cell.cls ≠ .literal := by
  induction gap : stop - start generalizing start cell with
  | zero =>
      obtain rfl : start = stop := by omega
      rw [codeAt_eq_some code] at here
      cases here
      simp
  | succ gap inductionHypothesis =>
      intro literal
      have behind : start + 1 < (ofText text).size := by
        have bound := lt_size_of_codeAt code
        omega
      obtain ⟨next, there⟩ : ∃ next, (ofText text).cells[start + 1]? = some next :=
        ⟨_, Array.getElem?_eq_getElem behind⟩
      have other := @inductionHypothesis (start + 1)
        (closed.mono (Nat.le_succ _) (Nat.le_refl _)) (by omega)
        (fun position lower upper => clear position (by omega) upper) _ there
        (by omega)
      obtain ⟨c, char, mark⟩ := mark_of_leaving
        (closed.mono (Nat.le_refl _) (by omega)) here there literal other
      have hidden := clear start (Nat.le_refl _) (by omega)
      simp [isSignificant, here, literal, char, isSpace_of_isMark mark] at hidden

/-- The text is code behind the last position that counts before some code, unless
a literal is broken off there. -/
theorem cut_behind_last {text : String} {position stop : Nat} {d : Char}
    (closed : ClosedIn (ofText text) position stop) (order : position < stop)
    (significant : (ofText text).isSignificant position)
    (code : (ofText text).codeAt? stop = some d)
    (clear : ∀ other, position < other → other < stop →
      (ofText text).isSignificant other = false) :
    ∃ before after, Cut text.toList (position + 1) before after .code := by
  obtain ⟨cell, here⟩ : ∃ cell, (ofText text).cells[position]? = some cell :=
    ⟨_, Array.getElem?_eq_getElem (lt_size_of_isSignificant significant)⟩
  have seen : cell.cls ≠ .comment := by
    intro comment
    simp [isSignificant, here, comment] at significant
  refine cut_after_last (closed.mono (Nat.le_refl _) order) here seen
    fun next there => ?_
  have other := not_literal_of_clear (closed.mono (Nat.le_succ _) (Nat.le_refl _))
    order code clear there
  by_cases same : next.cls = cell.cls
  · right
    have kind : cell.cls = .code := by
      cases kind : cell.cls with
      | code => rfl
      | comment => exact absurd kind seen
      | literal => exact absurd (same.trans kind) other
    refine ⟨kind, ?_⟩
    rcases Nat.eq_or_lt_of_le (Nat.succ_le_of_lt order) with last | inside
    · rw [Nat.succ_eq_add_one] at last
      rw [last, codeAt_eq_some code] at there
      cases there
      rfl
    · have hidden := clear (position + 1) (Nat.lt_succ_self _) inside
      cases char : next.char? with
      | some c => rfl
      | none => simp [isSignificant, there, char, same, kind] at hidden
  · exact Or.inl same

/-- What counts next behind a cut in code is code unless it is an edge. -/
theorem Cut.code_next {text : String} {position : Nat}
    {before after : List Char} (closed : AllClosed (ofText text))
    (cut : Cut text.toList position before after .code) {next stop : Nat}
    (found : (ofText text).nextSignificant? position stop = some next) {c : Char}
    (char : (ofText text).charAt? next = some c) (plain : isEdge c = false) :
    (ofText text).codeAt? next = some c := by
  obtain ⟨lower, -, significant, clear⟩ := next_eq_some_iff.mp found
  have regular := regular_ofText closed
  -- a literal would start with a mark, which counts
  have outside (gap : Nat) (inside : position + gap ≤ next) {cell : Cell}
      (here : (ofText text).cells[position + gap]? = some cell) :
      cell.cls = .literal → ∃ d, cell.char? = some d ∧ isMark d := by
    induction gap generalizing cell with
    | zero =>
        intro literal
        cases after with
        | nil =>
            have bound := lt_size_of_isSignificant significant
            exact absurd rfl (cut.lt_size_iff.mp (lower.trans_lt bound))
        | cons d rest =>
            have known := cut.cell
            rw [Nat.add_zero] at here
            rw [here, Option.some.injEq] at known
            subst known
            exact ⟨d, rfl, (steps_step .code d rest).enter_literal literal rfl⟩
    | succ gap inductionHypothesis =>
        intro literal
        have bound := (Array.getElem?_eq_some_iff.mp here).1
        have previous := Array.getElem?_eq_getElem
          (by omega : position + gap < (ofText text).cells.size)
        refine regular.enterLiteral _ _ _ previous here (fun inside => ?_) literal
        obtain ⟨d, same, mark⟩ := inductionHypothesis (by omega) previous inside
        have hidden := clear (position + gap) (by omega) (by omega)
        rw [isSignificant, previous, Option.any_some, same] at hidden
        simp [inside, isSpace_of_isMark mark] at hidden
  obtain ⟨cls, here⟩ := cell_of_charAt char
  obtain ⟨gap, rfl⟩ := Nat.exists_eq_add_of_le lower
  cases cls with
  | code => simp [codeAt?, here]
  | comment => simp [isSignificant, here] at significant
  | literal =>
      obtain ⟨d, same, mark⟩ := outside gap (Nat.le_refl _) here rfl
      cases same
      rw [isEdge_of_isMark mark] at plain
      cases plain

/-! ### Code put in at a cut -/

/-- Two texts can meet without a comment or a delimiter starting across the border: the
first one does not end with a character that such a mark goes on from, or the second
one does not start with a character that it goes on with. -/
def IsLoose (before after : List Char) : Prop :=
  (∀ c ∈ before.getLast?, c ≠ '/' ∧ c ≠ '#' ∧ c ≠ '"') ∨
    ∀ c ∈ after.head?, c ≠ '/' ∧ c ≠ '*' ∧ c ≠ '#' ∧ c ≠ '"'

theorem IsLoose.apart {before after : List Char} (loose : IsLoose before after) :
    Apart before after := by
  intro left last right first
  rcases loose with ends | starts
  · obtain ⟨slash, hash, quote⟩ := ends left last
    simp [clashes, slash, hash, quote]
  · obtain ⟨slash, star, hash, quote⟩ := starts right first
    simp [clashes, slash, star, hash, quote]

/-- What starts with a character of no such mark meets any text. -/
theorem IsLoose.of_head {before after : List Char} {c : Char}
    (head : after.head? = some c)
    (other : c ≠ '/' ∧ c ≠ '*' ∧ c ≠ '#' ∧ c ≠ '"') : IsLoose before after := by
  refine Or.inr fun d first => ?_
  rw [head] at first
  cases first
  exact other

/-- A text with a fragment in it is read as the text and the fragment are: every
position keeps its class, no literal of the text is cut through, and the literals are
those of both, each where its text is now. -/
structure Undisturbed (text fragment : String) (place : Nat) (result : String) :
    Prop where
  before : ∀ position < place,
    (ofText result).classAt? position = (ofText text).classAt? position
  inner : ∀ index < (ofText fragment).size,
    (ofText result).classAt? (place + index) = (ofText fragment).classAt? index
  behind : ∀ position, place ≤ position →
    (ofText result).classAt? (position + (ofText fragment).size) =
      (ofText text).classAt? position
  outside : ∀ literal ∈ (ofText text).literals,
    literal.stop ≤ place ∨ place ≤ literal.start
  literals : (ofText result).literals =
    (ofText text).literals.filter (fun literal => literal.start < place) ++
      (ofText fragment).literals.map (Literal.moved place) ++
      ((ofText text).literals.filter fun literal => place ≤ literal.start).map
        (Literal.moved (ofText fragment).size)

section

variable {text fragment : String} {place : Nat} {before after : List Char}
  {middle : Mode}

/-- Code that ends as code fits in at a cut in code, and lines of it fit in behind a
line comment. -/
theorem Cut.insertable (cut : Cut text.toList place before after middle)
    (kind : middle = .code ∨ middle = .lineComment ∧
      fragment.toList.head? = some '\n' ∧ after.head? = some '\n')
    (whole : modeAfter .code 0 fragment.toList = .code)
    (left : IsLoose before fragment.toList) (right : IsLoose fragment.toList after) :
    Insertable before fragment.toList after := by
  have alone := reads_whole .code fragment.toList
  rw [whole] at alone
  obtain ⟨found, reads⟩ := cut.reads
  exact {
    place := ⟨found, middle, reads, kind⟩
    whole := ⟨_, alone, alone.follow (Or.inr ⟨rfl, right.apart⟩)⟩
    apartBefore := left.apart }

/-- Code that is put in at a cut in code, or lines of code behind a line comment,
disturb neither the text nor the code.  The literals of the code need not be closed: a
line break ends them as well. -/
theorem Cut.undisturbed (cut : Cut text.toList place before after middle)
    (kind : middle = .code ∨ middle = .lineComment ∧
      fragment.toList.head? = some '\n' ∧ after.head? = some '\n')
    (whole : modeAfter .code 0 fragment.toList = .code)
    (left : IsLoose before fragment.toList) (right : IsLoose fragment.toList after) :
    Undisturbed text fragment place
      (String.ofList (before ++ fragment.toList ++ after)) := by
  have calm : middle.isLiteral = false := by
    rcases kind with rfl | ⟨rfl, -⟩ <;> rfl
  have inside : place ≤ (ofText text).size := by
    rw [ofText_size, cut.parts, byteLength_append, cut.place]
    exact Nat.le_add_right _ _
  have joined := ofText_insert (cut.insertable kind whole left right)
  rw [← cut.parts, cut.place, String.ofList_toList, String.ofList_toList] at joined
  exact {
    before := fun position early => by
      rw [joined, classAt?, cells_insert_before inside early, classAt?]
    inner := fun index inner => by
      rw [joined, classAt?, cells_insert_inner inside inner, classAt?]
    behind := fun position late => by
      rw [joined, classAt?, cells_insert_behind inside late, classAt?]
    outside := cut.outside calm
    literals := by
      rw [joined]
      rfl }

end

/-- A line of code is put in behind a comment. -/
theorem Cut.undisturbed_behind_comment :
    Undisturbed "let a = [ // all\n]" "\n    \"C\"," 16
      "let a = [ // all\n    \"C\",\n]" := by
  have whole : modeAfter .code 0 "let a = [ // all".toList = .lineComment := by
    decide +kernel
  have alone := reads_whole .code "let a = [ // all".toList
  rw [whole] at alone
  have cut : Cut "let a = [ // all\n]".toList 16 "let a = [ // all".toList "\n]".toList
      .lineComment :=
    { parts := by decide +kernel
      place := by decide +kernel
      reads := ⟨_, alone.follow (Or.inl rfl)⟩ }
  have lineBefore : "\n    \"C\",".toList.head? = some '\n' := by decide +kernel
  have lineBehind : "\n]".toList.head? = some '\n' := by decide +kernel
  have other : '\n' ≠ '/' ∧ '\n' ≠ '*' ∧ '\n' ≠ '#' ∧ '\n' ≠ '"' := by decide
  exact cut.undisturbed (Or.inr ⟨rfl, lineBefore, lineBehind⟩) (by decide +kernel)
    (IsLoose.of_head lineBefore other) (IsLoose.of_head lineBehind other)

end PackageLayers.Source

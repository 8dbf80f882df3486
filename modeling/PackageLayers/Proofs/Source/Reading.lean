/-
Purpose: Reading a text piece by piece.
Main exports: Steps, Reads, Reads.lexemes, Reads.append, Reads.split,
  reads_whole
-/
import Mathlib.Data.Bool.AllAny
import Mathlib.Tactic.Common
import PackageLayers.Source.Lexeme

namespace PackageLayers.Source

/-!
`Reads mode chars after found last` says that the lexemes `found` are exactly
those of `chars` when `after` follows: the text is read from `mode` on, no lexeme
reaches into `after`, and `last` is what the text is inside of at the seam.
What follows is part of the judgement because a step may look at it.
-/

/-- The lexemes that cover a text exactly, with what follows it in sight. -/
inductive Reads : Mode → (chars after : List Char) → List Lexeme → Mode → Prop
  | done (mode : Mode) (after : List Char) : Reads mode [] after [] mode
  | more {mode last : Mode} {first : Char} {taken rest after : List Char}
      {now : Step} {found : List Lexeme}
      (here : step mode first (taken ++ rest ++ after) = now)
      (fits : now.more = taken.length)
      (later : Reads now.next rest after found last) :
      Reads mode (first :: (taken ++ rest)) after
        ({ chars := first :: taken, cls := now.cls, role := now.role } :: found)
        last

/-! ### Delimiters -/

namespace Delimiter

theorem quotes_pos (delimiter : Delimiter) : 0 < delimiter.quotes := by
  unfold quotes
  split <;> omega

theorem length_opener (delimiter : Delimiter) :
    delimiter.opener.length = delimiter.width := by
  simp [opener, width, Nat.add_comm]

theorem length_closer (delimiter : Delimiter) :
    delimiter.closer.length = delimiter.width := by
  simp [closer, width]

/-- Delimiters are made of number signs and quotes. -/
theorem mem_closer {delimiter : Delimiter} {c : Char}
    (member : c ∈ delimiter.closer) : c = '"' ∨ c = '#' := by
  rcases List.mem_append.mp member with quote | hash
  · exact Or.inl (List.eq_of_mem_replicate quote)
  · exact Or.inr (List.eq_of_mem_replicate hash)

/-- The number signs that a text starts with are a prefix of it. -/
theorem replicate_hash_append (chars : List Char) :
    List.replicate (chars.takeWhile (· == '#')).length '#' ++
      chars.dropWhile (· == '#') = chars := by
  have same : chars.takeWhile (· == '#') =
      List.replicate (chars.takeWhile (· == '#')).length '#' := by
    refine List.eq_replicate_iff.mpr ⟨rfl, fun c member => ?_⟩
    have holds := List.all_takeWhile (p := (· == '#')) (l := chars)
    simpa using List.all_eq_true.mp holds c member
  calc List.replicate (chars.takeWhile (· == '#')).length '#' ++
        chars.dropWhile (· == '#')
      = chars.takeWhile (· == '#') ++ chars.dropWhile (· == '#') := by
        rw [← same]
    _ = chars := List.takeWhile_append_dropWhile

/-- A text opens with the delimiter that it is found to open with. -/
theorem opener_prefix_of_ofOpening {chars : List Char} {delimiter : Delimiter}
    (opens : ofOpening? chars = some delimiter) :
    delimiter.opener <+: chars := by
  have whole := replicate_hash_append chars
  simp only [ofOpening?] at opens
  split at opens
  · rename_i triple
    obtain ⟨rest, eq⟩ := List.isPrefixOf_iff_prefix.mp triple
    cases opens
    refine ⟨rest, ?_⟩
    rw [← whole, ← eq]
    simp [opener, quotes]
  · split at opens
    · rename_i single
      obtain ⟨rest, eq⟩ := List.isPrefixOf_iff_prefix.mp single
      cases opens
      refine ⟨rest, ?_⟩
      rw [← whole, ← eq]
      simp [opener, quotes]
    · cases opens

theorem width_le_of_ofOpening {chars : List Char} {delimiter : Delimiter}
    (opens : ofOpening? chars = some delimiter) :
    delimiter.width ≤ chars.length := by
  rw [← length_opener]
  exact (opener_prefix_of_ofOpening opens).length_le

end Delimiter

/-! ### What a step can be -/

/-- The steps that can be taken, one rule for each branch of `step`. -/
inductive Steps : Mode → Char → List Char → Step → Prop
  | lineComment {rest : List Char} (next : rest.head? = some '/') :
      Steps .code '/' rest (.pair .comment .lineComment)
  | blockComment {rest : List Char} (next : rest.head? = some '*') :
      Steps .code '/' rest (.pair .comment (.blockComment 0))
  | opening {first : Char} {rest : List Char} {delimiter : Delimiter}
      (opens : Delimiter.ofOpening? (first :: rest) = some delimiter) :
      Steps .code first rest
        { more := delimiter.width - 1
          cls := .literal
          role := .opening delimiter
          next := .literal delimiter false }
  | code {first : Char} {rest : List Char}
      (opens : Delimiter.ofOpening? (first :: rest) = none) :
      Steps .code first rest (.plain .code .code)
  | endLine {rest : List Char} :
      Steps .lineComment '\n' rest (.plain .code .code)
  | inLine {first : Char} {rest : List Char} :
      Steps .lineComment first rest (.plain .comment .lineComment)
  | nest {outer : Nat} {rest : List Char} (next : rest.head? = some '*') :
      Steps (.blockComment outer) '/' rest
        (.pair .comment (.blockComment (outer + 1)))
  | endBlock {rest : List Char} (next : rest.head? = some '/') :
      Steps (.blockComment 0) '*' rest (.pair .comment .code)
  | unnest {outer : Nat} {rest : List Char} (next : rest.head? = some '/') :
      Steps (.blockComment (outer + 1)) '*' rest
        (.pair .comment (.blockComment outer))
  | inBlock {outer : Nat} {first : Char} {rest : List Char} :
      Steps (.blockComment outer) first rest
        (.plain .comment (.blockComment outer))
  | shielded {delimiter : Delimiter} {first : Char} {rest : List Char} :
      Steps (.literal delimiter true) first rest
        (.plain .literal (.literal delimiter false))
  | shield {delimiter : Delimiter} {rest : List Char} :
      Steps (.literal delimiter false) '\\' rest
        (.plain .literal (.literal delimiter true))
  | closing {delimiter : Delimiter} {first : Char} {rest : List Char}
      (closes : delimiter.closer <+: first :: rest) :
      Steps (.literal delimiter false) first rest
        { more := delimiter.width - 1
          cls := .literal
          role := .closing
          next := .code }
  | breaking {delimiter : Delimiter} {rest : List Char} :
      Steps (.literal delimiter false) '\n' rest
        { more := 0, cls := .code, role := .breaking, next := .code }
  | inLiteral {delimiter : Delimiter} {first : Char} {rest : List Char} :
      Steps (.literal delimiter false) first rest
        (.plain .literal (.literal delimiter false))

/-- Every step is taken by one of the rules. -/
theorem steps_step (mode : Mode) (first : Char) (rest : List Char) :
    Steps mode first rest (step mode first rest) := by
  cases mode with
  | code =>
      simp only [step, stepCode]
      split
      · rename_i slashes
        rw [slashes.1]
        exact Steps.lineComment slashes.2
      · split
        · rename_i star
          rw [star.1]
          exact Steps.blockComment star.2
        · split
          · rename_i opens
            exact Steps.opening opens
          · rename_i opens
            exact Steps.code opens
  | lineComment =>
      simp only [step]
      split
      · rename_i lineBreak
        rw [lineBreak]
        exact Steps.endLine
      · exact Steps.inLine
  | blockComment outer =>
      simp only [step, stepBlock]
      split
      · rename_i star
        rw [star.1]
        exact Steps.nest star.2
      · split
        · rename_i slash
          rw [slash.1]
          cases outer with
          | zero => exact Steps.endBlock slash.2
          | succ outer => exact Steps.unnest slash.2
        · exact Steps.inBlock
  | literal delimiter escaped =>
      cases escaped with
      | true => exact Steps.shielded
      | false =>
          simp only [step, stepLiteral]
          split
          · rename_i backslash
            rw [backslash.1]
            exact Steps.shield
          · split
            · rename_i closes
              exact Steps.closing (List.isPrefixOf_iff_prefix.mp closes)
            · split
              · rename_i lineBreak
                rw [lineBreak.1]
                exact Steps.breaking
              · exact Steps.inLiteral

namespace Steps

/-- No step takes more characters than there are. -/
theorem more_le {mode : Mode} {first : Char} {rest : List Char} {now : Step}
    (steps : Steps mode first rest now) : now.more ≤ rest.length := by
  have pair_le {c : Char} (head : rest.head? = some c) : 1 ≤ rest.length := by
    cases rest with
    | nil => cases head
    | cons => simp
  cases steps with
  | lineComment next => exact pair_le next
  | blockComment next => exact pair_le next
  | nest next => exact pair_le next
  | endBlock next => exact pair_le next
  | unnest next => exact pair_le next
  | opening opens =>
      have bound := Delimiter.width_le_of_ofOpening opens
      rw [List.length_cons] at bound
      exact Nat.sub_le_of_le_add bound
  | closing closes =>
      have bound := closes.length_le
      rw [Delimiter.length_closer, List.length_cons] at bound
      exact Nat.sub_le_of_le_add bound
  | code => exact Nat.zero_le _
  | endLine => exact Nat.zero_le _
  | inLine => exact Nat.zero_le _
  | inBlock => exact Nat.zero_le _
  | shielded => exact Nat.zero_le _
  | shield => exact Nat.zero_le _
  | breaking => exact Nat.zero_le _
  | inLiteral => exact Nat.zero_le _

end Steps

/-! ### What is read of a text are its lexemes -/

theorem lexemesAfter_skip (mode : Mode) (taken rest : List Char) :
    lexemesAfter mode taken.length (taken ++ rest) = lexemesAfter mode 0 rest := by
  induction taken with
  | nil => rfl
  | cons c taken inductionHypothesis =>
      simpa [lexemesAfter] using inductionHypothesis

theorem modeAfter_skip (mode : Mode) (taken rest : List Char) :
    modeAfter mode taken.length (taken ++ rest) = modeAfter mode 0 rest := by
  induction taken with
  | nil => rfl
  | cons c taken inductionHypothesis =>
      simpa [modeAfter] using inductionHypothesis

/-- A lexeme that fits is the first one. -/
theorem lexemesAfter_cons {mode : Mode} {first : Char} {taken rest : List Char}
    {now : Step} (here : step mode first (taken ++ rest) = now)
    (fits : now.more = taken.length) :
    lexemesAfter mode 0 (first :: (taken ++ rest)) =
      { chars := first :: taken, cls := now.cls, role := now.role } ::
        lexemesAfter now.next 0 rest := by
  simp only [lexemesAfter, here, fits, lexemesAfter_skip, List.take_left]

namespace Reads

/-- What is read of a text starts its lexemes, and the rest is read from where
the reading stopped. -/
theorem lexemes {mode last : Mode} {chars after : List Char}
    {found : List Lexeme} (reads : Reads mode chars after found last) :
    lexemesAfter mode 0 (chars ++ after) = found ++ lexemesAfter last 0 after := by
  induction reads with
  | done => rfl
  | more here fits later inductionHypothesis =>
      rw [List.append_assoc] at here
      rw [List.cons_append, List.append_assoc, lexemesAfter_cons here fits,
        inductionHypothesis, List.cons_append]

/-- The texts of the lexemes are the text. -/
theorem chars_eq {mode last : Mode} {chars after : List Char}
    {found : List Lexeme} (reads : Reads mode chars after found last) :
    found.flatMap Lexeme.chars = chars := by
  induction reads with
  | done => rfl
  | more here fits later inductionHypothesis =>
      simp [List.flatMap_cons, inductionHypothesis]

/-- Two pieces that are read one after the other are read together. -/
theorem append {mode middle last : Mode} {left right after : List Char}
    {found later : List Lexeme}
    (first : Reads mode left (right ++ after) found middle)
    (second : Reads middle right after later last) :
    Reads mode (left ++ right) after (found ++ later) last := by
  generalize following : right ++ after = beyond at first
  induction first with
  | done => exact second
  | @more mode last first taken rest after now found here fits later
      inductionHypothesis =>
      subst following
      rw [List.cons_append, List.append_assoc, List.cons_append]
      refine Reads.more ?_ fits (inductionHypothesis second rfl)
      simpa only [List.append_assoc] using here

/-- The place between two of its lexemes cuts a text into pieces that are read
one after the other. -/
theorem split {mode last : Mode} {chars after : List Char}
    {found : List Lexeme} (reads : Reads mode chars after found last)
    (left right : List Lexeme) (cut : found = left ++ right) :
    ∃ middle, Reads mode (left.flatMap Lexeme.chars)
        (right.flatMap Lexeme.chars ++ after) left middle ∧
      Reads middle (right.flatMap Lexeme.chars) after right last := by
  induction left generalizing mode chars found with
  | nil =>
      simp only [List.nil_append] at cut
      subst cut
      rw [reads.chars_eq]
      exact ⟨mode, Reads.done _ _, reads⟩
  | cons head left inductionHypothesis =>
      cases reads with
      | done => cases cut
      | @more _ _ first taken rest _ now found here fits later =>
          rw [List.cons_append, List.cons.injEq] at cut
          obtain ⟨rfl, rfl⟩ := cut
          obtain ⟨middle, before, behind⟩ := inductionHypothesis later rfl
          refine ⟨middle, ?_, behind⟩
          have same := later.chars_eq
          rw [List.flatMap_append] at same
          subst same
          rw [List.flatMap_cons, List.cons_append]
          refine Reads.more ?_ fits before
          simpa only [List.append_assoc] using here

end Reads

/-- Every text is read, up to its end. -/
theorem reads_whole (mode : Mode) : (chars : List Char) →
    Reads mode chars [] (lexemesAfter mode 0 chars) (modeAfter mode 0 chars)
  | [] => Reads.done mode []
  | first :: rest => by
      have bound := (steps_step mode first rest).more_le
      obtain ⟨taken, later, rfl, fits⟩ : ∃ taken later, rest = taken ++ later ∧
          (step mode first rest).more = taken.length :=
        ⟨rest.take (step mode first rest).more,
          rest.drop (step mode first rest).more,
          (List.take_append_drop _ _).symm, by simp [Nat.min_eq_left bound]⟩
      have next :=
        reads_whole (step mode first (taken ++ later)).next later
      rw [lexemesAfter_cons rfl fits]
      have mode_eq : modeAfter mode 0 (first :: (taken ++ later)) =
          modeAfter (step mode first (taken ++ later)).next 0 later := by
        simp only [modeAfter, fits, modeAfter_skip]
      rw [mode_eq]
      exact Reads.more (by rw [List.append_nil]) fits next
termination_by chars => chars.length

end PackageLayers.Source

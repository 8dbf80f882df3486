/-
Purpose: The table of string literals of a text: where they lie, how one is found by
its start, and what its value is.
Main exports: bisect?, HasExactTable, literals_exact, Written, written_of_literal,
  literal_values
-/
import Mathlib.Data.List.Pairwise
import PackageLayers.Proofs.Source.Boundaries

namespace PackageLayers.Source

/-!
The classes of positions and the table of literals are found in one reading but
written apart, and they agree: literals lie one behind the other, on characters, and
cover just what is classified as literal.  So a table of any text can be searched by
halves.

A literal consists of its opening delimiter, a body, and its closing delimiter if it
has one (`Written`).  The value is read off the whole again.  A closed literal gives
its body.  One that was broken off gives its body too, but for one case: if a
backslash protects what looks like the closing delimiter at its end, those quotes are
lost.
-/

/-! ### Order -/

/-- What ends a literal leaves none open. -/
theorem turn_of_ended {position after : Nat} {role : Role}
    {current : Option (Nat × Delimiter)} {literal : Literal}
    (ended : literal ∈ (turn position after role current).1) :
    turn position after role current = ([literal], none) := by
  cases current <;> cases role <;> simp_all [turn]

/-- Every literal stops before the next one starts. -/
theorem literalsFrom_ascend {position : Nat} {found : List Lexeme}
    {current : Option (Nat × Delimiter)}
    (filled : ∀ lexeme ∈ found, lexeme.chars ≠ []) :
    (literalsFrom position current found).Pairwise fun first second =>
      first.stop ≤ second.start := by
  induction found generalizing position current with
  | nil => cases current <;> simp [literalsFrom]
  | cons lexeme found inductionHypothesis =>
      have later := fun other member => filled other (List.mem_cons_of_mem lexeme member)
      rw [literalsFrom_cons, List.pairwise_append]
      refine ⟨?_, inductionHypothesis later, ?_⟩
      · cases current <;> cases lexeme.role <;> simp [turn]
      · -- a literal that the lexeme ends leaves none open, so the next starts later
        intro first ended second behind
        have stop := (literal_mem_turn ended).2
        rw [turn_of_ended ended] at behind
        have bound := @literal_bounds _ (position + lexeme.size) found none
          (by intro _ _ same; cases same) (Nat.le_refl _) later second behind
        omega

/-- The literals of a text lie one behind the other. -/
theorem literals_ascend (text : String) :
    (ofText text).literals.Pairwise fun first second =>
      first.start < second.start ∧ first.stop ≤ second.start := by
  have apart := @literalsFrom_ascend 0 (lexemes text.toList) none
    (reads_whole .code text.toList).filled
  refine List.Pairwise.imp_of_mem ?_ apart
  intro first second member _ order
  have filled := (literal_inside member).1
  exact ⟨by omega, order⟩

/-! ### From the opening delimiter to the end -/

/-- The closing delimiter, where a literal has one. -/
def Delimiter.ending (delimiter : Delimiter) (closed : Bool) : List Char :=
  if closed then delimiter.closer else []

/-- What opens a literal is its whole opening delimiter, after code. -/
theorem Steps.opener_eq {mode : Mode} {first : Char} {taken rest : List Char}
    {now : Step} {delimiter : Delimiter}
    (steps : Steps mode first (taken ++ rest) now) (fits : now.more = taken.length)
    (role : now.role = .opening delimiter) :
    mode = .code ∧ first :: taken = delimiter.opener ∧
      now.next = .literal delimiter false := by
  cases steps with
  | opening opens =>
      cases role
      refine ⟨rfl, ?_, rfl⟩
      have lead : delimiter.opener <+: (first :: taken) ++ rest :=
        Delimiter.opener_prefix_of_ofOpening opens
      have length : delimiter.opener.length = (first :: taken).length := by
        have positive := delimiter.quotes_pos
        simp only at fits
        rw [Delimiter.length_opener, List.length_cons, ← fits, Delimiter.width]
        omega
      exact ((List.prefix_of_prefix_length_le lead (List.prefix_append _ _)
        (Nat.le_of_eq length)).eq_of_length length).symm
  | _ => cases role

/-- How the text goes on behind the opening delimiter of a literal, or from a place
in its body: characters of the body one by one, then the closing delimiter or, where
the literal is broken off, a line break or the end of the text. -/
structure Finishes (delimiter : Delimiter) (escaped closed : Bool)
    (body after : List Char) : Prop where
  reads : ∃ found last,
    Reads (.literal delimiter escaped) body (delimiter.ending closed ++ after) found
      (.literal delimiter last) ∧
    ∀ lexeme ∈ found, lexeme.role = .plain
  broken : closed = false → after = [] ∨ after.head? = some '\n'

/-- The end of the literal. -/
theorem Finishes.nil {delimiter : Delimiter} {closed : Bool} {after : List Char}
    (escaped : Bool) (broken : closed = false → after = [] ∨ after.head? = some '\n') :
    Finishes delimiter escaped closed [] after :=
  ⟨⟨[], escaped, Reads.done _ _, List.forall_mem_nil _⟩, broken⟩

/-- A character of the body in front of the rest of it. -/
theorem Finishes.cons {delimiter : Delimiter} {escaped shielded closed : Bool}
    {first : Char} {body after : List Char}
    (here : step (.literal delimiter escaped) first
      (body ++ (delimiter.ending closed ++ after)) =
        .plain .literal (.literal delimiter shielded))
    (finishes : Finishes delimiter shielded closed body after) :
    Finishes delimiter escaped closed (first :: body) after := by
  obtain ⟨found, last, reads, plain⟩ := finishes.reads
  refine ⟨⟨_, last, @Reads.more _ _ _ [] _ _ _ _ here rfl reads, ?_⟩,
    finishes.broken⟩
  intro lexeme member
  rcases List.mem_cons.mp member with rfl | later
  · rfl
  · exact plain lexeme later

/-- A literal that is open at a position has a body and an end in the text that is
read from there on, and is the first one listed for its lexemes. -/
def IsCompleted (delimiter : Delimiter) (escaped : Bool) (chars : List Char)
    (found : List Lexeme) (position : Nat) : Prop :=
  ∃ body behind closed,
    chars = body ++ (delimiter.ending closed ++ behind) ∧
    Finishes delimiter escaped closed body behind ∧
    ∀ start opened, (literalsFrom position (some (start, opened)) found).head? =
      some ⟨start, position + byteLength (body ++ delimiter.ending closed), opened,
        closed⟩

/-- A character of the body in front of the lexemes that complete the literal. -/
theorem IsCompleted.cons {delimiter : Delimiter} {escaped shielded : Bool}
    {first : Char} {rest : List Char} {found : List Lexeme} {position : Nat}
    (here : step (.literal delimiter escaped) first rest =
      .plain .literal (.literal delimiter shielded))
    (completed : IsCompleted delimiter shielded rest found
      (position + first.utf8Size)) :
    IsCompleted delimiter escaped (first :: rest)
      (⟨[first], .literal, .plain⟩ :: found) position := by
  obtain ⟨body, behind, closed, rfl, finishes, listed⟩ := completed
  refine ⟨first :: body, behind, closed, rfl, finishes.cons here, ?_⟩
  intro start opened
  have size : Lexeme.size ⟨[first], .literal, .plain⟩ = first.utf8Size := by
    rw [Lexeme.size, byteLength, byteLength, Nat.add_zero]
  rw [literalsFrom_cons, size]
  simp only [turn, List.nil_append]
  rw [listed, List.cons_append, byteLength, Nat.add_assoc]

/-- Every literal that is open is completed, at the latest by the end of the text. -/
theorem Reads.completes {mode last : Mode} {chars after : List Char}
    {found : List Lexeme} (reads : Reads mode chars after found last)
    (whole : after = []) {delimiter : Delimiter} {escaped : Bool}
    (inside : mode = .literal delimiter escaped) (position : Nat) :
    IsCompleted delimiter escaped chars found position := by
  induction reads generalizing escaped position with
  | done mode after =>
      exact ⟨[], [], false, rfl, Finishes.nil _ fun _ => Or.inl rfl, fun _ _ => rfl⟩
  | @more mode last first taken rest after now found here fits later
      inductionHypothesis =>
      subst whole inside
      rw [List.append_nil] at here
      -- a character of the body; what is read behind it completes the literal
      have goesOn (shielded : Bool)
          (plain : now = .plain .literal (.literal delimiter shielded)) :
          IsCompleted delimiter escaped (first :: (taken ++ rest))
            (⟨first :: taken, now.cls, now.role⟩ :: found) position := by
        subst plain
        obtain rfl : taken = [] := List.length_eq_zero_iff.mp fits.symm
        exact (inductionHypothesis rfl rfl _).cons here
      have steps := here ▸ steps_step (.literal delimiter escaped) first (taken ++ rest)
      cases steps with
      | shielded => exact goesOn _ rfl
      | shield => exact goesOn _ rfl
      | inLiteral => exact goesOn _ rfl
      | closing closes =>
          have closer := Steps.closer_eq fits closes
          refine ⟨[], rest, true, ?_,
            Finishes.nil _ fun broken => absurd broken (Bool.noConfusion ·), ?_⟩
          · rw [List.nil_append, Delimiter.ending, if_pos rfl, ← closer,
              List.cons_append]
          · intro start opened
            rw [literalsFrom_cons, Lexeme.size, closer]
            rfl
      | breaking =>
          refine ⟨[], '\n' :: (taken ++ rest), false, rfl,
            Finishes.nil _ fun _ => Or.inr rfl, ?_⟩
          intro start opened
          rw [literalsFrom_cons]
          rfl

/-- A literal that is open at a position is listed, and stops there or later. -/
theorem Reads.listed {mode last : Mode} {chars : List Char} {found : List Lexeme}
    (reads : Reads mode chars [] found last) (inside : mode.isLiteral = true)
    (start position : Nat) (opened : Delimiter) :
    ∃ literal ∈ literalsFrom position (some (start, opened)) found,
      literal.start = start ∧ position ≤ literal.stop := by
  cases mode with
  | literal delimiter escaped =>
      obtain ⟨body, behind, closed, -, -, listed⟩ := reads.completes rfl rfl position
      exact ⟨_, List.mem_of_head? (listed start opened), rfl, Nat.le_add_right _ _⟩
  | _ => cases inside

/-! ### What literals cover -/

/-- What leads from a literal to code as a part of the literal closes it. -/
theorem Steps.closes {mode : Mode} {first : Char} {rest : List Char} {now : Step}
    (steps : Steps mode first rest now) (cls : now.cls = .literal)
    (next : now.next = .code) : now.role = .closing ∧ mode.isLiteral = true := by
  cases steps with
  | closing => exact ⟨rfl, rfl⟩
  | opening => cases next
  | shielded => cases next
  | shield => cases next
  | inLiteral => cases next
  | _ => cases cls

/-- Whether an open literal starts at a position or before it. -/
def StartsBy (position : Nat) (current : Option (Nat × Delimiter)) : Prop :=
  ∀ start opened, current = some (start, opened) → start ≤ position

/-- What is open behind a lexeme was open before it, or starts with it. -/
theorem StartsBy.turn {position after : Nat} {role : Role}
    {current : Option (Nat × Delimiter)} (before : StartsBy position current) :
    StartsBy position (turn position after role current).2 := by
  intro start opened same
  rcases open_of_turn same with old | ⟨-, new⟩
  · exact before start opened old
  · exact Nat.le_of_eq new.symm

theorem StartsBy.mono {early late : Nat} {current : Option (Nat × Delimiter)}
    (before : StartsBy early current) (order : early ≤ late) :
    StartsBy late current :=
  fun start opened same => (before start opened same).trans order

/-- A lexeme that is classified as literal lies in a literal. -/
theorem Reads.covers_first {mode last : Mode} {first : Char}
    {rest chars : List Char} {now : Step} {lexeme : Lexeme} {found : List Lexeme}
    (steps : Steps mode first rest now) (cls : now.cls = .literal)
    (role : lexeme.role = now.role) (later : Reads now.next chars [] found last)
    {current : Option (Nat × Delimiter)} (tracks : Tracks mode current)
    {position : Nat} (before : StartsBy position current) :
    ∃ literal ∈ literalsFrom position current (lexeme :: found),
      literal.start ≤ position ∧ position + lexeme.size ≤ literal.stop := by
  rw [literalsFrom_cons, role]
  rcases steps.of_literal cls with code | quoted
  · obtain ⟨closing, inside⟩ := steps.closes cls code
    obtain ⟨⟨start, delimiter⟩, rfl⟩ :=
      Option.isSome_iff_exists.mp (tracks.trans inside)
    rw [closing]
    exact ⟨⟨start, position + lexeme.size, delimiter, true⟩,
      List.mem_append_left _ List.mem_cons_self, before start delimiter rfl,
      Nat.le_refl _⟩
  · have moved := tracks.step steps position (position + lexeme.size)
    obtain ⟨⟨start, delimiter⟩, same⟩ :=
      Option.isSome_iff_exists.mp (moved.trans quoted)
    obtain ⟨literal, member, rfl, stop⟩ :=
      later.listed quoted start (position + lexeme.size) delimiter
    have lower := before.turn _ _ same
    rw [same]
    exact ⟨literal, List.mem_append_right _ member, lower, stop⟩

/-- What is classified as literal lies in a literal. -/
theorem Reads.covers {mode last : Mode} {chars after : List Char}
    {found : List Lexeme} (reads : Reads mode chars after found last)
    (whole : after = []) {current : Option (Nat × Delimiter)}
    (tracks : Tracks mode current) {position index : Nat} {cell : Cell}
    (before : StartsBy position current)
    (here : (cellsOf found)[index]? = some cell) (literal : cell.cls = .literal) :
    ∃ literal ∈ literalsFrom position current found,
      literal.start ≤ position + index ∧ position + index < literal.stop := by
  induction reads generalizing current position index with
  | done => cases here
  | @more mode last first taken rest after now found step fits later
      inductionHypothesis =>
      subst whole
      have steps := step ▸ steps_step mode first (taken ++ rest ++ [])
      generalize lexeme_eq : Lexeme.mk (first :: taken) now.cls now.role = lexeme
        at here ⊢
      have role : lexeme.role = now.role := by rw [← lexeme_eq]
      rw [cellsOf, List.flatMap_cons] at here
      by_cases inside : index < lexeme.size
      · rw [List.getElem?_append_left (by rwa [Lexeme.length_cells])] at here
        have cls : now.cls = .literal := by
          rw [← literal, Lexeme.cls_of_mem (List.mem_of_getElem? here), ← lexeme_eq]
        obtain ⟨covering, member, lower, upper⟩ :=
          later.covers_first steps cls role tracks before
        exact ⟨covering, member, by omega, by omega⟩
      · rw [List.getElem?_append_right (by rw [Lexeme.length_cells]; omega),
          Lexeme.length_cells] at here
        have moved := tracks.step steps position (position + lexeme.size)
        have bound := @StartsBy.turn _ (position + lexeme.size) now.role _ before
        obtain ⟨covering, member, lower, upper⟩ :=
          inductionHypothesis rfl moved (bound.mono (Nat.le_add_right _ _)) here
        rw [literalsFrom_cons, role]
        exact ⟨covering, List.mem_append_right _ member, by omega, by omega⟩

/-! ### Finding a literal by its start -/

/-- The item with a key in a list that ascends by it, looked for by halves: in the
middle first, and then in front of it or behind it. -/
def bisect? {α : Type} (key : α → Nat) (sought : Nat) (items : List α) : Option α :=
  match middle : items[items.length / 2]? with
  | none => none
  | some item =>
      if sought < key item then
        bisect? key sought (items.take (items.length / 2))
      else if key item < sought then
        bisect? key sought (items.drop (items.length / 2 + 1))
      else some item
termination_by items.length
decreasing_by
  all_goals
    have inside := (List.getElem?_eq_some_iff.mp middle).1
    simp only [List.length_take, List.length_drop]
    omega

section

variable {α : Type} {key : α → Nat} {items : List α}

/-- The parts of an ascending list around one of its items. -/
theorem ascend_around
    (ascend : items.Pairwise fun first second => key first < key second)
    {index : Nat} {middle : α} (found : items[index]? = some middle) :
    (∀ item ∈ items.take index, key item < key middle) ∧
      (∀ item ∈ items.drop (index + 1), key middle < key item) ∧
      items.take index ++ middle :: items.drop (index + 1) = items := by
  obtain ⟨inside, same⟩ := List.getElem?_eq_some_iff.mp found
  have split : items.take index ++ middle :: items.drop (index + 1) = items := by
    rw [← same, ← List.drop_eq_getElem_cons inside, List.take_append_drop]
  rw [← split, List.pairwise_append, List.pairwise_cons] at ascend
  obtain ⟨-, ⟨behind, -⟩, before⟩ := ascend
  exact ⟨fun item member => before item member middle List.mem_cons_self, behind, split⟩

/-- A search by halves finds what a search from the front finds. -/
theorem bisect_eq_find (sought : Nat)
    (ascend : items.Pairwise fun first second => key first < key second) :
    bisect? key sought items = items.find? fun item => key item == sought := by
  fun_induction bisect? key sought items with
  | case1 items missing =>
      have empty := List.getElem?_eq_none_iff.mp missing
      obtain rfl : items = [] := List.length_eq_zero_iff.mp (by omega)
      rfl
  | case2 items middle found less inductionHypothesis =>
      obtain ⟨-, behind, split⟩ := ascend_around ascend found
      rw [inductionHypothesis (ascend.sublist (List.take_sublist _ _))]
      conv_rhs => rw [← split]
      refine (find_append_left fun item member => ?_).symm
      rw [beq_eq_false_iff_ne]
      rcases List.mem_cons.mp member with rfl | later
      · omega
      · have above := behind item later
        omega
  | case3 items middle found notLess greater inductionHypothesis =>
      obtain ⟨before, -, split⟩ := ascend_around ascend found
      rw [inductionHypothesis (ascend.sublist (List.drop_sublist _ _))]
      conv_rhs => rw [← split]
      rw [find_append_right fun item member => ?_, List.find?_cons_of_neg]
      · rw [beq_iff_eq]
        omega
      · have below := before item member
        rw [beq_eq_false_iff_ne]
        omega
  | case4 items middle found notLess notGreater =>
      obtain ⟨before, -, split⟩ := ascend_around ascend found
      conv_rhs => rw [← split]
      rw [find_append_right fun item member => ?_, List.find?_cons_of_pos]
      · rw [beq_iff_eq]
        omega
      · have below := before item member
        rw [beq_eq_false_iff_ne]
        omega

end

/-! ### The table -/

/-- The table of literals of a text is exact: its literals are not empty, lie in the
text, start and stop between two characters and come one behind the other; they cover
just what is classified as literal; and the literal with a value at a position is
there if and only if one of them starts there, which a search by halves finds out. -/
structure HasExactTable (text : String) : Prop where
  filled : ∀ literal ∈ (ofText text).literals,
    literal.start < literal.stop ∧ literal.stop ≤ (ofText text).size
  between : ∀ literal ∈ (ofText text).literals,
    Between text.toList literal.start ∧ Between text.toList literal.stop
  ascend : (ofText text).literals.Pairwise fun first second =>
    first.start < second.start ∧ first.stop ≤ second.start
  covers : ∀ position, (ofText text).classAt? position = some .literal ↔
    ∃ literal ∈ (ofText text).literals,
      literal.start ≤ position ∧ position < literal.stop
  found : ∀ position, ((ofText text).literalAt? position).isSome ↔
    ∃ literal ∈ (ofText text).literals, literal.start = position
  bisected : ∀ position, (ofText text).literalAt? position =
    (bisect? Literal.start position (ofText text).literals).map
      (Literal.quoted (ofText text))

/-- The table of literals of every text is exact. -/
theorem literals_exact (text : String) : HasExactTable text where
  filled := fun _ member => literal_inside member
  between := fun _ member => between_of_literal member
  ascend := literals_ascend text
  covers := by
    intro position
    constructor
    · intro quoted
      obtain ⟨cell, here, cls⟩ := Option.map_eq_some_iff.mp quoted
      rw [ofText_cells, List.getElem?_toArray] at here
      obtain ⟨literal, member, lower, upper⟩ :=
        @Reads.covers _ _ _ _ _ (reads_whole .code text.toList) rfl none rfl 0 _ _
          (by intro _ _ same; cases same) here cls
      rw [Nat.zero_add] at lower upper
      exact ⟨literal, member, lower, upper⟩
    · rintro ⟨literal, member, lower, upper⟩
      exact class_of_literal member lower upper
  found := by
    intro position
    rw [literalAt_eq, Option.isSome_map, List.find?_isSome]
    simp only [beq_iff_eq]
  bisected := by
    intro position
    rw [bisect_eq_find position ((literals_ascend text).imp And.left), literalAt_eq]

/-! ### Values -/

/-- What a body says, with escapes undone unless the delimiter has number signs. -/
def Delimiter.read (delimiter : Delimiter) (body : List Char) : String :=
  String.ofList (if delimiter.hashes = 0 then unescape body else body)

theorem byteLength_of_closer {delimiter : Delimiter} {chars : List Char}
    (suffix : chars <:+ delimiter.closer) : byteLength chars = chars.length := by
  refine byteLength_of_single fun c member => ?_
  exact utf8Size_of_isEdge (isEdge_of_isMark
    (closer_marks delimiter c (suffix.subset member)))

theorem byteLength_opener (delimiter : Delimiter) :
    byteLength delimiter.opener = delimiter.width := by
  rw [byteLength_of_single, Delimiter.length_opener]
  intro c member
  rcases List.mem_append.mp member with hash | quote
  · rw [List.eq_of_mem_replicate hash]
    rfl
  · rw [List.eq_of_mem_replicate quote]
    rfl

/-- Both delimiters are taken off where the closing one is found behind the opening
one. -/
theorem closer_suffix_iff {delimiter : Delimiter} {rest : List Char} :
    2 * delimiter.width ≤ byteLength (delimiter.opener ++ rest) ∧
        delimiter.closer <:+ delimiter.opener ++ rest ↔
      delimiter.closer <:+ rest := by
  rw [byteLength_append, byteLength_opener]
  constructor
  · rintro ⟨wide, suffix⟩
    rcases List.suffix_or_suffix_of_suffix suffix (List.suffix_append _ rest) with
      behind | inside
    · exact behind
    · have length := byteLength_of_closer inside
      have same : rest.length = delimiter.closer.length := by
        have bound := inside.length_le
        rw [Delimiter.length_closer] at bound ⊢
        omega
      obtain rfl := inside.eq_of_length same
      exact List.suffix_refl _
  · rintro ⟨front, rfl⟩
    refine ⟨?_, ?_⟩
    · rw [byteLength_append, byteLength_of_closer (List.suffix_refl _),
        Delimiter.length_closer]
      omega
    · rw [← List.append_assoc]
      exact List.suffix_append _ _

section

variable {literal : Literal} {rest : List Char}

/-- What is read off a literal's text is what stands behind the opening delimiter, up
to the closing one if the text ends with it. -/
theorem inner_eq_of_parts
    (stop : literal.start + byteLength (literal.delimiter.opener ++ rest) =
      literal.stop) :
    literal.inner (literal.delimiter.opener ++ rest) =
      if literal.delimiter.closer <:+ rest then
        rest.take (rest.length - literal.delimiter.width)
      else rest := by
  have wide : literal.stop - literal.start =
      byteLength (literal.delimiter.opener ++ rest) := by omega
  have behind : (literal.delimiter.opener ++ rest).drop literal.delimiter.width =
      rest := by
    rw [← Delimiter.length_opener, List.drop_left]
  have length : (literal.delimiter.opener ++ rest).length -
      2 * literal.delimiter.width = rest.length - literal.delimiter.width := by
    rw [List.length_append, Delimiter.length_opener]
    omega
  simp only [Literal.inner, wide, List.isSuffixOf_iff_suffix, closer_suffix_iff,
    behind, length]

theorem value_of_closer {body : List Char}
    (stop : literal.start + byteLength (literal.delimiter.opener ++
      (body ++ literal.delimiter.closer)) = literal.stop) :
    literal.value (literal.delimiter.opener ++ (body ++ literal.delimiter.closer)) =
      literal.delimiter.read body := by
  have length : (body ++ literal.delimiter.closer).length - literal.delimiter.width =
      body.length := by
    rw [List.length_append, Delimiter.length_closer, Nat.add_sub_cancel]
  rw [Literal.value, inner_eq_of_parts stop, if_pos (List.suffix_append _ _), length,
    List.take_left, Delimiter.read]

theorem value_of_other
    (stop : literal.start + byteLength (literal.delimiter.opener ++ rest) =
      literal.stop)
    (other : ¬literal.delimiter.closer <:+ rest) :
    literal.value (literal.delimiter.opener ++ rest) = literal.delimiter.read rest := by
  rw [Literal.value, inner_eq_of_parts stop, if_neg other, Delimiter.read]

end

/-- A literal of a text with what stands around it: its opening delimiter, its body,
and its closing delimiter if it has one.  The body is what the literal was read as, so
nothing in it closes the literal or breaks it off. -/
structure Written (text : String) (literal : Literal)
    (before body after : List Char) : Prop where
  parts : text.toList = before ++ (literal.delimiter.opener ++
    (body ++ literal.delimiter.ending literal.closed)) ++ after
  start : byteLength before = literal.start
  stop : literal.start + byteLength (literal.delimiter.opener ++
    (body ++ literal.delimiter.ending literal.closed)) = literal.stop
  finishes : Finishes literal.delimiter false literal.closed body after

/-- Only one literal starts at a position. -/
theorem eq_of_start {text : String} {first second : Literal}
    (member : first ∈ (ofText text).literals)
    (member' : second ∈ (ofText text).literals)
    (same : first.start = second.start) : first = second := by
  have symmetric : Std.Symm fun left right : Literal => left.start ≠ right.start :=
    ⟨fun _ _ other => other.symm⟩
  have apart := (literals_ascend text).imp fun ordered => Nat.ne_of_lt ordered.1
  by_contra different
  exact apart.forall member member' different same

/-- What is listed for the last lexemes of a text is listed for the text. -/
theorem mem_literalsFrom_append {position : Nat} {left right : List Lexeme}
    {current : Option (Nat × Delimiter)} {literal : Literal}
    (member : literal ∈ literalsFrom (position + sizeOf left)
      (carried position current left) right) :
    literal ∈ literalsFrom position current (left ++ right) := by
  induction left generalizing position current with
  | nil => simpa [carried] using member
  | cons lexeme left inductionHypothesis =>
      rw [sizeOf_cons, ← Nat.add_assoc] at member
      rw [List.cons_append, literalsFrom_cons]
      exact List.mem_append_right _ (inductionHypothesis member)

/-- Every literal of a text is written in it. -/
theorem written_of_literal {text : String} {literal : Literal}
    (member : literal ∈ (ofText text).literals) :
    ∃ before body after, Written text literal before body after := by
  obtain none | ⟨early, lexeme, late, whole, role, start⟩ :=
    @opening_of_mem 0 _ (lexemes text.toList) _ member
  · cases none
  obtain ⟨middle, now, placed⟩ := placed_of_eq whole
  obtain ⟨first, taken, chars, steps, fits⟩ := placed.steps
  obtain ⟨-, opener, next⟩ := steps.opener_eq fits (placed.role.symm.trans role)
  rw [← chars] at opener
  obtain ⟨last, later⟩ := placed.later
  obtain ⟨body, behind, closed, rest, finishes, listed⟩ :=
    later.completes rfl next (sizeOf early + lexeme.size)
  rw [Nat.zero_add] at start
  -- the literal that the reading completes is the one that starts here
  have found : ⟨sizeOf early, sizeOf early + lexeme.size +
      byteLength (body ++ literal.delimiter.ending closed), literal.delimiter,
      closed⟩ ∈ (ofText text).literals := by
    have member := List.mem_of_head? (listed (sizeOf early) literal.delimiter)
    change _ ∈ literalsFrom 0 none (lexemes text.toList)
    rw [whole]
    refine mem_literalsFrom_append ?_
    rw [literalsFrom_cons, role, Nat.zero_add]
    exact List.mem_append_right _ member
  have same := eq_of_start member found start.symm
  have opened : Lexeme.size lexeme = byteLength literal.delimiter.opener := by
    rw [Lexeme.size, opener]
  have parts := placed.behind.parts
  rw [opener, rest] at parts
  have ended : literal.closed = closed := congrArg Literal.closed same
  have stop : literal.stop = sizeOf early + lexeme.size +
      byteLength (body ++ literal.delimiter.ending closed) := congrArg Literal.stop same
  refine ⟨early.flatMap Lexeme.chars, body, behind, ?_, start, ?_, ?_⟩
  · rw [ended, parts]
    simp only [List.append_assoc]
  · rw [ended, stop, byteLength_append, ← opened, ← start, Nat.add_assoc]
  · rw [ended]
    exact finishes

/-- A backslash protects what follows it only without number signs. -/
theorem shield_of_step {delimiter : Delimiter} {first : Char} {rest : List Char}
    (here : step (.literal delimiter false) first rest =
      .plain .literal (.literal delimiter true)) :
    first = '\\' ∧ delimiter.hashes = 0 := by
  by_contra other
  have role := congrArg Step.role here
  have next := congrArg Step.next here
  simp only [step, stepLiteral, if_neg other] at role next
  split at role
  · cases role
  · rename_i noCloser
    rw [if_neg noCloser] at next
    split at role
    · cases role
    · rename_i noBreak
      rw [if_neg noBreak] at next
      cases next

/-- A step that neither ends nor starts a literal takes one character of it. -/
theorem Steps.plain_inside {delimiter : Delimiter} {escaped : Bool} {first : Char}
    {rest : List Char} {now : Step}
    (steps : Steps (.literal delimiter escaped) first rest now)
    (plain : now.role = .plain) :
    ∃ shielded, now = .plain .literal (.literal delimiter shielded) := by
  cases steps with
  | shielded => exact ⟨false, rfl⟩
  | shield => exact ⟨true, rfl⟩
  | inLiteral => exact ⟨false, rfl⟩
  | closing => cases plain
  | breaking => cases plain

/-- The closing delimiter starts with a quote. -/
theorem closer_eq_cons (delimiter : Delimiter) :
    ∃ tail, delimiter.closer = '"' :: tail := by
  obtain ⟨more, quotes⟩ := Nat.exists_eq_add_of_lt delimiter.quotes_pos
  rw [Delimiter.closer, quotes]
  exact ⟨_, rfl⟩

/-- If the closing delimiter stands in a literal as plain characters, a backslash in
front protects it. -/
theorem Reads.shield_before_closer {delimiter : Delimiter} {escaped : Bool}
    {front after : List Char} {found : List Lexeme} {last : Mode}
    (reads : Reads (.literal delimiter escaped) (front ++ delimiter.closer) after
      found last)
    (plain : ∀ lexeme ∈ found, lexeme.role = .plain) :
    front = [] ∧ escaped = true ∨
      front.getLast? = some '\\' ∧ delimiter.hashes = 0 := by
  -- on what stands in front: the quote itself is plain only behind a backslash
  induction front generalizing escaped found with
  | nil =>
      refine Or.inl ⟨rfl, ?_⟩
      obtain ⟨tail, closer⟩ := closer_eq_cons delimiter
      rw [List.nil_append, closer] at reads
      cases reads with
      | @more _ _ _ taken rest _ now found here fits later =>
          have role := plain _ List.mem_cons_self
          cases escaped with
          | true => rfl
          | false =>
              have closes : delimiter.closer.isPrefixOf
                  ('"' :: (taken ++ rest ++ after)) = true := by
                rw [closer, List.isPrefixOf_iff_prefix, ← List.cons_append]
                exact List.prefix_append _ _
              rw [← here, step, stepLiteral,
                if_neg fun shield => absurd shield.1 (by decide), if_pos closes] at role
              cases role
  | cons c front inductionHypothesis =>
      generalize same : c :: front ++ delimiter.closer = chars at reads
      cases reads with
      | done => cases same
      | @more _ _ first taken rest _ now found here fits later =>
          rw [List.cons_append, List.cons.injEq] at same
          obtain ⟨rfl, same⟩ := same
          have steps := here ▸ steps_step (.literal delimiter escaped) c
            (taken ++ rest ++ after)
          obtain ⟨shielded, rfl⟩ := steps.plain_inside (plain _ List.mem_cons_self)
          obtain rfl : taken = [] := List.length_eq_zero_iff.mp fits.symm
          rw [List.nil_append] at same
          subst same
          refine Or.inr ?_
          rcases inductionHypothesis later fun lexeme member =>
              plain lexeme (List.mem_cons_of_mem _ member) with
            ⟨rfl, rfl⟩ | known
          · cases escaped with
            | true => cases congrArg Step.next here
            | false =>
                obtain ⟨rfl, single⟩ := shield_of_step here
                exact ⟨rfl, single⟩
          · refine ⟨?_, known.2⟩
            rw [List.getLast?_cons, known.1]
            rfl

/-- A literal that was broken off behind its closing delimiter has number signs neither
in front nor behind, and a backslash protects the quotes at its end. -/
theorem Finishes.shielded {delimiter : Delimiter} {front after : List Char}
    (finishes : Finishes delimiter false false (front ++ delimiter.closer) after) :
    front.getLast? = some '\\' ∧ delimiter.hashes = 0 := by
  obtain ⟨found, last, reads, plain⟩ := finishes.reads
  rcases reads.shield_before_closer plain with ⟨-, shielded⟩ | shielded
  · cases shielded
  · exact shielded

/-- A literal is the one that is found at its start. -/
theorem literalAt_of_mem {text : String} {literal : Literal}
    (member : literal ∈ (ofText text).literals) :
    (ofText text).literalAt? literal.start = some (literal.quoted (ofText text)) := by
  have found : (ofText text).literals.find?
      (fun other => other.start == literal.start) = some literal := by
    cases here : (ofText text).literals.find?
        fun other => other.start == literal.start with
    | none =>
        have none := List.find?_eq_none.mp here literal member
        rw [beq_self_eq_true] at none
        exact absurd rfl none
    | some other =>
        have start := List.find?_some here
        rw [beq_iff_eq] at start
        rw [eq_of_start (List.mem_of_find?_eq_some here) member start]
  rw [literalAt_eq, found, Option.map_some]

/-- The literal at a position of the table, with its value. -/
theorem Written.literalAt {text : String} {literal : Literal}
    {before body after : List Char} (written : Written text literal before body after)
    (member : literal ∈ (ofText text).literals) :
    (ofText text).literalAt? literal.start =
      some ⟨literal.start, literal.stop, literal.value (literal.delimiter.opener ++
        (body ++ literal.delimiter.ending literal.closed))⟩ := by
  have slice := slice_between written.parts
  rw [written.start, written.stop] at slice
  rw [literalAt_of_mem member, Literal.quoted, slice, String.toList_ofList]

/-- Every literal of a text is found by its start with the value of its body, escapes
undone.  Only where a literal was broken off and its body ends with what looks like the
closing delimiter, that end is not part of the value; a backslash stands in front of it
then, and there are no number signs. -/
theorem literal_values {text : String} {literal : Literal}
    (member : literal ∈ (ofText text).literals) :
    ∃ before body after value, Written text literal before body after ∧
      (ofText text).literalAt? literal.start =
        some ⟨literal.start, literal.stop, value⟩ ∧
      (literal.closed = true ∨ ¬literal.delimiter.closer <:+ body →
        value = literal.delimiter.read body) ∧
      ∀ front, literal.closed = false → body = front ++ literal.delimiter.closer →
        value = literal.delimiter.read front ∧ front.getLast? = some '\\' ∧
          literal.delimiter.hashes = 0 := by
  obtain ⟨before, body, after, written⟩ := written_of_literal member
  refine ⟨before, body, after, _, written, written.literalAt member, ?_, ?_⟩
  · have stop := written.stop
    cases closed : literal.closed with
    | true =>
        intro _
        rw [closed, Delimiter.ending, if_pos rfl] at stop
        rw [Delimiter.ending, if_pos rfl, value_of_closer stop]
    | false =>
        intro kept
        rw [closed, Delimiter.ending, if_neg Bool.false_ne_true, List.append_nil] at stop
        rw [Delimiter.ending, if_neg Bool.false_ne_true, List.append_nil,
          value_of_other stop (kept.resolve_left Bool.false_ne_true)]
  · rintro front broken rfl
    have finishes := written.finishes
    have stop := written.stop
    rw [broken] at finishes
    rw [broken, Delimiter.ending, if_neg Bool.false_ne_true, List.append_nil] at stop ⊢
    exact ⟨value_of_closer stop, finishes.shielded⟩

/-- The quote at the end of a literal that was broken off is lost if it is protected. -/
example : (ofText "\"P\\\"").literalAt? 0 = some ⟨0, 4, "P\\"⟩ := by
  decide +kernel

end PackageLayers.Source

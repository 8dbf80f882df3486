/-
Purpose: What stands where the class of positions changes.
Main exports: Regular, regular_ofText, mark_of_leaving, mark_of_start
-/
import PackageLayers.Proofs.Source.Places

namespace PackageLayers.Source

/-!
Code, comments and literals meet only at marks.  A comment or a literal after code
starts with a slash, a number sign or a quote; code after them follows one of
these, or starts with a line break.  So names are of one class as a whole.
-/

/-- Whether a character can be the first or last one of a comment or literal. -/
def isEdge (c : Char) : Bool := c = '/' || c = '"' || c = '#'

/-- What holds of a text whose literals are closed where positions of different
classes meet, and where literals start. -/
structure Regular (source : Source) : Prop where
  closed : AllClosed source
  enterComment : ∀ position before after,
    source.cells[position]? = some before →
    source.cells[position + 1]? = some after → before.cls ≠ .comment →
    after.cls = .comment → after.char? = some '/'
  enterLiteral : ∀ position before after,
    source.cells[position]? = some before →
    source.cells[position + 1]? = some after → before.cls ≠ .literal →
    after.cls = .literal → ∃ c, after.char? = some c ∧ isMark c
  leaveLiteral : ∀ position before after,
    source.cells[position]? = some before →
    source.cells[position + 1]? = some after → before.cls = .literal →
    after.cls ≠ .literal → ∃ c, before.char? = some c ∧ isMark c
  enterCode : ∀ position before after, source.cells[position]? = some before →
    source.cells[position + 1]? = some after → before.cls ≠ .code →
    after.cls = .code →
      (∃ c, before.char? = some c ∧ isEdge c) ∨ after.char? = some '\n'
  literalStart : ∀ literal ∈ source.literals,
    ∃ c, source.cells[literal.start]? = some ⟨some c, .literal⟩ ∧ isMark c
  literalStop : ∀ literal ∈ source.literals,
    ∃ c, source.cells[literal.stop - 1]? = some ⟨some c, .literal⟩ ∧ isMark c
  bounds : ∀ literal ∈ source.literals,
    literal.start < literal.stop ∧ literal.stop ≤ source.size

/-- Whether a text is inside of a comment. -/
def Mode.isComment : Mode → Bool
  | .lineComment => true
  | .blockComment _ => true
  | _ => false

/-! ### Steps at the edges -/

theorem isEdge_of_isMark {c : Char} (mark : isMark c) : isEdge c := by
  simp only [isMark, Bool.or_eq_true, decide_eq_true_eq] at mark
  rcases mark with rfl | rfl <;> rfl

theorem utf8Size_of_isEdge {c : Char} (edge : isEdge c) : c.utf8Size = 1 := by
  simp only [isEdge, Bool.or_eq_true, decide_eq_true_eq] at edge
  rcases edge with (rfl | rfl) | rfl <;> rfl

/-- A delimiter opens with a mark. -/
theorem mark_of_opening {first : Char} {rest : List Char} {delimiter : Delimiter}
    (opens : Delimiter.ofOpening? (first :: rest) = some delimiter) :
    isMark first := by
  cases mark : isMark first with
  | true => rfl
  | false =>
      rw [ofOpening_cons_other mark] at opens
      cases opens

namespace Steps

/-- What starts a comment is a slash. -/
theorem enter_comment {mode : Mode} {first : Char} {rest : List Char}
    {now : Step} (steps : Steps mode first rest now) (cls : now.cls = .comment)
    (outside : mode.isComment = false) : first = '/' := by
  cases steps with
  | lineComment => rfl
  | blockComment => rfl
  | inLine => cases outside
  | nest => cases outside
  | endBlock => cases outside
  | unnest => cases outside
  | inBlock => cases outside
  | _ => cases cls

/-- What leaves the text inside of a comment is of it. -/
theorem of_isComment {mode : Mode} {first : Char} {rest : List Char}
    {now : Step} (steps : Steps mode first rest now)
    (inside : now.next.isComment = true) : now.cls = .comment := by
  cases steps with
  | lineComment => rfl
  | blockComment => rfl
  | inLine => rfl
  | nest => rfl
  | unnest => rfl
  | inBlock => rfl
  | _ => cases inside

/-- What starts a literal is a mark. -/
theorem enter_literal {mode : Mode} {first : Char} {rest : List Char}
    {now : Step} (steps : Steps mode first rest now) (cls : now.cls = .literal)
    (outside : mode.isLiteral = false) : isMark first := by
  cases steps with
  | opening opens => exact mark_of_opening opens
  | shielded => cases outside
  | shield => cases outside
  | closing => cases outside
  | inLiteral => cases outside
  | _ => cases cls

/-- What closes a literal is its closing delimiter. -/
theorem closer_eq {delimiter : Delimiter} {first : Char}
    {taken rest : List Char} (fits : delimiter.width - 1 = taken.length)
    (closes : delimiter.closer <+: first :: (taken ++ rest)) :
    first :: taken = delimiter.closer := by
  have lead : delimiter.closer <+: (first :: taken) ++ rest := closes
  have length : delimiter.closer.length = (first :: taken).length := by
    have positive := delimiter.quotes_pos
    rw [Delimiter.length_closer, List.length_cons, ← fits, Delimiter.width]
    omega
  exact ((List.prefix_of_prefix_length_le lead (List.prefix_append _ _)
    (Nat.le_of_eq length)).eq_of_length length).symm

/-- What closes a literal ends with a mark. -/
theorem closer_last {delimiter : Delimiter} {first : Char}
    {taken rest : List Char} (fits : delimiter.width - 1 = taken.length)
    (closes : delimiter.closer <+: first :: (taken ++ rest)) :
    ∃ before c, first :: taken = before ++ [c] ∧ isMark c := by
  refine ⟨(first :: taken).dropLast,
    (first :: taken).getLast (List.cons_ne_nil _ _),
    (List.dropLast_concat_getLast _).symm, closer_marks delimiter _ ?_⟩
  rw [← closer_eq fits closes]
  exact List.getLast_mem _

/-- What leads from a comment or a literal back to code ends with an edge. -/
theorem enter_code {mode : Mode} {first : Char} {taken rest : List Char}
    {now : Step} (steps : Steps mode first (taken ++ rest) now)
    (fits : now.more = taken.length) (next : now.next = .code)
    (other : now.cls ≠ .code) :
    ∃ before c, first :: taken = before ++ [c] ∧ isEdge c := by
  cases steps with
  | endBlock head =>
      obtain ⟨slash, rfl⟩ := List.length_eq_one_iff.mp fits.symm
      cases head
      exact ⟨['*'], '/', rfl, rfl⟩
  | closing closes =>
      obtain ⟨before, c, same, mark⟩ := closer_last fits closes
      exact ⟨before, c, same, isEdge_of_isMark mark⟩
  | code => exact absurd rfl other
  | endLine => exact absurd rfl other
  | breaking => exact absurd rfl other
  | _ => cases next

/-- What leads out of a literal ends with a mark. -/
theorem leave_literal {mode : Mode} {first : Char} {taken rest : List Char}
    {now : Step} (steps : Steps mode first (taken ++ rest) now)
    (fits : now.more = taken.length) (cls : now.cls = .literal)
    (outside : now.next.isLiteral = false) :
    ∃ before c, first :: taken = before ++ [c] ∧ isMark c := by
  cases steps with
  | closing closes => exact closer_last fits closes
  | opening => cases outside
  | shielded => cases outside
  | shield => cases outside
  | inLiteral => cases outside
  | _ => cases cls

/-- What opens a literal is of it and starts with a mark. -/
theorem of_opening {mode : Mode} {first : Char} {rest : List Char} {now : Step}
    {delimiter : Delimiter} (steps : Steps mode first rest now)
    (role : now.role = .opening delimiter) :
    now.cls = .literal ∧ isMark first := by
  cases steps with
  | opening opens => exact ⟨rfl, mark_of_opening opens⟩
  | _ => cases role

/-- What closes a literal is of it and ends with a mark. -/
theorem of_closing {mode : Mode} {first : Char} {taken rest : List Char}
    {now : Step} (steps : Steps mode first (taken ++ rest) now)
    (fits : now.more = taken.length) (role : now.role = .closing) :
    now.cls = .literal ∧ ∃ before c, first :: taken = before ++ [c] ∧
      isMark c := by
  cases steps with
  | closing closes => exact ⟨rfl, closer_last fits closes⟩
  | _ => cases role

/-- What leaves the text inside of a literal is of it. -/
theorem of_isLiteral {mode : Mode} {first : Char} {rest : List Char} {now : Step}
    (steps : Steps mode first rest now) (inside : now.next.isLiteral = true) :
    now.cls = .literal := by
  cases steps with
  | opening => rfl
  | shielded => rfl
  | shield => rfl
  | inLiteral => rfl
  | _ => cases inside

end Steps

/-! ### Neighbouring lexemes -/

theorem Lexeme.first_cell {lexeme : Lexeme} {first : Char} {taken : List Char}
    (chars : lexeme.chars = first :: taken) :
    lexeme.cells[0]? = some ⟨some first, lexeme.cls⟩ := by
  rw [Lexeme.cells, chars, List.flatMap_cons]
  rfl

theorem Lexeme.last_cell {lexeme : Lexeme} {before : List Char} {c : Char}
    (chars : lexeme.chars = before ++ [c]) (single : c.utf8Size = 1) :
    lexeme.cells[lexeme.size - 1]? = some ⟨some c, lexeme.cls⟩ := by
  have width : lexeme.size = byteLength before + 1 := by
    simp [Lexeme.size, chars, byteLength_append, byteLength, single]
  have length : (before.flatMap fun d => Cell.ofChar d lexeme.cls).length =
      byteLength before := by
    have size := Lexeme.length_cells ⟨before, lexeme.cls, .plain⟩
    exact size
  rw [Lexeme.cells, chars, List.flatMap_append, width, Nat.add_sub_cancel,
    List.getElem?_append_right (Nat.le_of_eq length), length, Nat.sub_self,
    List.flatMap_cons, Cell.ofChar, single]
  rfl

/-- The lexeme after a lexeme of a text. -/
theorem Placed.next_step {text : List Char} {early late : List Lexeme}
    {lexeme next : Lexeme} {middle : Mode} {now : Step}
    (placed : Placed text early lexeme (next :: late) middle now) :
    ∃ first taken rest further, next.chars = first :: taken ∧
      next.cls = further.cls ∧ Steps now.next first rest further := by
  obtain ⟨last, later⟩ := placed.later
  generalize (next :: late).flatMap Lexeme.chars = after at later
  cases later with
  | more here fits behind =>
      subst here
      exact ⟨_, _, _, _, rfl, rfl, steps_step _ _ _⟩

/-- Two neighbouring positions of different classes are the end of a lexeme and
the start of the next one. -/
theorem change_of_class {text : String} {position : Nat} {before after : Cell}
    (here : (ofText text).cells[position]? = some before)
    (there : (ofText text).cells[position + 1]? = some after)
    (different : before.cls ≠ after.cls) :
    ∃ early lexeme next late middle now first rest further,
      Placed text.toList early lexeme (next :: late) middle now ∧
      (lexemes text.toList = early ++ lexeme :: next :: late ∧
        sizeOf early + lexeme.size = position + 1) ∧
      lexeme.cls = before.cls ∧ next.cls = after.cls ∧
      further.cls = after.cls ∧
      lexeme.cells[lexeme.size - 1]? = some before ∧
      after.char? = some first ∧ Steps now.next first rest further := by
  rw [ofText_cells, List.getElem?_toArray] at here there
  obtain ⟨early, lexeme, late, index, whole, bound, place⟩ :=
    @lexeme_over (lexemes text.toList) position (by
      rw [← length_cellsOf]
      exact (List.getElem?_eq_some_iff.mp here).1)
  rw [whole, ← place, cell_of_lexeme bound] at here
  have cls := Lexeme.cls_of_mem (List.mem_of_getElem? here)
  have last : index + 1 = lexeme.size := by
    by_contra inner
    have shorter : index + 1 < lexeme.size := by omega
    rw [whole, ← place, Nat.add_assoc, cell_of_lexeme shorter] at there
    have same := Lexeme.cls_of_mem (List.mem_of_getElem? there)
    exact different (cls.trans same.symm)
  cases late with
  | nil =>
      have outside := (List.getElem?_eq_some_iff.mp there).1
      rw [length_cellsOf, whole, sizeOf_append, sizeOf_cons, sizeOf_nil] at outside
      omega
  | cons next late =>
      obtain ⟨middle, now, placed⟩ := placed_of_eq whole
      obtain ⟨first, taken, rest, further, chars, own, steps⟩ :=
        placed.next_step
      have width : 0 < next.size :=
        Lexeme.size_pos (by rw [chars]; exact List.cons_ne_nil _ _)
      have found := @cell_of_lexeme (early ++ [lexeme]) late _ _ width
      rw [sizeOf_append, sizeOf_cons, sizeOf_nil, Nat.add_zero, Nat.add_zero,
        List.append_assoc, List.singleton_append, ← last,
        Lexeme.first_cell chars, ← Nat.add_assoc, place, ← whole, there] at found
      cases found
      refine ⟨early, lexeme, next, late, middle, now, first, rest, further,
        placed, ⟨whole, by omega⟩, cls.symm, rfl, own.symm, ?_, rfl, steps⟩
      rw [← last, Nat.add_sub_cancel, here]

/-! ### Starts and ends of literals -/

/-- A literal that is open after a lexeme was open before it, or is opened by
it. -/
theorem open_of_turn {position after start : Nat} {role : Role}
    {current : Option (Nat × Delimiter)} {delimiter : Delimiter}
    (opened : (turn position after role current).2 = some (start, delimiter)) :
    current = some (start, delimiter) ∨
      role = .opening delimiter ∧ position = start := by
  cases current <;> cases role <;> simp_all [turn]

/-- A literal starts with the lexeme that opens it. -/
theorem opening_of_mem {position : Nat} {current : Option (Nat × Delimiter)}
    {found : List Lexeme} {literal : Literal}
    (member : literal ∈ literalsFrom position current found) :
    current = some (literal.start, literal.delimiter) ∨
      ∃ early lexeme late, found = early ++ lexeme :: late ∧
        lexeme.role = .opening literal.delimiter ∧
        position + sizeOf early = literal.start := by
  induction found generalizing position current with
  | nil =>
      cases current with
      | none => simp [literalsFrom] at member
      | some current =>
          simp only [literalsFrom, List.mem_singleton] at member
          subst member
          exact Or.inl rfl
  | cons lexeme found inductionHypothesis =>
      rw [literalsFrom_cons, List.mem_append] at member
      rcases member with ended | later
      · exact Or.inl (literal_mem_turn ended).1
      · rcases inductionHypothesis later with opened | opened
        · refine (open_of_turn opened).imp id fun found => ?_
          exact ⟨[], lexeme, _, rfl, found.1, found.2⟩
        · obtain ⟨early, opening, late, rfl, role, start⟩ := opened
          refine Or.inr ⟨lexeme :: early, opening, late, rfl, role, ?_⟩
          rw [sizeOf_cons]
          omega

/-- What leads out of a literal that is closed is a mark. -/
theorem mark_of_leaving {text : String} {position : Nat} {before after : Cell}
    (closed : ClosedIn (ofText text) position (position + 1))
    (here : (ofText text).cells[position]? = some before)
    (there : (ofText text).cells[position + 1]? = some after)
    (literal : before.cls = .literal) (other : after.cls ≠ .literal) :
    ∃ c, before.char? = some c ∧ isMark c := by
  obtain ⟨early, lexeme, next, late, middle, now, first, rest, further, placed,
    ⟨whole, place⟩, cls, next_cls, -, last, -, -⟩ :=
    change_of_class here there (by rw [literal]; exact other.symm)
  obtain ⟨head, more, chars, own, fits⟩ := placed.steps
  have outside : now.next.isLiteral = false := by
    rw [Bool.eq_false_iff]
    intro inside
    have ended : ∀ literal ∈
        literalsFrom 0 none (early ++ lexeme :: next :: late),
        literal.stop = sizeOf early + lexeme.size → literal.closed = true := by
      rw [← whole]
      exact fun literal member stop => closed literal member (by omega) (by omega)
    obtain ⟨next', late', same, literal', -⟩ := placed.literal_next ended inside
    cases same
    exact other (next_cls.symm.trans literal')
  obtain ⟨lead, c, same, mark⟩ := own.leave_literal fits
    (by rw [← placed.cls, cls, literal]) outside
  rw [same] at chars
  rw [Lexeme.last_cell chars (utf8Size_of_isEdge (isEdge_of_isMark mark))] at last
  cases last
  exact ⟨c, rfl, mark⟩

/-- A literal is not empty and lies inside of the text. -/
theorem literal_inside {text : String} {literal : Literal}
    (member : literal ∈ (ofText text).literals) :
    literal.start < literal.stop ∧ literal.stop ≤ (ofText text).size := by
  have filled := (reads_whole .code text.toList).filled
  have bound := @literal_bounds 0 0 (lexemes text.toList) none
      (by intro _ _ same; cases same) (Nat.le_refl 0) filled literal member
  have whole := (reads_whole .code text.toList).chars_eq
  rw [ofText_size, ← whole]
  rw [Nat.zero_add] at bound
  exact bound.2

/-- A literal starts with a mark. -/
theorem mark_of_start {text : String} {literal : Literal}
    (member : literal ∈ (ofText text).literals) :
    ∃ c, (ofText text).cells[literal.start]? = some ⟨some c, .literal⟩ ∧
      isMark c := by
  obtain none | ⟨early, lexeme, late, whole, role, start⟩ :=
    @opening_of_mem 0 _ (lexemes text.toList) _ member
  · cases none
  obtain ⟨middle, now, placed⟩ := placed_of_eq whole
  obtain ⟨first, taken, chars, steps, fits⟩ := placed.steps
  rw [placed.role] at role
  obtain ⟨cls, mark⟩ := steps.of_opening role
  have width := @Lexeme.size_pos lexeme (by simp [chars])
  have found := @cell_of_lexeme early late _ _ width
  rw [Lexeme.first_cell chars, ← whole, ← List.getElem?_toArray, ← ofText_cells,
    Nat.add_zero, placed.cls, cls] at found
  rw [Nat.zero_add] at start
  exact ⟨first, start ▸ found, mark⟩

/-- What leads back to code is an edge, or the end of a line. -/
theorem edge_of_code {text : String} {position : Nat} {before after : Cell}
    (here : (ofText text).cells[position]? = some before)
    (there : (ofText text).cells[position + 1]? = some after)
    (other : before.cls ≠ .code) (code : after.cls = .code) :
    (∃ c, before.char? = some c ∧ isEdge c) ∨ after.char? = some '\n' := by
  obtain ⟨early, lexeme, next, late, middle, now, first, rest, further, placed,
    -, cls, -, next_cls, last, starts, steps⟩ :=
    change_of_class here there (by rw [code]; exact other)
  obtain ⟨head, more, chars, own, fits⟩ := placed.steps
  rcases (steps.of_code (by rwa [next_cls])).2.2 with
    mode | ⟨-, lineBreak⟩ | ⟨-, lineBreak⟩
  · obtain ⟨lead, c, same, edge⟩ := own.enter_code fits mode (by
      rwa [← placed.cls, cls])
    rw [same] at chars
    rw [Lexeme.last_cell chars (utf8Size_of_isEdge edge)] at last
    cases last
    exact Or.inl ⟨c, rfl, edge⟩
  · exact Or.inr (by rw [starts, lineBreak])
  · exact Or.inr (by rw [starts, lineBreak])

/-- Classified texts whose literals are closed are regular. -/
theorem regular_ofText {text : String} (closed : AllClosed (ofText text)) :
    Regular (ofText text) where
  closed := closed
  enterComment := by
    intro position before after here there other comment
    obtain ⟨early, lexeme, next, late, middle, now, first, rest, further, placed,
      -, cls, -, next_cls, -, starts, steps⟩ :=
      change_of_class here there (by rw [comment]; exact other)
    obtain ⟨head, more, -, own, -⟩ := placed.steps
    rw [starts, steps.enter_comment (by rwa [next_cls])]
    cases inside : now.next.isComment with
    | false => rfl
    | true =>
        rw [placed.cls, own.of_isComment inside] at cls
        exact absurd cls.symm other
  enterLiteral := by
    intro position before after here there other literal
    obtain ⟨early, lexeme, next, late, middle, now, first, rest, further, placed,
      -, cls, -, next_cls, -, starts, steps⟩ :=
      change_of_class here there (by rw [literal]; exact other)
    obtain ⟨head, more, -, own, -⟩ := placed.steps
    refine ⟨first, starts, steps.enter_literal (by rwa [next_cls]) ?_⟩
    cases inside : now.next.isLiteral with
    | false => rfl
    | true =>
        rw [placed.cls, own.of_isLiteral inside] at cls
        exact absurd cls.symm other
  leaveLiteral := fun position _ _ here there literal other =>
    mark_of_leaving (closed.within position (position + 1)) here there literal other
  enterCode := fun _ _ _ here there other code => edge_of_code here there other code
  literalStart := fun _ member => mark_of_start member
  literalStop := by
    intro literal member
    obtain ⟨early, lexeme, late, whole, role, stop⟩ :=
      @closing_of_mem _ _ (lexemes text.toList) _ member (closed literal member)
    obtain ⟨middle, now, placed⟩ := placed_of_eq whole
    obtain ⟨first, taken, chars, steps, fits⟩ := placed.steps
    rw [placed.role] at role
    obtain ⟨cls, lead, c, same, mark⟩ := steps.of_closing fits role
    rw [same] at chars
    have width := @Lexeme.size_pos lexeme (by simp [chars])
    have found := @cell_of_lexeme early late lexeme (lexeme.size - 1) (by omega)
    rw [Lexeme.last_cell chars (utf8Size_of_isEdge (isEdge_of_isMark mark)),
      ← whole, ← List.getElem?_toArray, ← ofText_cells, placed.cls, cls] at found
    have place : literal.stop - 1 = sizeOf early + (lexeme.size - 1) := by omega
    exact ⟨c, place ▸ found, mark⟩
  bounds := fun _ member => literal_inside member

end PackageLayers.Source

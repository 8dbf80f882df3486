/-
Purpose: The places of a text at which something can be inserted.
Main exports: AllClosed, ClosedIn, Cut, cut_before_code, cut_behind_code,
  cut_after_literal, cut_after_last
-/
import PackageLayers.Proofs.Source.Cells

namespace PackageLayers.Source

/-!
A position is a place where a text can be cut if it stands between two lexemes.
Before and after a character of code it does, and so it does behind a literal that
is closed.  If no literal is broken off at a position, the text is inside of no
literal before a character of code there.
-/

/-- Whether every string literal has its closing delimiter. -/
def AllClosed (source : Source) : Prop :=
  ∀ literal ∈ source.literals, literal.closed = true

instance : DecidablePred AllClosed := fun source =>
  inferInstanceAs (Decidable (∀ literal ∈ source.literals, literal.closed = true))

/-- Whether the literals that end in a range, behind its start and up to its stop,
have their closing delimiter. -/
def ClosedIn (source : Source) (start stop : Nat) : Prop :=
  ∀ literal ∈ source.literals, start < literal.stop → literal.stop ≤ stop →
    literal.closed = true

theorem AllClosed.within {source : Source} (closed : AllClosed source)
    (start stop : Nat) : ClosedIn source start stop :=
  fun literal member _ _ => closed literal member

theorem ClosedIn.mono {source : Source} {start start' stop stop' : Nat}
    (closed : ClosedIn source start stop) (lower : start ≤ start')
    (upper : stop' ≤ stop) : ClosedIn source start' stop' :=
  fun literal member behind within => closed literal member
    (Nat.lt_of_le_of_lt lower behind) (Nat.le_trans within upper)

/-- A text in which literals are closed takes a fragment of the same kind. -/
theorem AllClosed.insert {source fragment : Source} (closed : AllClosed source)
    (own : AllClosed fragment) (position : Nat) :
    AllClosed (source.insert fragment position) := by
  intro literal member
  simp only [Source.insert, List.mem_append, List.mem_map, List.mem_filter] at member
  rcases member with (⟨early, -⟩ | ⟨inner, found, rfl⟩) | ⟨late, ⟨found, -⟩, rfl⟩
  · exact closed literal early
  · rw [Literal.moved]
    exact own inner found
  · rw [Literal.moved]
    exact closed late found

/-- A text is cut at a position, between two lexemes. -/
structure Cut (text : List Char) (position : Nat) (before after : List Char)
    (middle : Mode) : Prop where
  parts : text = before ++ after
  place : byteLength before = position
  reads : ∃ found, Reads .code before after found middle

/-! ### The lexeme at a position -/

theorem Cell.getElem?_ofChar {c d : Char} {cls : CharClass} {index : Nat}
    {cell : Cell} (here : (Cell.ofChar c cls)[index]? = some cell)
    (starts : cell.char? = some d) : index = 0 ∧ c = d ∧ cell.cls = cls := by
  cases index with
  | zero =>
      cases here
      cases starts
      exact ⟨rfl, rfl, rfl⟩
  | succ index =>
      simp only [Cell.ofChar, List.getElem?_cons_succ] at here
      have member := List.mem_of_getElem? here
      rw [List.eq_of_mem_replicate member] at starts
      cases starts

theorem cell_at_flatMap {chars : List Char} {cls : CharClass} {index : Nat}
    {cell : Cell} {c : Char}
    (here : (chars.flatMap (Cell.ofChar · cls))[index]? = some cell)
    (starts : cell.char? = some c) :
    cell.cls = cls ∧ ∃ before after, chars = before ++ c :: after ∧
      byteLength before = index := by
  induction chars generalizing index with
  | nil => cases here
  | cons first chars inductionHypothesis =>
      rw [List.flatMap_cons] at here
      by_cases inside : index < first.utf8Size
      · rw [List.getElem?_append_left (by rwa [length_ofChar])] at here
        obtain ⟨rfl, rfl, same⟩ := Cell.getElem?_ofChar here starts
        exact ⟨same, [], chars, rfl, rfl⟩
      · rw [List.getElem?_append_right (by rw [length_ofChar]; omega),
          length_ofChar] at here
        obtain ⟨same, before, after, rfl, length⟩ := inductionHypothesis here
        refine ⟨same, first :: before, after, rfl, ?_⟩
        simp only [byteLength]
        omega

/-- The lexeme in which a character stands. -/
theorem lexeme_at {found : List Lexeme} {position : Nat} {cell : Cell} {c : Char}
    (here : (cellsOf found)[position]? = some cell)
    (starts : cell.char? = some c) :
    ∃ early lexeme late before after, found = early ++ lexeme :: late ∧
      lexeme.cls = cell.cls ∧ lexeme.chars = before ++ c :: after ∧
      sizeOf early + byteLength before = position := by
  induction found generalizing position with
  | nil => cases here
  | cons head found inductionHypothesis =>
      rw [cellsOf, List.flatMap_cons] at here
      by_cases inside : position < head.size
      · rw [List.getElem?_append_left (by rwa [Lexeme.length_cells])] at here
        obtain ⟨same, before, after, chars, length⟩ :=
          cell_at_flatMap here starts
        exact ⟨[], head, found, before, after, rfl, same.symm, chars, by simpa⟩
      · rw [List.getElem?_append_right (by rw [Lexeme.length_cells]; omega),
          Lexeme.length_cells] at here
        obtain ⟨early, lexeme, late, before, after, rfl, same, chars, length⟩ :=
          inductionHypothesis here
        refine ⟨head :: early, lexeme, late, before, after, rfl, same, chars, ?_⟩
        rw [sizeOf_cons]
        omega

/-- A lexeme of a text, read between what stands before and behind it. -/
structure Placed (text : List Char) (early : List Lexeme) (lexeme : Lexeme)
    (late : List Lexeme) (middle : Mode) (now : Step) : Prop where
  steps : ∃ first taken, lexeme.chars = first :: taken ∧
    Steps middle first (taken ++ late.flatMap Lexeme.chars) now ∧
    now.more = taken.length
  cls : lexeme.cls = now.cls
  role : lexeme.role = now.role
  tracks : Tracks middle (carried 0 none early)
  before : Cut text (sizeOf early) (early.flatMap Lexeme.chars)
    (lexeme.chars ++ late.flatMap Lexeme.chars) middle
  behind : Cut text (sizeOf early + lexeme.size)
    (early.flatMap Lexeme.chars ++ lexeme.chars) (late.flatMap Lexeme.chars)
    now.next
  later : ∃ last, Reads now.next (late.flatMap Lexeme.chars) [] late last

theorem placed_of_eq {text : List Char} {early late : List Lexeme}
    {lexeme : Lexeme} (whole : lexemes text = early ++ lexeme :: late) :
    ∃ middle now, Placed text early lexeme late middle now := by
  have reads := reads_whole .code text
  obtain ⟨middle, first, second⟩ := reads.split early (lexeme :: late) whole
  have parts := reads.chars_eq
  rw [← lexemes, whole, List.flatMap_append] at parts
  rw [List.flatMap_cons] at first second parts
  rw [List.append_nil] at first
  have tracks := @Reads.tracks _ _ _ _ _ first none rfl 0
  generalize after_eq : late.flatMap Lexeme.chars = after at first second parts
  generalize both_eq : lexeme.chars ++ after = both at second
  cases second with
  | @more _ _ c taken rest _ now _ here fits behind =>
      simp only [List.cons_append, List.cons.injEq, true_and] at both_eq
      obtain rfl := List.append_cancel_left both_eq
      rw [List.append_nil] at here
      have alone : Reads middle (c :: taken) after
          [⟨c :: taken, now.cls, now.role⟩] now.next := by
        have one := @Reads.more _ _ _ _ [] after _ _ (by simpa using here) fits
            (Reads.done _ _)
        rwa [List.append_nil] at one
      have joined := first.append alone
      refine ⟨middle, now, ?_⟩
      subst after_eq
      exact
        { steps := ⟨c, taken, rfl, here ▸ steps_step _ _ _, fits⟩
          cls := rfl
          role := rfl
          tracks := tracks
          before := ⟨parts.symm, rfl, _, first⟩
          behind := ⟨by rw [List.append_assoc, parts],
            by rw [byteLength_append]; rfl, _, joined⟩
          later := ⟨_, behind⟩ }

/-! ### Before and after code -/

/-- A line break that ends an unclosed literal leaves it among the literals. -/
theorem unclosed_of_breaking {position : Nat}
    {current : Option (Nat × Delimiter)} {early late : List Lexeme}
    {lexeme : Lexeme} (role : lexeme.role = .breaking)
    (opened : (carried position current early).isSome) :
    ∃ literal ∈ literalsFrom position current (early ++ lexeme :: late),
      literal.closed = false ∧ literal.stop = position + sizeOf early := by
  induction early generalizing position current with
  | nil =>
      obtain ⟨⟨start, delimiter⟩, same⟩ := Option.isSome_iff_exists.mp opened
      simp only [carried] at same
      subst same
      rw [List.nil_append, literalsFrom_cons, role]
      exact ⟨⟨start, position, delimiter, false⟩, by simp [turn], rfl, rfl⟩
  | cons head early inductionHypothesis =>
      rw [List.cons_append, literalsFrom_cons]
      obtain ⟨literal, member, unclosed, stop⟩ := inductionHypothesis opened
      refine ⟨literal, List.mem_append_right _ member, unclosed, ?_⟩
      rw [stop, sizeOf_cons, Nat.add_assoc]

/-- A character of code is a lexeme on its own, behind which the text is code. -/
theorem placed_of_code {text : String} {position : Nat} {c : Char}
    (code : (ofText text).codeAt? position = some c) :
    ∃ early late middle now, Placed text.toList early ⟨[c], .code, now.role⟩ late
        middle now ∧
      lexemes text.toList = early ++ ⟨[c], .code, now.role⟩ :: late ∧
      sizeOf early = position ∧ now.next = .code ∧
      (middle = .code ∨ middle = .lineComment ∧ c = '\n' ∨
        now.role = .breaking ∧ c = '\n') := by
  have here := codeAt_eq_some code
  rw [ofText_cells, List.getElem?_toArray] at here
  obtain ⟨early, ⟨word, cls, role⟩, late, left, right, whole, same, chars, length⟩ :=
    lexeme_at here rfl
  obtain ⟨middle, now, placed⟩ := placed_of_eq whole
  obtain ⟨first, taken, both, steps, fits⟩ := placed.steps
  obtain rfl : cls = .code := same
  obtain rfl : role = now.role := placed.role
  obtain ⟨alone, next, kinds⟩ := steps.of_code placed.cls.symm
  obtain rfl : taken = [] := List.length_eq_zero_iff.mp (fits.symm.trans alone)
  obtain rfl : word = [first] := both
  obtain ⟨rfl, rfl, rfl⟩ : left = [] ∧ first = c ∧ right = [] := by
    cases left with
    | nil => simpa using chars
    | cons head left => simp at chars
  exact ⟨early, late, middle, now, placed, whole, length, next, kinds⟩

/-- The text can be cut behind a character of code. -/
theorem cut_behind_code {text : String} {position : Nat} {c : Char}
    (code : (ofText text).codeAt? position = some c) :
    ∃ before after, Cut text.toList (position + c.utf8Size) (before ++ [c]) after
      .code := by
  obtain ⟨early, late, middle, now, placed, -, rfl, next, -⟩ := placed_of_code code
  have behind := placed.behind
  rw [next] at behind
  exact ⟨_, _, behind⟩

/-- The cut in front of a character of code.  Only in front of a line break that
breaks off a literal the text is inside of one. -/
theorem cut_before_code {text : String} {position : Nat} {c : Char}
    (closed : ∀ literal ∈ (ofText text).literals, literal.stop = position →
      c = '\n' → literal.closed = true)
    (code : (ofText text).codeAt? position = some c) :
    ∃ before after middle, Cut text.toList position before (c :: after) middle ∧
      (middle = .code ∨ middle = .lineComment ∧ c = '\n') := by
  obtain ⟨early, late, middle, now, placed, whole, place, -, kinds⟩ :=
    placed_of_code code
  have before := placed.before
  rw [place] at before
  refine ⟨_, _, middle, before, kinds.imp id fun kinds => kinds.resolve_right ?_⟩
  rintro ⟨breaking, lineBreak⟩
  obtain ⟨first, taken, -, steps, -⟩ := placed.steps
  have agrees := steps.role_agrees
  unfold RoleAgrees at agrees
  rw [breaking] at agrees
  have tracks := placed.tracks
  rw [Tracks, agrees.1] at tracks
  obtain ⟨literal, member, unclosed, stop⟩ :=
    @unclosed_of_breaking _ _ _ late ⟨[c], .code, now.role⟩ breaking tracks
  rw [← whole] at member
  rw [closed literal member (by omega) lineBreak] at unclosed
  cases unclosed

/-! ### Behind a closed literal -/

/-- A closed literal ends with the lexeme that closes it. -/
theorem closing_of_mem {position : Nat} {current : Option (Nat × Delimiter)}
    {found : List Lexeme} {literal : Literal}
    (member : literal ∈ literalsFrom position current found)
    (closed : literal.closed = true) :
    ∃ early lexeme late, found = early ++ lexeme :: late ∧
      lexeme.role = .closing ∧
      position + sizeOf early + lexeme.size = literal.stop := by
  induction found generalizing position current with
  | nil =>
      cases current with
      | none => simp [literalsFrom] at member
      | some current =>
          simp only [literalsFrom, List.mem_singleton] at member
          subst member
          cases closed
  | cons lexeme found inductionHypothesis =>
      rw [literalsFrom_cons, List.mem_append] at member
      rcases member with ended | later
      · refine ⟨[], lexeme, found, rfl, ?_, ?_⟩ <;> cases current <;>
          cases role : lexeme.role <;> simp_all [turn]
      · obtain ⟨early, closing, late, rfl, role, stop⟩ :=
          inductionHypothesis later
        refine ⟨lexeme :: early, closing, late, rfl, role, ?_⟩
        rw [sizeOf_cons]
        omega

/-- The text can be cut behind a closed literal. -/
theorem cut_after_literal {text : String} {literal : Literal}
    (member : literal ∈ (ofText text).literals) (closed : literal.closed = true) :
    ∃ before after, Cut text.toList literal.stop before after .code := by
  obtain ⟨early, lexeme, late, whole, role, stop⟩ :=
    @closing_of_mem _ _ (lexemes text.toList) _ member closed
  obtain ⟨middle, now, placed⟩ := placed_of_eq whole
  obtain ⟨first, taken, both, steps, fits⟩ := placed.steps
  have agrees := steps.role_agrees
  unfold RoleAgrees at agrees
  rw [← placed.role, role] at agrees
  have behind := placed.behind
  rw [agrees.2] at behind
  rw [Nat.zero_add] at stop
  rw [stop] at behind
  exact ⟨_, _, behind⟩

/-! ### Behind the last position of a class -/

theorem cell_of_lexeme {early late : List Lexeme} {lexeme : Lexeme}
    {index : Nat} (inside : index < lexeme.size) :
    (cellsOf (early ++ lexeme :: late))[sizeOf early + index]? =
      lexeme.cells[index]? := by
  rw [cellsOf_append, List.getElem?_append_right (by simp), length_cellsOf,
    Nat.add_sub_cancel_left, cellsOf, List.flatMap_cons,
    List.getElem?_append_left (by rwa [Lexeme.length_cells])]

theorem Lexeme.cls_of_mem {lexeme : Lexeme} {cell : Cell}
    (member : cell ∈ lexeme.cells) : cell.cls = lexeme.cls := by
  obtain ⟨c, -, here⟩ := List.mem_flatMap.mp member
  rw [Cell.ofChar, List.mem_cons] at here
  rcases here with rfl | later
  · rfl
  · rw [List.eq_of_mem_replicate later]

/-- The lexeme in which a position lies. -/
theorem lexeme_over {found : List Lexeme} {position : Nat}
    (inside : position < sizeOf found) :
    ∃ early lexeme late index, found = early ++ lexeme :: late ∧
      index < lexeme.size ∧ sizeOf early + index = position := by
  induction found generalizing position with
  | nil => cases inside
  | cons head found inductionHypothesis =>
      by_cases first : position < head.size
      · exact ⟨[], head, found, position, rfl, first, Nat.zero_add _⟩
      · rw [sizeOf_cons] at inside
        obtain ⟨early, lexeme, late, index, rfl, bound, same⟩ :=
          @inductionHypothesis (position - head.size) (by omega)
        refine ⟨head :: early, lexeme, late, index, rfl, bound, ?_⟩
        rw [sizeOf_cons]
        omega

/-- A literal that is open at the end is not closed. -/
theorem unclosed_of_end {position : Nat} {current : Option (Nat × Delimiter)}
    {found : List Lexeme} (opened : (carried position current found).isSome) :
    ∃ literal ∈ literalsFrom position current found,
      literal.closed = false ∧ literal.stop = position + sizeOf found := by
  induction found generalizing position current with
  | nil =>
      obtain ⟨⟨start, delimiter⟩, same⟩ := Option.isSome_iff_exists.mp opened
      simp only [carried] at same
      subst same
      exact ⟨⟨start, position, delimiter, false⟩, by simp [literalsFrom], rfl, rfl⟩
  | cons head found inductionHypothesis =>
      rw [literalsFrom_cons]
      obtain ⟨literal, member, unclosed, stop⟩ := inductionHypothesis opened
      refine ⟨literal, List.mem_append_right _ member, unclosed, ?_⟩
      rw [stop, sizeOf_cons, Nat.add_assoc]

/-- A step of a literal ends it or leaves the text inside of one. -/
theorem Steps.of_literal {mode : Mode} {first : Char} {rest : List Char}
    {now : Step} (steps : Steps mode first rest now)
    (cls : now.cls = .literal) :
    now.next = .code ∨ now.next.isLiteral = true := by
  cases steps with
  | opening => exact Or.inr rfl
  | shielded => exact Or.inr rfl
  | shield => exact Or.inr rfl
  | closing => exact Or.inl rfl
  | inLiteral => exact Or.inr rfl
  | _ => cases cls

/-- Inside of a literal there is nothing else, up to a line break that breaks
it off. -/
theorem Steps.inside {mode : Mode} {first : Char} {rest : List Char}
    {now : Step} (steps : Steps mode first rest now)
    (inside : mode.isLiteral = true) :
    now.cls = .literal ∨ now.role = .breaking := by
  cases steps with
  | shielded => exact Or.inl rfl
  | shield => exact Or.inl rfl
  | closing => exact Or.inl rfl
  | breaking => exact Or.inr rfl
  | inLiteral => exact Or.inl rfl
  | _ => cases inside

/-- If no literal is broken off behind it, a lexeme that leaves the text inside of a
literal is followed by another one of a literal. -/
theorem Placed.literal_next {text : List Char} {early late : List Lexeme}
    {lexeme : Lexeme} {middle : Mode} {now : Step}
    (placed : Placed text early lexeme late middle now)
    (closed : ∀ literal ∈ literalsFrom 0 none (early ++ lexeme :: late),
      literal.stop = sizeOf early + lexeme.size → literal.closed = true)
    (inside : now.next.isLiteral = true) :
    ∃ next rest, late = next :: rest ∧ next.cls = .literal ∧
      next.chars ≠ [] := by
  have size : sizeOf (early ++ [lexeme]) = sizeOf early + lexeme.size := by
    rw [sizeOf_append, sizeOf_cons, sizeOf_nil, Nat.add_zero]
  have opened : (carried 0 none (early ++ [lexeme])).isSome := by
    obtain ⟨found, reads⟩ := placed.behind.reads
    have same : (carried 0 none (early ++ [lexeme])).isSome =
        now.next.isLiteral := by
      rw [carried_append, carried, carried]
      obtain ⟨first, taken, chars, steps, fits⟩ := placed.steps
      rw [placed.role]
      exact placed.tracks.step steps _ _
    rw [same, inside]
  obtain ⟨last, later⟩ := placed.later
  generalize late.flatMap Lexeme.chars = after at later
  cases later with
  | done =>
      obtain ⟨literal, member, unclosed, stop⟩ := unclosed_of_end opened
      rw [closed literal member (by omega)] at unclosed
      cases unclosed
  | @more _ _ c taken rest _ further _ here fits behind =>
      subst here
      refine ⟨_, _, rfl, ?_, List.cons_ne_nil _ _⟩
      refine ((steps_step _ _ _).inside inside).resolve_right fun breaking => ?_
      obtain ⟨literal, member, unclosed, stop⟩ :=
        @unclosed_of_breaking _ _ _ _ ⟨c :: taken, _, _⟩ breaking opened
      rw [List.append_assoc, List.singleton_append] at member
      rw [closed literal member (by omega)] at unclosed
      cases unclosed

/-- The text can be cut behind a position of code or of a literal if what follows
is of another class, or is another character of code. -/
theorem cut_after_last {text : String} {position : Nat} {cell : Cell}
    (closed : ClosedIn (ofText text) position (position + 1))
    (here : (ofText text).cells[position]? = some cell)
    (filled : cell.cls ≠ .comment)
    (final : ∀ next, (ofText text).cells[position + 1]? = some next →
      next.cls ≠ cell.cls ∨ cell.cls = .code ∧ next.char?.isSome) :
    ∃ before after, Cut text.toList (position + 1) before after .code := by
  rw [ofText_cells, List.getElem?_toArray] at here final
  obtain ⟨early, lexeme, late, index, whole, bound, place⟩ :=
    @lexeme_over (lexemes text.toList) position (by
      rw [← length_cellsOf]
      exact (List.getElem?_eq_some_iff.mp here).1)
  obtain ⟨middle, now, placed⟩ := placed_of_eq whole
  obtain ⟨first, taken, chars, steps, fits⟩ := placed.steps
  rw [whole, ← place, cell_of_lexeme bound] at here
  have cls := Lexeme.cls_of_mem (List.mem_of_getElem? here)
  have last : index + 1 = lexeme.size := by
    by_contra inner
    have shorter : index + 1 < lexeme.size := by omega
    obtain ⟨next, after⟩ : ∃ next, lexeme.cells[index + 1]? = some next := by
      rw [← Lexeme.length_cells] at shorter
      exact ⟨_, List.getElem?_eq_getElem shorter⟩
    have same := Lexeme.cls_of_mem (List.mem_of_getElem? after)
    have kinds := final next (by
      rw [whole, ← place, Nat.add_assoc, cell_of_lexeme shorter, after])
    rw [same, cls] at kinds
    obtain ⟨code, starts⟩ := kinds.resolve_left fun other => other rfl
    have alone := (steps.of_code (placed.cls.symm.trans code)).1
    obtain rfl : taken = [] := List.length_eq_zero_iff.mp (fits.symm.trans alone)
    obtain ⟨d, starts⟩ := Option.isSome_iff_exists.mp starts
    rw [Lexeme.cells, chars, List.flatMap_cons, List.flatMap_nil,
      List.append_nil] at after
    cases (Cell.getElem?_ofChar after starts).1
  have behind := placed.behind
  rw [← last, ← Nat.add_assoc, place] at behind
  have next_code : now.next = .code := by
    cases kind : cell.cls with
    | comment => exact absurd kind filled
    | code => exact (steps.of_code (by rw [← placed.cls, ← cls, kind])).2.1
    | literal =>
        refine (steps.of_literal (by rw [← placed.cls, ← cls, kind]))
          |>.resolve_right fun inside => ?_
        have ended : ∀ literal ∈ literalsFrom 0 none (early ++ lexeme :: late),
            literal.stop = sizeOf early + lexeme.size → literal.closed = true := by
          rw [← whole]
          exact fun literal member stop =>
            closed literal member (by omega) (by omega)
        obtain ⟨next, rest, rfl, other, nonempty⟩ :=
          placed.literal_next ended inside
        have width := Lexeme.size_pos nonempty
        obtain ⟨cell', after⟩ : ∃ cell', next.cells[0]? = some cell' := by
          rw [← Lexeme.length_cells] at width
          exact ⟨_, List.getElem?_eq_getElem width⟩
        have same := Lexeme.cls_of_mem (List.mem_of_getElem? after)
        have kinds := final cell' (by
          have found := @cell_of_lexeme (early ++ [lexeme]) rest _ _ width
          rw [sizeOf_append, sizeOf_cons, sizeOf_nil, Nat.add_zero,
            List.append_assoc, List.singleton_append, ← last] at found
          rw [whole, ← place, ← after, ← found]
          rfl)
        rw [same, other, kind] at kinds
        rcases kinds with different | ⟨code, -⟩
        · exact absurd rfl different
        · cases code
  rw [next_code] at behind
  exact ⟨_, _, behind⟩

end PackageLayers.Source

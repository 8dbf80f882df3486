/-
Purpose: How far a reading looks ahead.
Main exports: clashes, Apart, Reads.follow, Insertable, Insertable.lexemes
-/
import PackageLayers.Proofs.Source.Reading

namespace PackageLayers.Source

/-!
A step looks past its own lexeme only over number signs and quotes, and over one
character where a comment may start or end.  So what a text is read as stays the
same when something else follows, unless the last character of the text and the
first one that follows may be parts of one mark (`clashes`).
-/

/-- Whether two neighbouring characters may be parts of one mark. -/
def clashes (left right : Char) : Bool :=
  left = '/' && (right = '/' || right = '*') ||
    (left = '#' || left = '"') && (right = '#' || right = '"')

/-- No mark can reach from the end of one text into the next one. -/
def Apart (before after : List Char) : Prop :=
  ∀ left ∈ before.getLast?, ∀ right ∈ after.head?, clashes left right = false

theorem Apart.suffix {before rest after : List Char}
    (apart : Apart (before ++ rest) after) : Apart rest after := by
  intro left member
  refine apart left ?_
  rw [Option.mem_def] at member ⊢
  rw [List.getLast?_append, member]
  rfl

/-- Whether a character can be part of a delimiter. -/
def isMark (c : Char) : Bool := c = '"' || c = '#'

/-- A prefix made of marks does not see past a character that is none. -/
theorem isPrefixOf_append_eq {lead known : List Char} (left right : List Char)
    (marks : ∀ c ∈ lead, isMark c) (other : ∃ c ∈ known, isMark c = false) :
    lead.isPrefixOf (known ++ left) = lead.isPrefixOf (known ++ right) := by
  induction lead generalizing known with
  | nil => simp
  | cons first lead inductionHypothesis =>
      cases known with
      | nil => simp at other
      | cons head known =>
          simp only [List.cons_append, List.isPrefixOf_cons_cons]
          by_cases same : first = head
          · subst same
            have isOne : isMark first := marks first (by simp)
            obtain ⟨c, member, none⟩ := other
            rw [List.mem_cons] at member
            rw [inductionHypothesis (fun c member => marks c (by simp [member]))]
            rcases member with rfl | later
            · rw [isOne] at none
              cases none
            · exact ⟨c, later, none⟩
          · have different : (first == head) = false :=
              beq_eq_false_iff_ne.mpr same
            rw [different, Bool.false_and, Bool.false_and]

/-- A prefix that is no longer than what is known does not see past it. -/
theorem isPrefixOf_append_of_le {lead known : List Char} (left : List Char)
    (short : lead.length ≤ known.length) :
    lead.isPrefixOf (known ++ left) = lead.isPrefixOf known := by
  induction lead generalizing known with
  | nil => rfl
  | cons first lead inductionHypothesis =>
      cases known with
      | nil => exact absurd short (Nat.not_succ_le_zero _)
      | cons head known =>
          have shorter := Nat.le_of_succ_le_succ short
          rw [List.cons_append, List.isPrefixOf_cons_cons,
            inductionHypothesis shorter, List.isPrefixOf_cons_cons]

/-- A prefix that is longer than what is known reaches into what follows. -/
theorem isPrefixOf_append_of_lt {lead known after : List Char}
    (long : known.length < lead.length)
    (matches' : lead.isPrefixOf (known ++ after) = true) :
    ∃ c ∈ after.head?, c ∈ lead := by
  induction lead generalizing known with
  | nil => simp at long
  | cons first lead inductionHypothesis =>
      cases known with
      | nil =>
          cases after with
          | nil => simp at matches'
          | cons head after =>
              simp only [List.nil_append, List.isPrefixOf_cons_cons,
                Bool.and_eq_true, beq_iff_eq] at matches'
              exact ⟨head, rfl, by simp [matches'.1]⟩
      | cons head known =>
          simp only [List.length_cons, Nat.add_lt_add_iff_right] at long
          simp only [List.cons_append, List.isPrefixOf_cons_cons,
            Bool.and_eq_true] at matches'
          obtain ⟨c, member, found⟩ := inductionHypothesis long matches'.2
          exact ⟨c, member, by simp [found]⟩

theorem closer_marks (delimiter : Delimiter) :
    ∀ c ∈ delimiter.closer, isMark c := by
  intro c member
  rcases Delimiter.mem_closer member with rfl | rfl <;> rfl

/-! ### Openings -/

theorem ofOpening_cons_other {first : Char} {rest : List Char}
    (other : isMark first = false) :
    Delimiter.ofOpening? (first :: rest) = none := by
  simp only [isMark, Bool.or_eq_false_iff, decide_eq_false_iff_not] at other
  have notHash : (first == '#') = false := by simp [other.2]
  simp [Delimiter.ofOpening?, notHash, Ne.symm other.1]

/-- The number signs at the start of a text that holds something else. -/
theorem hashes_append {known : List Char} (after : List Char)
    (other : ∃ c ∈ known, c ≠ '#') :
    (known ++ after).takeWhile (· == '#') = known.takeWhile (· == '#') ∧
      (known ++ after).dropWhile (· == '#') =
        known.dropWhile (· == '#') ++ after := by
  induction known with
  | nil => simp at other
  | cons head known inductionHypothesis =>
      by_cases hash : head = '#'
      · subst hash
        obtain ⟨c, member, notHash⟩ := other
        rw [List.mem_cons] at member
        rcases member with rfl | later
        · exact absurd rfl notHash
        · have later := inductionHypothesis ⟨c, later, notHash⟩
          simp [later.1, later.2]
      · simp [hash]

/-- An opening delimiter is not looked for past a character that is no mark. -/
theorem ofOpening_append_eq {known : List Char} (left right : List Char)
    (other : ∃ c ∈ known, isMark c = false) :
    Delimiter.ofOpening? (known ++ left) =
      Delimiter.ofOpening? (known ++ right) := by
  have notHash : ∃ c ∈ known, c ≠ '#' := by
    obtain ⟨c, member, none⟩ := other
    refine ⟨c, member, ?_⟩
    rintro rfl
    cases none
  have stays : ∃ c ∈ known.dropWhile (· == '#'), isMark c = false := by
    obtain ⟨c, member, none⟩ := other
    refine ⟨c, ?_, none⟩
    rw [← List.takeWhile_append_dropWhile (p := (· == '#')) (l := known),
      List.mem_append] at member
    refine member.resolve_left fun hash => ?_
    have holds := List.all_eq_true.mp
      (List.all_takeWhile (p := (· == '#')) (l := known)) c hash
    simp only [beq_iff_eq] at holds
    subst holds
    cases none
  simp only [Delimiter.ofOpening?, (hashes_append left notHash).1,
    (hashes_append left notHash).2, (hashes_append right notHash).1,
    (hashes_append right notHash).2]
  rw [isPrefixOf_append_eq left right (List.all_iff_forall_prop.mp (by decide)) stays,
    @isPrefixOf_append_eq ['"'] _ left right
      (List.all_iff_forall_prop.mp (by decide)) stays]

/-- A prefix made of marks that lies inside of what is known if it is found at
all is found or not found before any text that starts with something else. -/
theorem isPrefixOf_append_other {lead known left right : List Char}
    (marks : ∀ c ∈ lead, isMark c) (other : ∀ c ∈ right.head?, isMark c = false)
    (inside : lead.isPrefixOf (known ++ left) = true →
      lead.length ≤ known.length) :
    lead.isPrefixOf (known ++ right) = lead.isPrefixOf (known ++ left) := by
  by_cases short : lead.length ≤ known.length
  · rw [isPrefixOf_append_of_le right short, isPrefixOf_append_of_le left short]
  · have missing : lead.isPrefixOf (known ++ left) = false := by
      cases found : lead.isPrefixOf (known ++ left) with
      | false => rfl
      | true => exact absurd (inside found) short
    rw [missing]
    cases found : lead.isPrefixOf (known ++ right) with
    | false => rfl
    | true =>
        obtain ⟨c, head, member⟩ :=
          isPrefixOf_append_of_lt (Nat.lt_of_not_le short) found
        have isOne := marks c member
        rw [other c head] at isOne
        cases isOne

/-- The same for the delimiter that a text opens with. -/
theorem ofOpening_append_other {known left right : List Char}
    (other : ∀ c ∈ right.head?, isMark c = false)
    (inside : ∀ delimiter, Delimiter.ofOpening? (known ++ left) = some delimiter →
      delimiter.width ≤ known.length) :
    Delimiter.ofOpening? (known ++ right) =
      Delimiter.ofOpening? (known ++ left) := by
  by_cases quoted : ∃ c ∈ known, c ≠ '#'
  · simp only [Delimiter.ofOpening?, (hashes_append left quoted).1,
      (hashes_append left quoted).2] at inside ⊢
    simp only [(hashes_append right quoted).1, (hashes_append right quoted).2]
    have measure : (known.takeWhile (· == '#')).length +
        (known.dropWhile (· == '#')).length = known.length := by
      rw [← List.length_append, List.takeWhile_append_dropWhile]
    rw [@isPrefixOf_append_other ['"', '"', '"'] _ _ _
        (List.all_iff_forall_prop.mp (by decide)) other
        fun found => by
        have bound := inside _ (if_pos found)
        simp only [Delimiter.width, Delimiter.quotes, if_true] at bound
        simp only [List.length_cons, List.length_nil]
        omega,
      @isPrefixOf_append_other ['"'] _ _ _
        (List.all_iff_forall_prop.mp (by decide)) other fun _ => by
        obtain ⟨c, member, notHash⟩ := quoted
        rw [← List.takeWhile_append_dropWhile (p := (· == '#')) (l := known),
          List.mem_append] at member
        rcases member with hash | later
        · have holds := List.all_eq_true.mp
            (List.all_takeWhile (p := (· == '#')) (l := known)) c hash
          exact absurd (beq_iff_eq.mp holds) notHash
        · exact List.length_pos_of_mem later]
  · have hashes : ∀ c ∈ known, c = '#' := fun c member =>
      Classical.byContradiction fun different => quoted ⟨c, member, different⟩
    have before : Delimiter.ofOpening? (known ++ left) = none := by
      cases opens : Delimiter.ofOpening? (known ++ left) with
      | none => rfl
      | some delimiter =>
          have lead := Delimiter.opener_prefix_of_ofOpening opens
          have short := inside delimiter opens
          rw [← Delimiter.length_opener] at short
          have within := List.prefix_of_prefix_length_le lead
            (List.prefix_append known left) short
          have quote : '"' ∈ delimiter.opener := by
            have positive := delimiter.quotes_pos
            simp only [Delimiter.opener, List.mem_append, List.mem_replicate]
            exact Or.inr ⟨by omega, trivial⟩
          exact absurd (hashes _ (within.subset quote)) (by decide)
    have head : right.takeWhile (· == '#') = [] ∧
        right.dropWhile (· == '#') = right ∧ ['"'].isPrefixOf right = false ∧
        ['"', '"', '"'].isPrefixOf right = false := by
      cases right with
      | nil => decide
      | cons c right =>
          have none := other c rfl
          simp only [isMark, Bool.or_eq_false_iff, decide_eq_false_iff_not]
            at none
          have quote : ('"' == c) = false :=
            beq_eq_false_iff_ne.mpr (Ne.symm none.1)
          simp [none.2, List.isPrefixOf_cons_cons, quote]
    have through : (known ++ right).dropWhile (· == '#') = right := by
      rw [List.dropWhile_append_of_pos (by simpa using hashes), head.2.1]
    rw [before]
    simp only [Delimiter.ofOpening?, through, head.2.2]
    rfl

/-! ### Steps -/

/-- A step is the same before all texts if a character that is no mark stands
between. -/
theorem step_append_eq {mode : Mode} {first : Char} {known : List Char}
    (left right : List Char) (filled : known ≠ [])
    (other : ∃ c ∈ first :: known, isMark c = false) :
    step mode first (known ++ left) = step mode first (known ++ right) := by
  have head : (known ++ left).head? = (known ++ right).head? := by
    cases known with
    | nil => exact absurd rfl filled
    | cons => rfl
  cases mode with
  | code =>
      have opens := ofOpening_append_eq left right other
      simp only [List.cons_append] at opens
      simp only [step, stepCode, head, opens]
  | lineComment => rfl
  | blockComment outer => simp only [step, stepBlock, head]
  | literal delimiter escaped =>
      cases escaped with
      | true => rfl
      | false =>
          have closes := isPrefixOf_append_eq left right
            (closer_marks delimiter) other
          simp only [List.cons_append] at closes
          simp only [step, stepLiteral, closes]

/-- A step that lies inside of what is known is the same before a text that
starts with neither a mark nor a part of a comment's. -/
theorem step_append_other {mode : Mode} {first : Char}
    {known left right : List Char} (filled : known ≠ [])
    (other : ∀ c ∈ right.head?, isMark c = false)
    (inside : (step mode first (known ++ left)).more ≤ known.length) :
    step mode first (known ++ right) = step mode first (known ++ left) := by
  have head : (known ++ right).head? = (known ++ left).head? := by
    cases known with
    | nil => exact absurd rfl filled
    | cons => rfl
  cases mode with
  | code =>
      simp only [step, stepCode, head] at inside ⊢
      split
      · rfl
      · rename_i noLine
        rw [if_neg noLine] at inside
        split
        · rfl
        · rename_i noBlock
          rw [if_neg noBlock] at inside
          have opens := @ofOpening_append_other (first :: known) left _ other
              fun delimiter found => by
              rw [List.cons_append] at found
              rw [found] at inside
              simp only at inside
              simp only [List.length_cons]
              omega
          simp only [List.cons_append] at opens
          rw [opens]
  | lineComment => rfl
  | blockComment outer => simp only [step, stepBlock, head]
  | literal delimiter escaped =>
      cases escaped with
      | true => rfl
      | false =>
          simp only [step, stepLiteral] at inside ⊢
          split
          · rfl
          · rename_i noEscape
            rw [if_neg noEscape] at inside
            have closes := @isPrefixOf_append_other _ (first :: known) left _
                (closer_marks delimiter) other fun found => by
                rw [List.cons_append] at found
                rw [if_pos found] at inside
                simp only at inside
                rw [Delimiter.length_closer, List.length_cons]
                omega
            simp only [List.cons_append] at closes
            rw [closes]

/-- Line comments start with two slashes. -/
theorem Steps.slashes {mode : Mode} {first : Char} {rest : List Char}
    {now : Step} (steps : Steps mode first rest now)
    (next : now.next = .lineComment) :
    mode = .lineComment ∨ first = '/' ∧ now.more = 1 := by
  cases steps with
  | lineComment => exact Or.inr ⟨rfl, rfl⟩
  | inLine => exact Or.inl rfl
  | _ => cases next

/-- A step that takes one character and ends in code is the same before every
text that is apart from that character. -/
theorem step_alone {mode : Mode} {first : Char} {left right : List Char}
    (apart : Apart [first] right) (alone : (step mode first left).more = 0)
    (next : (step mode first left).next = .code) :
    step mode first right = step mode first left := by
  have other (mark : isMark first) : ∀ c ∈ right.head?, isMark c = false := by
    intro c head
    have parts := apart first rfl c head
    simp only [isMark, Bool.or_eq_true, decide_eq_true_eq] at mark
    rcases mark with rfl | rfl <;> simp_all [clashes, isMark]
  cases mode with
  | code =>
      simp only [step, stepCode] at alone next ⊢
      have calm : ¬(first = '/' ∧ right.head? = some '/') ∧
          ¬(first = '/' ∧ right.head? = some '*') := by
        constructor <;>
        · rintro ⟨rfl, head⟩
          have parts := apart '/' rfl _ head
          simp [clashes] at parts
      rw [if_neg calm.1, if_neg calm.2]
      split at alone
      · cases alone
      · rename_i noLine
        rw [if_neg noLine]
        split at alone
        · cases alone
        · rename_i noBlock
          rw [if_neg noBlock]
          by_cases mark : isMark first
          · have opens := @ofOpening_append_other [first] left _ (other mark)
                fun delimiter found => by
                rw [List.singleton_append] at found
                rw [found] at alone
                simp only at alone
                rw [List.length_singleton]
                omega
            rw [List.singleton_append, List.singleton_append] at opens
            rw [opens]
          · rw [ofOpening_cons_other (by simpa using mark),
              ofOpening_cons_other (by simpa using mark)]
  | lineComment => rfl
  | blockComment outer =>
      simp only [step, stepBlock] at alone next
      split at next
      · cases next
      · rename_i noOpening
        rw [if_neg noOpening] at alone
        split at next
        · rename_i closes
          rw [if_pos closes] at alone
          cases outer <;> cases alone
        · cases next
  | literal delimiter escaped =>
      cases escaped with
      | true => rfl
      | false =>
          simp only [step, stepLiteral] at alone next ⊢
          split
          · rfl
          · rename_i noEscape
            rw [if_neg noEscape] at alone next
            have closes : delimiter.closer.isPrefixOf (first :: right) =
                delimiter.closer.isPrefixOf (first :: left) := by
              by_cases mark : isMark first
              · refine @isPrefixOf_append_other _ [first] _ _
                    (closer_marks delimiter) (other mark) fun found => ?_
                rw [List.singleton_append] at found
                rw [if_pos found] at alone
                simp only at alone
                rw [Delimiter.length_closer, List.length_singleton]
                omega
              · exact @isPrefixOf_append_eq _ [first] right left
                    (closer_marks delimiter)
                    ⟨first, by simp, by simpa using mark⟩
            rw [closes]

namespace Reads

theorem slash_mem {mode last : Mode} {chars after : List Char}
    {found : List Lexeme} (reads : Reads mode chars after found last)
    (comment : last = .lineComment) : mode = .lineComment ∨ '/' ∈ chars := by
  induction reads with
  | done => exact Or.inl comment
  | more here fits later inductionHypothesis =>
      rcases inductionHypothesis comment with next | inside
      · rw [← here] at next
        rcases (steps_step _ _ _).slashes next with mode | ⟨rfl, -⟩
        · exact Or.inl mode
        · exact Or.inr (by simp)
      · exact Or.inr (by simp [inside])

/-- What is read of a text that ends in a line comment, or in code apart from
what follows, is read of it whatever follows. -/
theorem follow {mode last : Mode} {chars left right : List Char}
    {found : List Lexeme} (reads : Reads mode chars left found last)
    (parted : last = .lineComment ∨ last = .code ∧ Apart chars right) :
    Reads mode chars right found last := by
  induction reads with
  | done => exact Reads.done _ _
  | @more mode last first taken rest left now found here fits later
      inductionHypothesis =>
      have later' := inductionHypothesis <| parted.imp id fun code =>
        ⟨code.1, @Apart.suffix (first :: taken) _ _ code.2⟩
      refine Reads.more ?_ fits later'
      rw [← here] at fits ⊢
      by_cases comment : mode = .lineComment
      · subst comment
        rfl
      by_cases filled : taken ++ rest = []
      · obtain ⟨rfl, rfl⟩ := List.append_eq_nil_iff.mp filled
        simp only [List.append_nil, List.nil_append] at *
        cases later with
        | done =>
            rcases parted with line | ⟨code, apart⟩
            · rw [← here] at line
              rcases (steps_step _ _ _).slashes line with same | ⟨-, two⟩
              · exact absurd same comment
              · rw [two] at fits
                cases fits
            · rw [← here] at code
              exact step_alone apart fits code
      · by_cases marks : ∀ c ∈ first :: (taken ++ rest), isMark c
        · have inside : (step mode first (taken ++ rest ++ left)).more ≤
              (taken ++ rest).length := by
            rw [fits, List.length_append]
            exact Nat.le_add_right _ _
          rcases parted with line | ⟨code, apart⟩
          · have reads := Reads.more here (by rw [← here]; exact fits) later
            rcases reads.slash_mem line with same | slash
            · exact absurd same comment
            · exact absurd (marks _ slash) (by decide)
          · refine step_append_other filled (fun c head => ?_) inside
            have final := List.getLast?_eq_some_getLast
              (List.cons_ne_nil first (taken ++ rest))
            have mark := marks _ (List.mem_of_getLast? final)
            have parts := apart _ final c head
            simp only [isMark, Bool.or_eq_true, decide_eq_true_eq] at mark
            rcases mark with same | same <;> rw [same] at parts <;>
              simp_all [clashes, isMark]
        · obtain ⟨c, member, none⟩ : ∃ c ∈ first :: (taken ++ rest),
              isMark c = false := by
            by_contra absent
            refine marks fun c member => ?_
            cases mark : isMark c with
            | true => rfl
            | false => exact absurd ⟨c, member, mark⟩ absent
          exact step_append_eq right left filled ⟨c, member, none⟩

/-- A line break ends a line comment and is code, as it is after code. -/
theorem lineBreak {last : Mode} {chars after : List Char} {found : List Lexeme}
    (start : chars.head? = some '\n') :
    Reads .lineComment chars after found last ↔
      Reads .code chars after found last := by
  have same (rest : List Char) :
      step .lineComment '\n' rest = step .code '\n' rest := by
    simp [step, stepCode, ofOpening_cons_other (show isMark '\n' = false by rfl)]
  constructor
  · intro reads
    cases reads with
    | done => cases start
    | more here fits later =>
        cases start
        rw [same] at here
        exact Reads.more here fits later
  · intro reads
    cases reads with
    | done => cases start
    | more here fits later =>
        cases start
        rw [← same] at here
        exact Reads.more here fits later

end Reads

/-! ### Insertions -/

/-- A fragment can be put between two parts of a text without changing how the
parts are read: the place is in code, or it is a line break at the end of a
comment and the fragment starts with one too; the fragment is read in the same way
on its own and before what follows, and ends as code; and no mark reaches into it. -/
structure Insertable (before fragment after : List Char) : Prop where
  place : ∃ found middle, Reads .code before after found middle ∧
    (middle = .code ∨ middle = .lineComment ∧ fragment.head? = some '\n' ∧
      after.head? = some '\n')
  whole : ∃ found, Reads .code fragment [] found .code ∧
    Reads .code fragment after found .code
  apartBefore : Apart before fragment

/-- The lexemes of a text with a fragment in it are those of the text and those
of the fragment. -/
theorem Insertable.lexemes {before fragment after : List Char}
    (fits : Insertable before fragment after) :
    ∃ early late middle, Reads .code before after early middle ∧
      (middle = .code ∨ middle = .lineComment) ∧
      late.flatMap Lexeme.chars = after ∧
      Source.lexemes (before ++ after) = early ++ late ∧
      Source.lexemes (before ++ fragment ++ after) =
        early ++ Source.lexemes fragment ++ late := by
  obtain ⟨early, middle, first, kind⟩ := fits.place
  obtain ⟨found, alone, inner⟩ := fits.whole
  have second := reads_whole middle after
  refine ⟨early, lexemesAfter middle 0 after, middle, first,
    kind.imp_right And.left, second.chars_eq, first.lexemes, ?_⟩
  by_cases empty : fragment = []
  · subst empty
    simpa [Source.lexemes, lexemesAfter] using first.lexemes
  have alone : Source.lexemes fragment = found := by
    have read := alone.lexemes
    simpa [Source.lexemes, lexemesAfter] using read
  have apart : Apart before (fragment ++ after) := by
    intro left member right head
    cases fragment with
    | nil => exact absurd rfl empty
    | cons => exact fits.apartBefore left member right head
  have joined : ∃ last, Reads .code (before ++ (fragment ++ after)) []
      (early ++ (found ++ lexemesAfter middle 0 after)) last := by
    rcases kind with rfl | ⟨rfl, breakBefore, breakAfter⟩
    · have first := @Reads.follow _ _ _ _ (fragment ++ after) _ first
          (Or.inr ⟨rfl, apart⟩)
      have later := @Reads.append _ _ _ _ _ [] _ _
          (by simpa only [List.append_nil] using inner) second
      exact ⟨_, Reads.append (by simpa only [List.append_nil] using first) later⟩
    · have first := @Reads.follow _ _ _ _ (fragment ++ after) _ first
          (Or.inl rfl)
      have inner := (Reads.lineBreak breakBefore).mpr inner
      have second := (Reads.lineBreak breakAfter).mp second
      have later := @Reads.append _ _ _ _ _ [] _ _
          (by simpa only [List.append_nil] using inner) second
      exact ⟨_, Reads.append (by simpa only [List.append_nil] using first) later⟩
  obtain ⟨last, joined⟩ := joined
  have read := joined.lexemes
  rw [alone, List.append_assoc, List.append_assoc]
  simpa [Source.lexemes, lexemesAfter] using read

end PackageLayers.Source

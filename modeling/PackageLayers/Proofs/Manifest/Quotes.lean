/-
Purpose: Quoted values in source text.
Main exports: reads_quote, literalsFrom_quoted, unescape_flatMap, value_quotedLiteral,
  literalAt_quote
-/
import PackageLayers.Manifest.Edit
import PackageLayers.Proofs.Source.Literals

namespace PackageLayers.Manifest

open Source (CharClass Delimiter Lexeme Reads byteLength)

/-!
Quoting and reading are inverse.  A quoted value is read as one literal wherever code
stands in front of it, as long as its quotes are not taken for a part of what is next
to them, and the literal has the value that was quoted.
-/

/-- The delimiter of quoted values. -/
def plainQuote : Delimiter := ⟨false, 0⟩

/-- A lexeme of one character. -/
def single (cls : CharClass) (c : Char) : Lexeme := ⟨[c], cls, .plain⟩

/-- The lexemes of a quoted value. -/
def quotedLexemes (value : String) : List Lexeme :=
  ⟨['"'], .literal, .opening plainQuote⟩ ::
    ((value.toList.flatMap quoteChar).map (single .literal) ++
      [⟨['"'], .literal, .closing⟩])

/-! ### Reading -/

theorem step_shield (rest : List Char) :
    Source.step (.literal plainQuote false) '\\' rest =
      .plain .literal (.literal plainQuote true) := rfl

theorem step_inLiteral {c : Char} (rest : List Char) (quote : c ≠ '"')
    (shield : c ≠ '\\') (lineBreak : c ≠ '\n') :
    Source.step (.literal plainQuote false) c rest =
      .plain .literal (.literal plainQuote false) := by
  have closer : plainQuote.closer.isPrefixOf (c :: rest) = false := by
    have other : ('"' == c) = false := beq_eq_false_iff_ne.mpr (Ne.symm quote)
    rw [show plainQuote.closer = ['"'] by rfl, List.isPrefixOf_cons_cons, other,
      Bool.false_and]
  simp only [Source.step, Source.stepLiteral, closer]
  simp [shield, lineBreak]

theorem reads_quoteChar (c : Char) (after : List Char) :
    Reads (.literal plainQuote false) (quoteChar c) after
      ((quoteChar c).map (single .literal)) (.literal plainQuote false) := by
  have shielded (d : Char) :
      Reads (.literal plainQuote false) ['\\', d] after
        ([ '\\', d].map (single .literal)) (.literal plainQuote false) :=
    @Reads.more _ _ _ [] _ _ _ _ (step_shield _) rfl
        (@Reads.more _ _ _ [] _ _ _ _ rfl rfl (Reads.done _ _))
  unfold quoteChar
  split
  · exact shielded '"'
  · split
    · exact shielded '\\'
    · split
      · exact shielded 'n'
      · exact @Reads.more _ _ _ [] _ _ _ _ (step_inLiteral _ ‹_› ‹_› ‹_›) rfl
            (Reads.done _ _)

theorem reads_body (value : List Char) (after : List Char) :
    Reads (.literal plainQuote false) (value.flatMap quoteChar) after
      ((value.flatMap quoteChar).map (single .literal))
      (.literal plainQuote false) := by
  induction value with
  | nil => exact Reads.done _ _
  | cons c value inductionHypothesis =>
      rw [List.flatMap_cons, List.map_append]
      exact (reads_quoteChar c _).append inductionHypothesis

theorem quoteChar_head (c : Char) :
    ∃ d rest, quoteChar c = d :: rest ∧ d ≠ '"' := by
  unfold quoteChar
  split
  · exact ⟨_, _, rfl, by decide⟩
  · split
    · exact ⟨_, _, rfl, by decide⟩
    · split
      · exact ⟨_, _, rfl, by decide⟩
      · exact ⟨_, _, rfl, ‹_›⟩

theorem step_opening {rest : List Char}
    (apart : ['"', '"'].isPrefixOf rest = false) :
    Source.step .code '"' rest =
      { more := 0
        cls := .literal
        role := .opening plainQuote
        next := .literal plainQuote false } := by
  have three : ['"', '"', '"'].isPrefixOf ('"' :: rest) = false := by
    rw [List.isPrefixOf_cons_cons, apart, Bool.and_false]
  have opens : Delimiter.ofOpening? ('"' :: rest) = some plainQuote := by
    simp [Delimiter.ofOpening?, three, plainQuote]
  simp only [Source.step, Source.stepCode, opens]
  rfl

/-- A quoted value is read as one literal unless another quote follows. -/
theorem reads_quote (value : String) {after : List Char}
    (apart : after.head? ≠ some '"') :
    Reads .code (quote value).toList after (quotedLexemes value) .code := by
  have closes : Reads (.literal plainQuote false) ['"'] after
      [⟨['"'], .literal, .closing⟩] .code := by
    refine @Reads.more _ _ _ [] [] _
      { more := 0, cls := .literal, role := .closing, next := .code } _ ?_ rfl
      (Reads.done _ _)
    simp [Source.step, Source.stepLiteral, plainQuote, Delimiter.closer,
      Delimiter.quotes, Delimiter.width]
  have inner := (reads_body value.toList (['"'] ++ after)).append closes
  have text : (quote value).toList =
      '"' :: ([] ++ (value.toList.flatMap quoteChar ++ ['"'])) := by
    rw [quote, String.toList_ofList]
    rfl
  rw [text]
  refine Reads.more (step_opening ?_) rfl inner
  cases chars : value.toList with
  | nil =>
      cases after with
      | nil => simp
      | cons d after =>
          simp only [List.flatMap_nil, List.nil_append, List.singleton_append,
            List.isPrefixOf_cons_cons]
          rw [List.head?_cons, ne_eq, Option.some.injEq] at apart
          simp [Ne.symm apart]
  | cons c rest =>
      obtain ⟨d, more, head, other⟩ := quoteChar_head c
      simp only [List.flatMap_cons, head, List.nil_append, List.cons_append,
        List.isPrefixOf_cons_cons]
      simp [Ne.symm other]

/-! ### Literals -/

theorem literalsFrom_single (cls : CharClass) (text : List Char)
    (rest : List Lexeme) (position : Nat)
    (current : Option (Nat × Delimiter)) :
    Source.literalsFrom position current (text.map (single cls) ++ rest) =
      Source.literalsFrom (position + byteLength text) current rest := by
  induction text generalizing position with
  | nil => rfl
  | cons c text inductionHypothesis =>
      rw [List.map_cons, List.cons_append, Source.literalsFrom_cons]
      have size : (single cls c).size = c.utf8Size := by
        rw [Lexeme.size, single, byteLength, byteLength, Nat.add_zero]
      have still : Source.turn position (position + (single cls c).size)
          (single cls c).role current = ([], current) := by
        cases current <;> rfl
      rw [still, List.nil_append, inductionHypothesis, size, byteLength,
        Nat.add_assoc]

theorem byteLength_quote (value : String) :
    byteLength (quote value).toList =
      byteLength (value.toList.flatMap quoteChar) + 2 := by
  rw [quote, String.toList_ofList, byteLength, Source.byteLength_append]
  have one : '"'.utf8Size = 1 := by decide
  simp only [byteLength, one]
  omega

/-- The literal that a quoted value is at a position. -/
def quotedLiteral (position : Nat) (value : String) : Source.Literal :=
  ⟨position, position + byteLength (quote value).toList, plainQuote, true⟩

theorem literalsFrom_quoted (value : String) (rest : List Lexeme)
    (position : Nat) :
    Source.literalsFrom position none (quotedLexemes value ++ rest) =
      quotedLiteral position value ::
        Source.literalsFrom (position + byteLength (quote value).toList) none
          rest := by
  have one : '"'.utf8Size = 1 := by decide
  have size (role : Source.Role) :
      (⟨['"'], .literal, role⟩ : Lexeme).size = 1 := by
    rw [Lexeme.size, byteLength, byteLength, one]
  have stop : position + 1 + byteLength (value.toList.flatMap quoteChar) + 1 =
      position + byteLength (quote value).toList := by
    rw [byteLength_quote]
    omega
  rw [quotedLexemes, List.cons_append, List.append_assoc,
    Source.literalsFrom_cons, size]
  simp only [Source.turn, List.nil_append]
  rw [literalsFrom_single, List.singleton_append, Source.literalsFrom_cons, size]
  simp only [Source.turn, List.singleton_append, stop]
  rfl

/-! ### Values -/

theorem unescape_quoteChar (c : Char) (rest : List Char) :
    Source.unescape (quoteChar c ++ rest) = c :: Source.unescape rest := by
  unfold quoteChar
  split
  · rename_i same
    subst same
    rfl
  · split
    · rename_i same
      subst same
      rfl
    · split
      · rename_i same
        subst same
        rfl
      · rename_i shield _
        cases rest with
        | nil => rfl
        | cons d rest =>
            rw [List.singleton_append, Source.unescape, if_neg shield]

/-- Quoting is undone by reading. -/
theorem unescape_flatMap (value : List Char) :
    Source.unescape (value.flatMap quoteChar) = value := by
  induction value with
  | nil => rfl
  | cons c value inductionHypothesis =>
      rw [List.flatMap_cons, unescape_quoteChar, inductionHypothesis]

/-- A quoted value is its body between two quotes. -/
theorem quote_eq (value : String) :
    (quote value).toList = plainQuote.opener ++
      (value.toList.flatMap quoteChar ++ plainQuote.closer) := by
  rw [quote, String.toList_ofList]
  rfl

theorem value_quotedLiteral (position : Nat) (value : String) :
    (quotedLiteral position value).value (quote value).toList = value := by
  have stop : (quotedLiteral position value).start + byteLength
      ((quotedLiteral position value).delimiter.opener ++
        (value.toList.flatMap quoteChar ++
          (quotedLiteral position value).delimiter.closer)) =
      (quotedLiteral position value).stop := by
    simp only [quotedLiteral, quote_eq]
  have read := Source.value_of_closer stop
  have plain : (quotedLiteral position value).delimiter = plainQuote := rfl
  rw [plain, ← quote_eq] at read
  rw [read, Delimiter.read, if_pos (by rfl), unescape_flatMap, String.ofList_toList]

/-! ### A quoted value in a text -/

/-- A quoted value is one literal of every text in which code stands in front of it, and
it is found there with the value that was quoted.  What stands in front must not end
with a number sign or a quote, and what follows must not start with a quote, since these
would be read as parts of the delimiters. -/
theorem literalAt_quote (value : String) {before after : String}
    (code : Source.modeAfter .code 0 before.toList = .code)
    (lead : ∀ c ∈ before.toList.getLast?, c ≠ '#' ∧ c ≠ '"')
    (apart : after.toList.head? ≠ some '"') :
    quotedLiteral (byteLength before.toList) value ∈
        (Source.ofText (before ++ quote value ++ after)).literals ∧
      (Source.ofText (before ++ quote value ++ after)).literalAt?
          (byteLength before.toList) =
        some ⟨byteLength before.toList,
          byteLength before.toList + byteLength (quote value).toList, value⟩ := by
  have parts : (before ++ quote value ++ after).toList =
      before.toList ++ (quote value).toList ++ after.toList := by
    rw [String.toList_append, String.toList_append]
  -- no mark reaches from the text in front into the quotes
  have parted : Source.Apart before.toList ((quote value).toList ++ after.toList) := by
    intro left last right first
    obtain ⟨hash, mark⟩ := lead left last
    rw [quote, String.toList_ofList, List.cons_append, List.head?_cons] at first
    cases first
    simp [Source.clashes, hash, mark]
  have reads := Source.reads_whole .code before.toList
  rw [code] at reads
  have front := reads.follow (Or.inr ⟨rfl, parted⟩)
  have whole := (front.append (reads_quote value apart)).lexemes
  have place : Source.sizeOf (Source.lexemesAfter .code 0 before.toList) =
      byteLength before.toList := by
    rw [Source.sizeOf, reads.chars_eq]
  have member : quotedLiteral (byteLength before.toList) value ∈
      (Source.ofText (before ++ quote value ++ after)).literals := by
    change _ ∈ Source.literalsOf (before ++ quote value ++ after).toList
    rw [Source.literalsOf, Source.lexemes, parts, whole, List.append_assoc,
      Source.literalsFrom_append _ (reads.carried_eq_none rfl 0), Nat.zero_add, place,
      literalsFrom_quoted]
    exact List.mem_append_right _ List.mem_cons_self
  refine ⟨member, ?_⟩
  have found := Source.literalAt_of_mem member
  have slice := Source.slice_between parts
  have known := value_quotedLiteral (byteLength before.toList) value
  rw [Source.Literal.quoted] at found
  simp only [quotedLiteral] at found known
  rw [found, slice, String.toList_ofList, known]

/-- A value with quotes, comment openers and a backslash at its end is found again. -/
theorem literalAt_quote_marks :
    quotedLiteral 10 "\"/*#é\n\\" ∈
        (Source.ofText "f(/* \" */ \"\\\"/*#é\\n\\\\\")").literals ∧
      (Source.ofText "f(/* \" */ \"\\\"/*#é\\n\\\\\")").literalAt? 10 =
        some ⟨10, 23, "\"/*#é\n\\"⟩ := by
  have code : Source.modeAfter .code 0 "f(/* \" */ ".toList = .code := by
    decide +kernel
  have last : "f(/* \" */ ".toList.getLast? = some ' ' := by
    decide +kernel
  have lead : ∀ c ∈ "f(/* \" */ ".toList.getLast?, c ≠ '#' ∧ c ≠ '"' := by
    intro c here
    rw [last] at here
    cases here
    decide
  exact @literalAt_quote "\"/*#é\n\\" "f(/* \" */ " ")" code lead (by decide +kernel)

end PackageLayers.Manifest

/-
Purpose: Texts made of plain code and quoted values.
Main exports: Fragment, Fragment.reads, Fragment.literalAt, Fragment.infix_of_codeAt
-/
import PackageLayers.Proofs.Manifest.Quotes
import PackageLayers.Proofs.Source.Homes

namespace PackageLayers.Manifest

open Source (CharClass Delimiter Lexeme Reads isEdge isMark byteLength)

/-!
What is inserted into a manifest is code of ASCII characters with quoted values in
it.  Read on its own it is code and literals as they are written, and the literals
have the values that were quoted.
-/

/-- Code, and quoted values with code behind each of them. -/
structure Fragment where
  lead : List Char
  rest : List (String × List Char)

namespace Fragment

/-- The text of a fragment. -/
def chars (fragment : Fragment) : List Char :=
  fragment.lead ++
    fragment.rest.flatMap fun part => (quote part.1).toList ++ part.2

/-- The lexemes of a fragment. -/
def lexemes (fragment : Fragment) : List Lexeme :=
  fragment.lead.map (single .code) ++
    fragment.rest.flatMap fun part =>
      quotedLexemes part.1 ++ part.2.map (single .code)

end Fragment

/-! ### Reading -/

/-- Whether a character of one position starts neither comment nor literal. -/
def isPlain (c : Char) : Bool := !isEdge c && c.utf8Size = 1

theorem step_of_plain {c : Char} (rest : List Char) (plain : isPlain c) :
    Source.step .code c rest = .plain .code .code := by
  have edge : isEdge c = false := by
    simp only [isPlain, Bool.and_eq_true, Bool.not_eq_true'] at plain
    exact plain.1
  have mark : isMark c = false := by
    cases mark : isMark c with
    | false => rfl
    | true =>
        rw [Source.isEdge_of_isMark mark] at edge
        cases edge
  have slash : c ≠ '/' := by
    rintro rfl
    cases edge
  simp [Source.step, Source.stepCode, slash, Source.ofOpening_cons_other mark]

theorem reads_code {text : List Char} (after : List Char)
    (plain : ∀ c ∈ text, isPlain c) :
    Reads .code text after (text.map (single .code)) .code := by
  induction text with
  | nil => exact Reads.done _ _
  | cons c text inductionHypothesis =>
      have later := inductionHypothesis fun d member =>
        plain d (List.mem_cons_of_mem c member)
      exact @Reads.more _ _ _ [] _ _ _ _
          (step_of_plain _ (plain c List.mem_cons_self)) rfl later

namespace Fragment

/-- The code of a fragment is plain, and some stands between two values. -/
structure Good (fragment : Fragment) : Prop where
  lead : ∀ c ∈ fragment.lead, isPlain c
  rest : ∀ part ∈ fragment.rest, ∀ c ∈ part.2, isPlain c
  between : ∀ part ∈ fragment.rest.dropLast, part.2 ≠ []

theorem reads_rest {rest : List (String × List Char)} {after : List Char}
    (plain : ∀ part ∈ rest, ∀ c ∈ part.2, isPlain c)
    (between : ∀ part ∈ rest.dropLast, part.2 ≠ [])
    (apart : after.head? ≠ some '"') :
    Reads .code (rest.flatMap fun part => (quote part.1).toList ++ part.2) after
      (rest.flatMap fun part =>
        quotedLexemes part.1 ++ part.2.map (single .code)) .code := by
  induction rest with
  | nil => exact Reads.done _ _
  | cons part rest inductionHypothesis =>
      have later := inductionHypothesis
        (fun other member => plain other (List.mem_cons_of_mem _ member))
        (fun other member => by
          refine between other ?_
          cases rest with
          | nil => cases member
          | cons next rest => exact List.mem_cons_of_mem _ member)
      have code := reads_code
        (rest.flatMap (fun part => (quote part.1).toList ++ part.2) ++ after)
        (plain part List.mem_cons_self)
      rw [List.flatMap_cons, List.flatMap_cons, List.append_assoc,
        List.append_assoc]
      refine (reads_quote part.1 ?_).append (code.append later)
      cases text : part.2 with
      | nil =>
          cases rest with
          | nil => simpa using apart
          | cons next rest => exact absurd text (between part List.mem_cons_self)
      | cons c text =>
          simp only [List.cons_append, List.head?_cons, ne_eq,
            Option.some.injEq]
          rintro rfl
          have known := plain part List.mem_cons_self '"' (by simp [text])
          cases known

/-- A fragment is read as it is written unless a quote follows. -/
theorem reads {fragment : Fragment} (good : fragment.Good) {after : List Char}
    (apart : after.head? ≠ some '"') :
    Reads .code fragment.chars after fragment.lexemes .code :=
  (reads_code _ good.lead).append (reads_rest good.rest good.between apart)

theorem lexemes_eq {fragment : Fragment} (good : fragment.Good) :
    Source.lexemes fragment.chars = fragment.lexemes := by
  have whole := (@reads _ good [] (by simp)).lexemes
  rw [List.append_nil] at whole
  rw [Source.lexemes, whole, Source.lexemesAfter, List.append_nil]

/-- A fragment as classified text. -/
def source (fragment : Fragment) : Source :=
  Source.ofText (String.ofList fragment.chars)

end Fragment

/-! ### Literals -/

namespace Fragment

theorem closed_rest (rest : List (String × List Char)) (position : Nat) :
    ∀ literal ∈ Source.literalsFrom position none (rest.flatMap fun part =>
      quotedLexemes part.1 ++ part.2.map (single .code)),
      literal.closed = true := by
  induction rest generalizing position with
  | nil => simp [Source.literalsFrom]
  | cons part rest inductionHypothesis =>
      rw [List.flatMap_cons, List.append_assoc, literalsFrom_quoted,
        literalsFrom_single]
      intro literal member
      rcases List.mem_cons.mp member with rfl | later
      · rfl
      · exact inductionHypothesis _ literal later

/-- The literals of a fragment are closed. -/
theorem closed {fragment : Fragment} (good : fragment.Good) :
    Source.AllClosed fragment.source := by
  intro literal member
  simp only [source, Source.ofText, Source.literalsOf, String.toList_ofList,
    lexemes_eq good, lexemes] at member
  rw [literalsFrom_single] at member
  exact closed_rest _ _ literal member

theorem regular {fragment : Fragment} (good : fragment.Good) :
    Source.Regular fragment.source := Source.regular_ofText (closed good)

end Fragment

/-! ### Positions -/

/-- The position of a character of code. -/
def codeCell (c : Char) : Cell := ⟨some c, .code⟩

/-- The positions of a quoted value. -/
def quotedCells (value : String) : List Cell :=
  (quote value).toList.flatMap fun c => Cell.ofChar c .literal

theorem ofChar_of_plain {c : Char} (plain : isPlain c) (cls : CharClass) :
    Cell.ofChar c cls = [⟨some c, cls⟩] := by
  simp only [isPlain, Bool.and_eq_true, decide_eq_true_eq] at plain
  rw [Cell.ofChar, plain.2]
  rfl

theorem cellsOf_single (cls : CharClass) (text : List Char) :
    Source.cellsOf (text.map (single cls)) =
      text.flatMap fun c => Cell.ofChar c cls := by
  simp only [Source.cellsOf, List.flatMap_map, Lexeme.cells, single,
    List.flatMap_cons, List.flatMap_nil, List.append_nil]

theorem cellsOf_code {text : List Char} (plain : ∀ c ∈ text, isPlain c) :
    Source.cellsOf (text.map (single .code)) = text.map codeCell := by
  rw [cellsOf_single]
  induction text with
  | nil => rfl
  | cons c text inductionHypothesis =>
      rw [List.flatMap_cons, ofChar_of_plain (plain c List.mem_cons_self),
        inductionHypothesis fun d member => plain d (List.mem_cons_of_mem c member)]
      rfl

theorem cellsOf_quoted (value : String) :
    Source.cellsOf (quotedLexemes value) = quotedCells value := by
  have mark (role : Source.Role) : Lexeme.cells ⟨['"'], .literal, role⟩ =
      Cell.ofChar '"' .literal := by
    simp [Lexeme.cells]
  rw [quotedLexemes, ← List.singleton_append, Source.cellsOf_append,
    Source.cellsOf_append, cellsOf_single, quotedCells, quote,
    String.toList_ofList]
  simp [Source.cellsOf, mark]

namespace Fragment

/-- The positions of a fragment. -/
def cells (fragment : Fragment) : List Cell :=
  fragment.lead.map codeCell ++ fragment.rest.flatMap fun part =>
    quotedCells part.1 ++ part.2.map codeCell

theorem cellsOf_lexemes {fragment : Fragment}
    (lead : ∀ c ∈ fragment.lead, isPlain c)
    (rest : ∀ part ∈ fragment.rest, ∀ c ∈ part.2, isPlain c) :
    Source.cellsOf fragment.lexemes = fragment.cells := by
  have parts (parts : List (String × List Char))
      (plain : ∀ part ∈ parts, ∀ c ∈ part.2, isPlain c) :
      Source.cellsOf (parts.flatMap fun part =>
        quotedLexemes part.1 ++ part.2.map (single .code)) =
        parts.flatMap fun part => quotedCells part.1 ++ part.2.map codeCell := by
    induction parts with
    | nil => rfl
    | cons part parts inductionHypothesis =>
        rw [List.flatMap_cons, Source.cellsOf_append, Source.cellsOf_append,
          cellsOf_quoted, cellsOf_code (plain part List.mem_cons_self),
          inductionHypothesis fun other member =>
            plain other (List.mem_cons_of_mem _ member)]
        rfl
  rw [lexemes, Source.cellsOf_append, cellsOf_code lead, parts _ rest]
  rfl

theorem source_cells {fragment : Fragment} (good : fragment.Good) :
    fragment.source.cells = fragment.cells.toArray := by
  rw [source, Source.ofText_cells, String.toList_ofList, lexemes_eq good,
    cellsOf_lexemes good.lead good.rest]

theorem source_size {fragment : Fragment} (good : fragment.Good) :
    fragment.source.size = fragment.cells.length := by
  rw [Source.size, source_cells good, List.size_toArray]

theorem source_cell {fragment : Fragment} (good : fragment.Good)
    (position : Nat) :
    fragment.source.cells[position]? = fragment.cells[position]? := by
  rw [source_cells good, List.getElem?_toArray]

/-- The code of a fragment. -/
def code (fragment : Fragment) : List Char :=
  fragment.lead ++ fragment.rest.flatMap Prod.snd

end Fragment

theorem byteLength_plain {text : List Char} (plain : ∀ c ∈ text, isPlain c) :
    byteLength text = text.length := by
  refine Source.byteLength_of_single fun c member => ?_
  have known := plain c member
  simp only [isPlain, Bool.and_eq_true, decide_eq_true_eq] at known
  exact known.2

theorem length_quotedCells (value : String) :
    (quotedCells value).length = byteLength (quote value).toList := by
  rw [quotedCells]
  generalize (quote value).toList = chars
  induction chars with
  | nil => rfl
  | cons c chars inductionHypothesis =>
      rw [List.flatMap_cons, List.length_append, Source.length_ofChar,
        inductionHypothesis, byteLength]

/-- The positions of a quoted value start and end with a quote. -/
theorem quotedCells_eq (value : String) :
    ∃ inner, quotedCells value =
      ⟨some '"', .literal⟩ :: (inner ++ [⟨some '"', .literal⟩]) := by
  refine ⟨(value.toList.flatMap quoteChar).flatMap fun c =>
    Cell.ofChar c .literal, ?_⟩
  rw [quotedCells, quote, String.toList_ofList, List.flatMap_cons,
    List.flatMap_append]
  rfl

theorem literal_of_mem_quotedCells {value : String} {cell : Cell}
    (member : cell ∈ quotedCells value) : cell.cls = .literal := by
  obtain ⟨c, -, here⟩ := List.mem_flatMap.mp member
  rw [Cell.ofChar, List.mem_cons] at here
  rcases here with rfl | later
  · rfl
  · rw [List.eq_of_mem_replicate later]

/-! ### Values -/

theorem carried_single (position : Nat) (cls : CharClass) (text : List Char)
    (current : Option (Nat × Delimiter)) :
    Source.carried position current (text.map (single cls)) = current := by
  induction text generalizing position with
  | nil => rfl
  | cons c text inductionHypothesis =>
      rw [List.map_cons, Source.carried]
      have still : (Source.turn position (position + (single cls c).size)
          (single cls c).role current).2 = current := by
        cases current <;> rfl
      rw [still]
      exact inductionHypothesis _

theorem carried_quoted (position : Nat) (value : String) :
    Source.carried position none (quotedLexemes value) = none := by
  rw [quotedLexemes, Source.carried]
  simp only [Source.turn]
  rw [Source.carried_append, carried_single]
  rfl

theorem carried_parts (position : Nat) (parts : List (String × List Char)) :
    Source.carried position none (parts.flatMap fun part =>
      quotedLexemes part.1 ++ part.2.map (single .code)) = none := by
  induction parts generalizing position with
  | nil => rfl
  | cons part parts inductionHypothesis =>
      rw [List.flatMap_cons, Source.carried_append, Source.carried_append,
        carried_quoted, carried_single, inductionHypothesis]

theorem chars_quotedCells (value : String) :
    (quotedCells value).filterMap Cell.char? = (quote value).toList := by
  rw [quotedCells]
  generalize (quote value).toList = text
  induction text with
  | nil => rfl
  | cons c text inductionHypothesis =>
      have one : (Cell.ofChar c .literal).filterMap Cell.char? = [c] := by
        simp [Cell.ofChar]
      rw [List.flatMap_cons, List.filterMap_append, inductionHypothesis, one]
      rfl

namespace Fragment

theorem sizeOf_part {fragment : Fragment} (good : fragment.Good)
    {left right : List (String × List Char)}
    (rest : fragment.rest = left ++ right) :
    Source.sizeOf (Fragment.mk fragment.lead left).lexemes =
      (Fragment.mk fragment.lead left).cells.length := by
  rw [← Source.length_cellsOf,
    @cellsOf_lexemes ⟨fragment.lead, left⟩ good.lead fun part member =>
        good.rest part (by rw [rest]; exact List.mem_append_left _ member)]

/-- The literals of a fragment in front of a value, the value, and those behind. -/
theorem literals_eq {fragment : Fragment} (good : fragment.Good)
    {left right : List (String × List Char)} {value : String} {text : List Char}
    (rest : fragment.rest = left ++ (value, text) :: right) :
    ∃ behind, fragment.source.literals =
      Source.literalsFrom 0 none (Fragment.mk fragment.lead left).lexemes ++
        quotedLiteral (Fragment.mk fragment.lead left).cells.length value ::
          behind := by
  have size := sizeOf_part good rest
  have calm : Source.carried 0 none (Fragment.mk fragment.lead left).lexemes =
      none := by
    rw [lexemes, Source.carried_append, carried_single, carried_parts]
  have whole : fragment.lexemes = (Fragment.mk fragment.lead left).lexemes ++
      (quotedLexemes value ++ (text.map (single .code) ++ right.flatMap
        fun part => quotedLexemes part.1 ++ part.2.map (single .code))) := by
    simp [lexemes, rest]
  have literals : fragment.source.literals =
      Source.literalsFrom 0 none fragment.lexemes := by
    rw [source, Source.ofText, Source.literalsOf, String.toList_ofList,
      lexemes_eq good]
  rw [literals, whole, Source.literalsFrom_append _ calm, Nat.zero_add, size,
    literalsFrom_quoted]
  exact ⟨_, rfl⟩

/-- A quoted value is found where it was put. -/
theorem literalAt {fragment : Fragment} (good : fragment.Good)
    {left right : List (String × List Char)} {value : String} {text : List Char}
    (rest : fragment.rest = left ++ (value, text) :: right) {start : Nat}
    (here : start = (Fragment.mk fragment.lead left).cells.length) :
    fragment.source.literalAt? start =
      some ⟨start, start + (quotedCells value).length, value⟩ := by
  obtain ⟨behind, literals⟩ := literals_eq good rest
  have cells : fragment.cells = (Fragment.mk fragment.lead left).cells ++
      (quotedCells value ++ (text.map codeCell ++ right.flatMap
        fun part => quotedCells part.1 ++ part.2.map codeCell)) := by
    simp [Fragment.cells, rest]
  have slice : (fragment.source.slice start
      (start + (quotedCells value).length)).toList = (quote value).toList := by
    rw [Source.slice, source_cells good, String.toList_ofList, cells, here]
    simp [chars_quotedCells]
  have member : quotedLiteral start value ∈ fragment.source.literals := by
    rw [literals, ← here]
    exact List.mem_append_right _ List.mem_cons_self
  have found := @Source.literalAt_of_mem (String.ofList fragment.chars) _ member
  have known := value_quotedLiteral start value
  simp only [Source.Literal.quoted, quotedLiteral, ← length_quotedCells] at found known
  rw [source] at slice ⊢
  rw [found, slice, known]

theorem starts_rest {rest : List (String × List Char)}
    (plain : ∀ part ∈ rest, ∀ c ∈ part.2, isPlain c) (position : Nat) :
    ∀ literal ∈ Source.literalsFrom position none (rest.flatMap fun part =>
      quotedLexemes part.1 ++ part.2.map (single .code)),
      ∃ left part right, rest = left ++ part :: right ∧
        literal.start = position + (left.flatMap fun part =>
          quotedCells part.1 ++ part.2.map codeCell).length := by
  induction rest generalizing position with
  | nil => simp [Source.literalsFrom]
  | cons part rest inductionHypothesis =>
      have width : byteLength part.2 = (part.2.map codeCell).length := by
        rw [List.length_map, byteLength_plain (plain part List.mem_cons_self)]
      rw [List.flatMap_cons, List.append_assoc, literalsFrom_quoted,
        literalsFrom_single, width, ← length_quotedCells]
      intro literal member
      rcases List.mem_cons.mp member with rfl | later
      · exact ⟨[], part, rest, rfl, rfl⟩
      · obtain ⟨left, other, right, rfl, start⟩ := inductionHypothesis
          (fun other member => plain other (List.mem_cons_of_mem part member))
          _ literal later
        refine ⟨part :: left, other, right, rfl, ?_⟩
        rw [start, List.flatMap_cons, List.length_append, List.length_append]
        omega

/-- Every literal of a fragment is one of its values. -/
theorem value_of_literal {fragment : Fragment} (good : fragment.Good)
    {literal : Source.Literal} (member : literal ∈ fragment.source.literals) :
    ∃ left part right, fragment.rest = left ++ part :: right ∧
      literal.start = (Fragment.mk fragment.lead left).cells.length := by
  have width := byteLength_plain good.lead
  simp only [source, Source.ofText, Source.literalsOf, String.toList_ofList,
    lexemes_eq good, lexemes] at member
  rw [literalsFrom_single] at member
  obtain ⟨left, part, right, rest, start⟩ :=
    starts_rest good.rest _ literal member
  refine ⟨left, part, right, rest, ?_⟩
  rw [start, cells, List.length_append, List.length_map, width, Nat.zero_add]

end Fragment

/-! ### Words -/

/-- A part of a text that does not contain a character of it lies on one side. -/
theorem infix_of_not_mem {α : Type} {part left right : List α} {item : α}
    (inside : part <:+: left ++ item :: right) (fresh : item ∉ part) :
    part <:+: left ∨ part <:+: right := by
  obtain ⟨before, behind, whole⟩ := inside
  rw [List.append_assoc] at whole
  rcases List.append_eq_append_iff.mp whole with
    ⟨extra, rfl, split⟩ | ⟨extra, rfl, split⟩
  · rcases List.append_eq_append_iff.mp split with
      ⟨more, rfl, -⟩ | ⟨more, rfl, rest⟩
    · exact Or.inl ⟨before, more, by rw [List.append_assoc]⟩
    · cases more with
      | nil => exact Or.inl ⟨before, [], by simp⟩
      | cons head more =>
          rw [List.cons_append, List.cons.injEq] at rest
          exact absurd (by simp [rest.1]) fresh
  · cases extra with
    | nil =>
        cases part with
        | nil => exact Or.inl (List.nil_infix)
        | cons head part =>
            rw [List.nil_append, List.cons_append, List.cons.injEq] at split
            exact absurd (by simp [split.1]) fresh
    | cons head extra =>
        rw [List.cons_append, List.cons.injEq] at split
        exact Or.inr ⟨extra, behind, by rw [List.append_assoc]; exact split.2.symm⟩

theorem infix_of_all_not_mem {α : Type} {part left middle right : List α}
    (inside : part <:+: left ++ (middle ++ right))
    (fresh : ∀ item ∈ middle, item ∉ part) (filled : middle ≠ []) :
    part <:+: left ∨ part <:+: right := by
  induction middle generalizing left with
  | nil => exact absurd rfl filled
  | cons item middle inductionHypothesis =>
      rcases infix_of_not_mem inside (fresh item List.mem_cons_self) with
        early | late
      · exact Or.inl early
      · cases middle with
        | nil => exact Or.inr late
        | cons next middle =>
            rcases @inductionHypothesis []
              (by simpa using late)
              (fun other member => fresh other (List.mem_cons_of_mem item member))
              (List.cons_ne_nil _ _) with none | behind
            · rw [List.infix_nil] at none
              exact Or.inl (none ▸ List.nil_infix)
            · exact Or.inr behind

theorem infix_of_map_codeCell {word text : List Char}
    (inside : word.map codeCell <:+: text.map codeCell) : word <:+: text := by
  have same (chars : List Char) :
      (chars.map codeCell).filterMap Cell.char? = chars := by
    induction chars with
    | nil => rfl
    | cons c chars inductionHypothesis =>
        simp only [List.map_cons, codeCell, List.filterMap_cons]
        exact congrArg (c :: ·) inductionHypothesis
  have found := List.IsInfix.filterMap Cell.char? inside
  rwa [same, same] at found

theorem not_mem_of_quoted {value : String} {word : List Char} {cell : Cell}
    (member : cell ∈ quotedCells value) : cell ∉ word.map codeCell := by
  intro here
  obtain ⟨c, -, rfl⟩ := List.mem_map.mp here
  cases literal_of_mem_quotedCells member

namespace Fragment

/-- A word that starts in front of quoted values ends there or starts later. -/
theorem infix_between {word : List Char} (text : List Char)
    {parts : List (String × List Char)}
    (inside : word.map codeCell <:+: text.map codeCell ++
      parts.flatMap fun part => quotedCells part.1 ++ part.2.map codeCell) :
    word <:+: text ∨ word.map codeCell <:+: parts.flatMap fun part =>
      quotedCells part.1 ++ part.2.map codeCell := by
  cases parts with
  | nil =>
      rw [List.flatMap_nil, List.append_nil] at inside
      exact Or.inl (infix_of_map_codeCell inside)
  | cons part parts =>
      obtain ⟨inner, cells⟩ := quotedCells_eq part.1
      have first : (⟨some '"', .literal⟩ : Cell) ∈ quotedCells part.1 := by
        rw [cells]
        exact List.mem_cons_self
      rw [List.flatMap_cons, cells, List.cons_append, List.cons_append] at inside
      rcases infix_of_not_mem inside (not_mem_of_quoted first) with here | later
      · exact Or.inl (infix_of_map_codeCell here)
      · rw [List.flatMap_cons, cells, List.cons_append, List.cons_append]
        exact Or.inr (later.trans (List.suffix_cons _ _).isInfix)

theorem infix_rest {word : List Char} {parts : List (String × List Char)}
    (inside : word.map codeCell <:+: parts.flatMap fun part =>
      quotedCells part.1 ++ part.2.map codeCell) :
    word = [] ∨ ∃ part ∈ parts, word <:+: part.2 := by
  induction parts with
  | nil =>
      rw [List.flatMap_nil, List.infix_nil, List.map_eq_nil_iff] at inside
      exact Or.inl inside
  | cons part parts inductionHypothesis =>
      rw [List.flatMap_cons, List.append_assoc,
        ← List.nil_append (quotedCells part.1 ++ _)] at inside
      have filled : quotedCells part.1 ≠ [] := by
        obtain ⟨inner, cells⟩ := quotedCells_eq part.1
        rw [cells]
        exact List.cons_ne_nil _ _
      rcases infix_of_all_not_mem inside
          (fun cell member => not_mem_of_quoted member) filled with
        none | behind
      · rw [List.infix_nil, List.map_eq_nil_iff] at none
        exact Or.inl none
      · rcases infix_between part.2 behind with here | later
        · exact Or.inr ⟨part, List.mem_cons_self, here⟩
        · rcases inductionHypothesis later with none | ⟨other, member, found⟩
          · exact Or.inl none
          · exact Or.inr ⟨other, List.mem_cons_of_mem part member, found⟩

/-- A word in the code of a fragment lies between its values. -/
theorem infix_of_codeAt {fragment : Fragment} (good : fragment.Good)
    {word : List Char} (filled : word ≠ []) {position : Nat}
    (code : Source.CodeAt fragment.source word position) :
    word <:+: fragment.lead ∨ ∃ part ∈ fragment.rest, word <:+: part.2 := by
  have cells : word.map codeCell <:+: fragment.cells := by
    refine ⟨fragment.cells.take position,
      (fragment.cells.drop position).drop word.length, ?_⟩
    have taken : (fragment.cells.drop position).take word.length =
        word.map codeCell := by
      refine List.ext_getElem? fun index => ?_
      rw [List.getElem?_take, List.getElem?_map, List.getElem?_drop]
      split
      · rename_i inside
        obtain ⟨c, char⟩ : ∃ c, word[index]? = some c :=
          ⟨word[index], List.getElem?_eq_getElem inside⟩
        rw [← source_cell good, Source.codeAt_eq_some (code index c char), char]
        rfl
      · rename_i outside
        rw [List.getElem?_eq_none (Nat.le_of_not_lt outside)]
        rfl
    rw [← taken, List.append_assoc, List.take_append_drop,
      List.take_append_drop]
  rcases infix_between fragment.lead cells with here | later
  · exact Or.inl here
  · rcases infix_rest later with none | found
    · exact absurd none filled
    · exact Or.inr found

end Fragment

end PackageLayers.Manifest

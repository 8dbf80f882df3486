/-
Purpose: Elements of arrays as they are written into a manifest.
Main exports: Token, Token.fragment, Token.isItem, Fragment.balanced
-/
import PackageLayers.Proofs.Manifest.Entries
import PackageLayers.Proofs.Manifest.Fragments
import PackageLayers.Proofs.Source.Items

namespace PackageLayers.Manifest

open Source (Span Insertion IsItem Marked Balanced OnlyCommas isSpace byteLength)

/-!
A token is one element of an array.  It is written with blank text in front of it
and at most a comma behind it, and is found there as one element.
-/

/-- A test that no separator passes tells what counts. -/
theorem isSpace_of_holds {p : Char → Bool} {c : Char}
    (dull : ∀ d ∈ [' ', '\t', '\n', '\x0c', '\r'], p d = false) (holds : p c) :
    isSpace c = false := by
  have other (d : Char) (member : d ∈ [' ', '\t', '\n', '\x0c', '\r']) :
      c ≠ d := by
    rintro rfl
    rw [dull c member] at holds
    cases holds
  simp only [List.mem_cons, List.not_mem_nil, or_false] at other
  simp [isSpace, other]

/-! ### Code and significance by position -/

/-- The character that a position holds as code. -/
def codeOf (cell : Cell) : Option Char :=
  if cell.cls = .code then cell.char? else none

/-- Whether a position is neither separator nor comment. -/
def isVisible (cell : Cell) : Bool :=
  cell.cls != .comment && !cell.char?.any isSpace

/-- Whether a position does not continue a name or sign that ends before it. -/
def StartsApart (cell : Cell) : Prop :=
  ∀ c ∈ cell.char?, Source.isNameChar c = false ∧ c ≠ '='

/-- Whether a position is not continued by what follows it. -/
def EndsApart (cell : Cell) : Prop :=
  ∀ c ∈ cell.char?, Source.isNameChar c = false ∧ c ≠ '.' ∧ c ≠ '+'

section

variable {source : Source}

theorem codeAt_eq {position : Nat} :
    source.codeAt? position = source.cells[position]?.bind codeOf := rfl

theorem isSignificant_eq {position : Nat} :
    source.isSignificant position = source.cells[position]?.any isVisible := rfl

theorem codeChars_skip {start stop : Nat}
    (none : source.codeAt? start = none) :
    source.codeChars start stop = source.codeChars (start + 1) stop := by
  refine Marked.Ascends.ext (Source.codeChars_ascends _ _)
    (Source.codeChars_ascends _ _) fun position c => ?_
  rw [Source.mem_codeChars, Source.mem_codeChars]
  refine ⟨fun ⟨lower, upper, code⟩ => ⟨?_, upper, code⟩,
    fun ⟨lower, upper, code⟩ => ⟨by omega, upper, code⟩⟩
  rcases Nat.eq_or_lt_of_le lower with rfl | later
  · rw [none] at code
    cases code
  · exact later

/-- The code of a range is read off its positions. -/
theorem chars_codeChars {before part behind : List Cell}
    (cells : source.cells = (before ++ part ++ behind).toArray) :
    Marked.chars (source.codeChars before.length (before.length + part.length)) =
      part.filterMap codeOf := by
  induction part generalizing before with
  | nil =>
      rw [List.length_nil, Nat.add_zero, Source.codeChars_of_le (Nat.le_refl _)]
      rfl
  | cons cell part inductionHypothesis =>
      have here : source.cells[before.length]? = some cell := by
        rw [cells]
        simp
      have later := @inductionHypothesis (before ++ [cell])
        (by simpa using cells)
      rw [List.length_append, List.length_singleton, Nat.add_assoc,
        Nat.add_comm 1] at later
      rw [List.length_cons, List.filterMap_cons]
      cases code : codeOf cell with
      | none =>
          rw [codeChars_skip (by rw [codeAt_eq, here, Option.bind_some, code]),
            later]
      | some c =>
          rw [Source.codeChars_cons (by omega)
            (by rw [codeAt_eq, here, Option.bind_some, code]), Marked.chars,
            List.map_cons]
          exact congrArg (c :: ·) later

end

theorem codeOf_codeCell (text : List Char) :
    (text.map codeCell).filterMap codeOf = text := by
  induction text with
  | nil => rfl
  | cons c text inductionHypothesis =>
      rw [List.map_cons, List.filterMap_cons]
      exact congrArg (c :: ·) inductionHypothesis

theorem codeOf_quotedCells (value : String) :
    (quotedCells value).filterMap codeOf = [] := by
  rw [List.filterMap_eq_nil_iff]
  intro cell member
  rw [codeOf, if_neg (by rw [literal_of_mem_quotedCells member]; decide)]

theorem codeOf_parts (parts : List (String × List Char)) :
    (parts.flatMap fun part =>
      quotedCells part.1 ++ part.2.map codeCell).filterMap codeOf =
      parts.flatMap Prod.snd := by
  induction parts with
  | nil => rfl
  | cons part parts inductionHypothesis =>
      rw [List.flatMap_cons, List.filterMap_append, List.filterMap_append,
        codeOf_quotedCells, codeOf_codeCell, inductionHypothesis]
      rfl

namespace Fragment

theorem chars_code {fragment : Fragment} (good : fragment.Good) :
    Marked.chars (fragment.source.codeChars 0 fragment.source.size) =
      fragment.code := by
  have whole := @chars_codeChars fragment.source [] fragment.cells []
      (by simpa using source_cells good)
  rw [List.length_nil, Nat.zero_add, ← source_size good] at whole
  rw [whole, cells, List.filterMap_append, codeOf_codeCell, codeOf_parts]
  rfl

end Fragment

/-- Whether a fragment keeps to itself: its brackets are balanced, something of it
counts, and it does not run into what follows it. -/
structure Fragment.Fit (fragment : Fragment) : Prop where
  good : fragment.Good
  balanced : Balanced fragment.code
  last : ∃ rest cell, fragment.cells = rest ++ [cell] ∧ EndsApart cell
  filled : ∃ cell ∈ fragment.cells, isVisible cell

/-- Whether a fragment runs into nothing that it is put behind. -/
def Fragment.Leads (fragment : Fragment) : Prop :=
  ∃ cell rest, fragment.cells = cell :: rest ∧ StartsApart cell

/-- What a fragment that leads starts with continues nothing. -/
theorem Fragment.Leads.apart {fragment : Fragment} (leads : fragment.Leads)
    (good : fragment.Good) {right : Char}
    (first : fragment.source.charAt? 0 = some right) (left : Char) :
    Source.joins left right = false := by
  obtain ⟨cell, rest, cells, apart⟩ := leads
  have here := source_cell good 0
  rw [cells] at here
  have known : fragment.source.charAt? 0 = cell.char? :=
    congrArg (Option.bind · Cell.char?) here
  obtain ⟨name, equals⟩ := apart right (known.symm.trans first)
  simp [Source.joins, name, equals]

/-- Whether a word stands nowhere in the code of a fragment. -/
def Fragment.Lacks (fragment : Fragment) (word : List Char) : Prop :=
  ¬word <:+: fragment.lead ∧ ∀ part ∈ fragment.rest, ¬word <:+: part.2

theorem Fragment.Lacks.not_codeAt {fragment : Fragment} {word : List Char}
    (lacks : fragment.Lacks word) (good : fragment.Good) (filled : word ≠ [])
    (index : Nat) : ¬Source.CodeAt fragment.source word index := by
  intro code
  rcases infix_of_codeAt good filled code with lead | ⟨part, member, here⟩
  · exact lacks.1 lead
  · exact lacks.2 part member here

theorem Fragment.Lacks.occurrences {fragment : Fragment} {text : String}
    (lacks : fragment.Lacks text.toList) (good : fragment.Good)
    (word : Source.isWord text.toList) :
    fragment.source.occurrences text fragment.source.whole = [] := by
  refine List.eq_nil_iff_forall_not_mem.mpr fun position member => ?_
  exact lacks.not_codeAt good (Source.Words.filled word) position
    ((Source.mem_occurrences word).mp member).2.2

/-- Whether a fragment has none of the words that an outline is made of. -/
structure Fragment.Silent (fragment : Fragment) : Prop where
  calls : ∀ name ∈ soughtCalls, fragment.Lacks ("." ++ name).toList
  declares : fragment.Lacks ".package".toList
  package : fragment.Lacks "Package".toList

/-! ### Tokens -/

/-- One element of an array: code and quoted values, the last of which is known. -/
structure Token where
  lead : List Char
  inner : List (String × List Char)
  last : String
  close : List Char

namespace Token

/-- The text of a token. -/
def chars (token : Token) : List Char :=
  token.lead ++
    ((token.inner.flatMap fun part => (quote part.1).toList ++ part.2) ++
      ((quote token.last).toList ++ token.close))

/-- The positions of a token. -/
def cells (token : Token) : List Cell :=
  token.lead.map codeCell ++
    ((token.inner.flatMap fun part =>
      quotedCells part.1 ++ part.2.map codeCell) ++
      (quotedCells token.last ++ token.close.map codeCell))

/-- The code of a token. -/
def code (token : Token) : List Char :=
  token.lead ++ (token.inner.flatMap Prod.snd ++ token.close)

/-- A token with blank text in front of it and text behind it. -/
def fragment (token : Token) (blank tail : List Char) : Fragment :=
  ⟨blank ++ token.lead, token.inner ++ [(token.last, token.close ++ tail)]⟩

/-- The commas of a code outside of brackets are counted. -/
def levelCommas (code : List Char) : Nat :=
  (Source.commas 0 (code.map fun c => (0, c))).length

/-- Whether a text stands for itself in an array: nothing of it is read as part
of what is around it. -/
structure Good (token : Token) : Prop where
  plain : ∀ c ∈ token.code, isPlain c
  between : ∀ part ∈ token.inner, part.2 ≠ []
  starts : ∀ c ∈ token.lead.head?, isSpace c = false ∧
    Source.isNameChar c = false ∧ c ≠ '='
  ends : ∀ c ∈ token.close.getLast?, isSpace c = false ∧
    Source.isNameChar c = false ∧ c ≠ '.' ∧ c ≠ '+'
  balanced : Balanced token.code
  single : levelCommas token.code = 0

variable {token : Token} {blank tail : List Char}

theorem chars_fragment : (token.fragment blank tail).chars =
    blank ++ token.chars ++ tail := by
  simp [fragment, Fragment.chars, chars]

theorem cells_fragment : (token.fragment blank tail).cells =
    blank.map codeCell ++ token.cells ++ tail.map codeCell := by
  simp [fragment, Fragment.cells, cells]

theorem code_fragment : (token.fragment blank tail).code =
    blank ++ token.code ++ tail := by
  simp [fragment, Fragment.code, code]

end Token

/-- Whether a text has only spaces, tabs and line breaks. -/
def IsBlank (text : List Char) : Prop :=
  ∀ c ∈ text, c = ' ' ∨ c = '\t' ∨ c = '\n'

theorem IsBlank.plain {text : List Char} (blank : IsBlank text) :
    ∀ c ∈ text, isPlain c ∧ isSpace c ∧ Bracket.ofChar? c = none ∧
      Source.isNameChar c = false ∧ c ≠ ',' := by
  intro c member
  rcases blank c member with rfl | rfl | rfl <;> decide

/-- What may stand behind a token in the text that is inserted. -/
def IsTail (text : List Char) : Prop := text = [] ∨ text = [',']

namespace Token

variable {token : Token} {blank tail : List Char}

theorem good_fragment (good : token.Good) (before : IsBlank blank)
    (behind : IsTail tail) : (token.fragment blank tail).Good where
  lead := by
    intro c member
    rcases List.mem_append.mp member with early | late
    · exact (before.plain c early).1
    · exact good.plain c (List.mem_append_left _ late)
  rest := by
    intro part member c here
    rcases List.mem_append.mp member with early | late
    · exact good.plain c (List.mem_append_right _
        (List.mem_append_left _ (List.mem_flatMap.mpr ⟨part, early, here⟩)))
    · rw [List.mem_singleton] at late
      subst late
      rcases List.mem_append.mp here with close | tail
      · exact good.plain c (List.mem_append_right _ (List.mem_append_right _ close))
      · rcases behind with rfl | rfl
        · cases tail
        · rw [List.mem_singleton] at tail
          subst tail
          decide
  between := by
    intro part member
    rw [fragment, List.dropLast_concat] at member
    exact good.between part member

/-- Commas outside of brackets are counted without their positions. -/
theorem length_commas (depth : Nat) (code : Marked) :
    (Source.commas depth code).length =
      (Source.commas depth (code.chars.map fun c => (0, c))).length := by
  induction code generalizing depth with
  | nil => rfl
  | cons entry code inductionHypothesis =>
      obtain ⟨position, c⟩ := entry
      rw [Marked.chars, List.map_cons, List.map_cons, Source.commas,
        Source.commas]
      split
      · rw [List.length_cons, List.length_cons, inductionHypothesis]
        rfl
      · exact inductionHypothesis _

theorem levelCommas_blank (before : IsBlank blank) (code : List Char) :
    levelCommas (blank ++ code) = levelCommas code := by
  induction blank with
  | nil => rfl
  | cons c blank inductionHypothesis =>
      have known := before.plain c List.mem_cons_self
      have later := inductionHypothesis fun d member =>
        before d (List.mem_cons_of_mem c member)
      rw [levelCommas, List.cons_append, List.map_cons, Source.commas,
        if_neg (by simp [known.2.2.2.2]), Source.depthAfter_plain known.2.2.1]
      exact later

theorem cells_first (good : token.Good) : ∃ cell rest,
    token.cells = cell :: rest ∧ isVisible cell ∧ StartsApart cell := by
  have mark (quote : Cell) (same : quote = ⟨some '"', .literal⟩) :
      isVisible quote ∧ StartsApart quote := by
    subst same
    exact ⟨by decide, fun c member => by cases member; decide⟩
  cases lead : token.lead with
  | cons c rest =>
      rw [cells, lead]
      have known := good.starts c (by simp [lead])
      exact ⟨_, _, rfl, by simp [isVisible, codeCell, known.1],
        fun d member => by cases member; exact known.2⟩
  | nil =>
      cases parts : token.inner with
      | nil =>
          obtain ⟨inner, quoted⟩ := quotedCells_eq token.last
          rw [cells, lead, parts, quoted]
          exact ⟨_, _, rfl, mark _ rfl⟩
      | cons part rest =>
          obtain ⟨inner, quoted⟩ := quotedCells_eq part.1
          rw [cells, lead, parts, List.flatMap_cons, quoted]
          exact ⟨_, _, rfl, mark _ rfl⟩

theorem cells_last (good : token.Good) : ∃ rest cell,
    token.cells = rest ++ [cell] ∧ isVisible cell ∧ EndsApart cell := by
  rcases List.eq_nil_or_concat token.close with close | ⟨rest, c, close⟩
  · obtain ⟨inner, quoted⟩ := quotedCells_eq token.last
    rw [cells, close, quoted, List.map_nil, List.append_nil]
    refine ⟨_, ⟨some '"', .literal⟩, by
      simp only [← List.append_assoc, ← List.cons_append]
      rfl, by decide, fun c member => by cases member; decide⟩
  · rw [cells, close, List.concat_eq_append, List.map_append]
    have known := good.ends c (by simp [close])
    exact ⟨_, codeCell c, by
      simp only [← List.append_assoc]
      rfl, by simp [isVisible, codeCell, known.1],
      fun d member => by cases member; exact known.2⟩

theorem codeOf_cells : token.cells.filterMap codeOf = token.code := by
  simp only [cells, code, List.filterMap_append, codeOf_codeCell, codeOf_parts,
    codeOf_quotedCells, List.nil_append]

/-- A token is written as one element. -/
theorem isItem (good : token.Good) (before : IsBlank blank)
    (behind : IsTail tail) :
    IsItem (token.fragment blank tail).source blank.length
      (blank.length + token.cells.length) := by
  have whole := good_fragment good before behind
  have cells := Fragment.source_cells whole
  rw [cells_fragment] at cells
  obtain ⟨first, rest, starts, visible, -⟩ := cells_first good
  obtain ⟨others, final, ends, seen, -⟩ := cells_last good
  have size : (token.fragment blank tail).source.size =
      blank.length + token.cells.length + tail.length := by
    rw [Fragment.source_size whole, cells_fragment, List.length_append,
      List.length_append, List.length_map, List.length_map]
  have length : 0 < token.cells.length := by
    rw [starts]
    exact Nat.succ_pos _
  refine
    { order := by omega
      inside := by omega
      blank := fun position inside => ?_
      starts := ?_
      ends := ?_
      behind := fun position lower upper significant => ?_
      single := ?_ }
  · have here : (token.fragment blank tail).source.cells[position]? =
        some (codeCell blank[position]) := by
      rw [cells, List.getElem?_toArray, List.append_assoc,
        List.getElem?_append_left (by simpa using inside), List.getElem?_map,
        List.getElem?_eq_getElem inside]
      rfl
    rw [isSignificant_eq, here]
    simp [isVisible, codeCell, (before.plain _ (List.getElem_mem inside)).2.1]
  · have here : (token.fragment blank tail).source.cells[blank.length]? =
        some first := by
      rw [cells, starts]
      simp
    rw [isSignificant_eq, here]
    exact visible
  · have here : (token.fragment blank tail).source.cells[
        blank.length + token.cells.length - 1]? = some final := by
      rw [cells, ends]
      simp
    rw [isSignificant_eq, here]
    exact seen
  · rcases behind with rfl | rfl
    · rw [size, List.length_nil] at upper
      omega
    · rw [size, List.length_singleton] at upper
      obtain rfl : position = blank.length + token.cells.length := by omega
      rw [codeAt_eq, cells]
      simp [codeOf, codeCell]
  · have chars := @chars_codeChars _ [] (blank.map codeCell ++ token.cells) _
        (by simpa using cells)
    rw [List.length_nil, Nat.zero_add, List.length_append, List.length_map,
      List.filterMap_append, codeOf_codeCell, codeOf_cells] at chars
    rw [← List.length_eq_zero_iff, length_commas, chars]
    exact (levelCommas_blank before token.code).trans good.single

theorem leads (good : token.Good) (before : IsBlank blank) :
    (token.fragment blank tail).Leads := by
  rw [Fragment.Leads, cells_fragment]
  cases blank with
  | nil =>
      obtain ⟨cell, rest, starts, -, apart⟩ := cells_first good
      rw [starts]
      exact ⟨cell, _, rfl, apart⟩
  | cons c blank =>
      refine ⟨codeCell c, _, rfl, fun d member => ?_⟩
      cases member
      rcases before c List.mem_cons_self with rfl | rfl | rfl <;> decide

theorem fit (good : token.Good) (before : IsBlank blank) (behind : IsTail tail) :
    (token.fragment blank tail).Fit where
  good := good_fragment good before behind
  balanced := by
    rw [code_fragment]
    refine ((Balanced.of_plain fun c member =>
      (before.plain c member).2.2.1).append good.balanced).append ?_
    rcases behind with rfl | rfl
    · exact Balanced.nil
    · exact Balanced.of_plain (List.all_iff_forall_prop.mp (by decide))
  last := by
    rw [cells_fragment]
    rcases behind with rfl | rfl
    · obtain ⟨rest, cell, ends, -, apart⟩ := cells_last good
      rw [ends, List.map_nil, List.append_nil, ← List.append_assoc]
      exact ⟨_, cell, rfl, apart⟩
    · exact ⟨_, codeCell ',', rfl, fun d member => by cases member; decide⟩
  filled := by
    obtain ⟨cell, rest, starts, visible, -⟩ := cells_first good
    rw [cells_fragment, starts]
    exact ⟨cell, by simp, visible⟩

/-- Whether a word stands nowhere in the code of a token. -/
def Lacks (token : Token) (word : List Char) : Prop :=
  ¬word <:+: token.lead ∧ (∀ part ∈ token.inner, ¬word <:+: part.2) ∧
    ¬word <:+: token.close

theorem visible_of_isWord {word : List Char} (good : Source.isWord word) :
    ∀ c ∈ word, isSpace c = false ∧ c ≠ ',' := by
  have named (c : Char) (name : Source.isNameChar c) :
      isSpace c = false ∧ c ≠ ',' := by
    refine ⟨isSpace_of_holds (List.all_iff_forall_prop.mp (by decide)) name, ?_⟩
    rintro rfl
    cases name
  cases word with
  | nil => cases good
  | cons first rest =>
      simp only [Source.isWord, Bool.and_eq_true, Bool.or_eq_true,
        decide_eq_true_eq, List.all_eq_true] at good
      intro c member
      rcases List.mem_cons.mp member with rfl | later
      · rcases good.1.1 with name | ⟨⟨rfl, -⟩, -⟩
        · exact named c name
        · decide
      · exact named c (good.1.2 c later)

theorem Lacks.fragment {word : List Char} (lacks : token.Lacks word)
    (good : Source.isWord word) (before : IsBlank blank) (behind : IsTail tail) :
    (token.fragment blank tail).Lacks word := by
  have visible := visible_of_isWord good
  have filled := Source.Words.filled good
  refine ⟨fun inside => ?_, fun part member inside => ?_⟩
  · cases blank with
    | nil => exact lacks.1 inside
    | cons c blank =>
        have fresh : ∀ d ∈ c :: blank, d ∉ word := by
          intro d here there
          have known := (before.plain d here).2.1
          rw [(visible d there).1] at known
          cases known
        rcases @infix_of_all_not_mem _ _ [] _ _ inside fresh
            (List.cons_ne_nil _ _) with none | late
        · exact filled (List.infix_nil.mp none)
        · exact lacks.1 late
  · rcases List.mem_append.mp member with early | last
    · exact lacks.2.1 part early inside
    · rw [List.mem_singleton.mp last] at inside
      rcases behind with rfl | rfl
      · rw [List.append_nil] at inside
        exact lacks.2.2 inside
      · rcases infix_of_not_mem inside fun here => (visible _ here).2 rfl with
          here | none
        · exact lacks.2.2 here
        · exact filled (List.infix_nil.mp none)

end Token

end PackageLayers.Manifest

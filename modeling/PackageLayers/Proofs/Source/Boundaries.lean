/-
Purpose: Positions between two characters, and how brackets, elements and literals
lie in any text.
Main exports: Between, boundary_of_next, boundary_of_last, between_of_isBoundary,
  parts_of_charAt, slice_between, code_before, IsPair, Matched.encloses,
  elements_apart, between_of_element, between_of_literal, class_of_literal
-/
import PackageLayers.Proofs.Source.Elements

namespace PackageLayers

/-!
Whatever a text is, brackets unbalanced and literals left open, a search for what
counts does not end inside of a character: the positions of one character have one
class, and a separator takes only one of them.  Brackets that are partners lie in
each other or apart, and no literal reaches over code.
-/

/-- The character that a bracket is. -/
def Bracket.char : Bracket → Char
  | .opening .round => '('
  | .closing .round => ')'
  | .opening .square => '['
  | .closing .square => ']'
  | .opening .curly => '\x7b'
  | .closing .curly => '\x7d'

theorem Bracket.ofChar_char (side : Bracket) :
    Bracket.ofChar? side.char = some side := by
  cases side with
  | opening kind => cases kind <;> rfl
  | closing kind => cases kind <;> rfl

theorem Bracket.eq_char {c : Char} {side : Bracket}
    (bracket : Bracket.ofChar? c = some side) : c = side.char := by
  unfold Bracket.ofChar? at bracket
  repeat' split at bracket
  all_goals first
    | (rename_i same; cases bracket; exact same)
    | cases bracket

theorem Bracket.utf8Size_char (side : Bracket) : side.char.utf8Size = 1 := by
  cases side with
  | opening kind => cases kind <;> rfl
  | closing kind => cases kind <;> rfl

namespace Source

/-- A position between two characters of a text, or at one of its ends. -/
def Between (text : List Char) (position : Nat) : Prop :=
  ∃ before after, text = before ++ after ∧ byteLength before = position

/-! ### Inside of a character -/

theorem utf8Size_of_isSpace {c : Char} (space : isSpace c) : c.utf8Size = 1 := by
  simp only [isSpace, Bool.or_eq_true, decide_eq_true_eq] at space
  rcases space with (((rfl | rfl) | rfl) | rfl) | rfl <;> rfl

theorem isEdge_of_isSpace {c : Char} (space : isSpace c) : isEdge c = false := by
  simp only [isSpace, Bool.or_eq_true, decide_eq_true_eq] at space
  rcases space with (((rfl | rfl) | rfl) | rfl) | rfl <;> rfl

/-- The position before one inside of a character belongs to that character. -/
theorem Cell.before_inner {c : Char} {cls : CharClass} {index : Nat} {cell : Cell}
    (here : (Cell.ofChar c cls)[index]? = some cell) (inner : cell.char? = none) :
    ∃ last before, index = last + 1 ∧ (Cell.ofChar c cls)[last]? = some before ∧
      before.cls = cell.cls ∧ ∀ d, before.char? = some d → d.utf8Size ≠ 1 := by
  cases index with
  | zero =>
      cases here
      cases inner
  | succ last =>
      have inside : last + 1 < c.utf8Size := by
        rw [← length_ofChar c cls]
        exact (List.getElem?_eq_some_iff.mp here).1
      have cls_eq : cell.cls = cls := by
        rw [Cell.ofChar, List.getElem?_cons_succ] at here
        rw [List.eq_of_mem_replicate (List.mem_of_getElem? here)]
      cases last with
      | zero =>
          refine ⟨0, ⟨some c, cls⟩, rfl, rfl, cls_eq.symm, fun d same => ?_⟩
          cases same
          omega
      | succ last =>
          refine ⟨last + 1, ⟨none, cls⟩, rfl, ?_, cls_eq.symm, fun d none => by
            cases none⟩
          rw [Cell.ofChar, List.getElem?_cons_succ, List.getElem?_replicate,
            if_pos (by omega)]

theorem before_inner {entries : List (Char × CharClass)} {position : Nat}
    {cell : Cell}
    (here : (entries.flatMap fun entry =>
      Cell.ofChar entry.1 entry.2)[position]? = some cell)
    (inner : cell.char? = none) :
    ∃ last before, position = last + 1 ∧
      (entries.flatMap fun entry =>
        Cell.ofChar entry.1 entry.2)[last]? = some before ∧
      before.cls = cell.cls ∧ ∀ d, before.char? = some d → d.utf8Size ≠ 1 := by
  induction entries generalizing position with
  | nil => cases here
  | cons entry entries inductionHypothesis =>
      simp only [List.flatMap_cons] at here ⊢
      by_cases inside : position < entry.1.utf8Size
      · rw [List.getElem?_append_left (by rwa [length_ofChar])] at here
        obtain ⟨last, before, rfl, found, same⟩ := Cell.before_inner here inner
        refine ⟨last, before, rfl, ?_, same⟩
        rw [List.getElem?_append_left (by rw [length_ofChar]; omega)]
        exact found
      · rw [List.getElem?_append_right (by rw [length_ofChar]; omega),
          length_ofChar] at here
        obtain ⟨last, before, gap, found, same⟩ := inductionHypothesis here
        refine ⟨entry.1.utf8Size + last, before, by omega, ?_, same⟩
        rw [List.getElem?_append_right (by rw [length_ofChar]; omega),
          length_ofChar, Nat.add_sub_cancel_left]
        exact found

section

variable {text : String}

/-- A position inside of a character counts where the one before it does, which is
no character of one position. -/
theorem inner_eq {position : Nat} (inside : position < (ofText text).size)
    (inner : (ofText text).charAt? position = none) :
    ∃ last, position = last + 1 ∧
      (ofText text).isSignificant position = (ofText text).isSignificant last ∧
      ∀ d, (ofText text).charAt? last = some d → d.utf8Size ≠ 1 := by
  have here := Array.getElem?_eq_getElem inside
  generalize (ofText text).cells[position] = cell at here
  have blank : cell.char? = none := by
    rwa [charAt?, here, Option.bind_some] at inner
  have listed := here
  rw [ofText, List.getElem?_toArray] at listed
  obtain ⟨last, before, rfl, found, cls, wide⟩ := before_inner listed blank
  have there : (ofText text).cells[last]? = some before := by
    rw [ofText, List.getElem?_toArray]
    exact found
  refine ⟨last, rfl, ?_, fun d char => wide d ?_⟩
  · have spaceless : before.char?.any isSpace = false := by
      cases char : before.char? with
      | none => rfl
      | some d =>
          cases space : isSpace d with
          | false => simpa using space
          | true => exact absurd (utf8Size_of_isSpace space) (wide d char)
    rw [isSignificant, isSignificant, here, there, Option.any_some,
      Option.any_some, cls, blank, spaceless]
    rfl
  · rwa [charAt?, there, Option.bind_some] at char

theorem boundary_of_charAt {source : Source} {position : Nat} {c : Char}
    (char : source.charAt? position = some c) : source.isBoundary position := by
  rw [isBoundary, char]
  exact Bool.or_true _

/-- A position that is no boundary lies inside of a character, or outside of the
text. -/
theorem inner_of_not_boundary {source : Source} {position : Nat}
    (none : source.isBoundary position = false) (upper : position ≤ source.size) :
    position < source.size ∧ source.charAt? position = Option.none := by
  rw [isBoundary, Bool.or_eq_false_iff, beq_eq_false_iff_ne, ne_eq,
    Option.isSome_eq_false_iff, Option.isNone_iff_eq_none] at none
  exact ⟨Nat.lt_of_le_of_ne upper none.1, none.2⟩

/-- The position behind a character of one position is between two. -/
theorem boundary_behind {position : Nat} {c : Char}
    (char : (ofText text).charAt? position = some c) (single : c.utf8Size = 1) :
    (ofText text).isBoundary (position + 1) := by
  cases boundary : (ofText text).isBoundary (position + 1) with
  | true => rfl
  | false =>
      obtain ⟨inside, inner⟩ := inner_of_not_boundary boundary
        (lt_size_of_charAt char)
      obtain ⟨last, same, -, wide⟩ := inner_eq inside inner
      obtain rfl : position = last := Nat.succ.inj same
      exact absurd single (wide c char)

/-- What counts next behind a boundary starts a character. -/
theorem boundary_of_next {start stop next : Nat}
    (lower : (ofText text).isBoundary start)
    (found : (ofText text).nextSignificant? start stop = some next) :
    (ofText text).isBoundary next := by
  obtain ⟨order, -, significant, clear⟩ := next_eq_some_iff.mp found
  cases boundary : (ofText text).isBoundary next with
  | true => rfl
  | false =>
      obtain ⟨inside, inner⟩ := inner_of_not_boundary boundary
        (Nat.le_of_lt (lt_size_of_isSignificant significant))
      obtain ⟨last, rfl, same, -⟩ := inner_eq inside inner
      have early : start ≠ last + 1 := by
        rintro rfl
        rw [lower] at boundary
        cases boundary
      have hidden := clear last (by omega) (Nat.lt_succ_self last)
      rw [← same, significant] at hidden
      cases hidden

/-- Behind what counts last before a boundary a character ends. -/
theorem boundary_of_last {start stop last : Nat}
    (upper : (ofText text).isBoundary stop)
    (found : (ofText text).lastSignificant? start stop = some last) :
    (ofText text).isBoundary (last + 1) := by
  obtain ⟨-, order, significant, clear⟩ := last_eq_some_iff.mp found
  cases boundary : (ofText text).isBoundary (last + 1) with
  | true => rfl
  | false =>
      obtain ⟨inside, inner⟩ := inner_of_not_boundary boundary
        (lt_size_of_isSignificant significant)
      obtain ⟨before, follows, same, -⟩ := inner_eq inside inner
      obtain rfl : last = before := Nat.succ.inj follows
      have early : stop ≠ last + 1 := by
        rintro rfl
        rw [upper] at boundary
        cases boundary
      have hidden := clear (last + 1) (Nat.lt_succ_self last) (by omega)
      rw [same, significant] at hidden
      cases hidden

/-- The text before and behind a character. -/
theorem parts_of_charAt {position : Nat} {c : Char}
    (char : (ofText text).charAt? position = some c) :
    ∃ before after, text.toList = before ++ c :: after ∧
      byteLength before = position := by
  have whole := (reads_whole .code text.toList).chars_eq
  obtain ⟨cls, here⟩ := cell_of_charAt char
  rw [ofText_cells, List.getElem?_toArray] at here
  obtain ⟨early, lexeme, late, before, after, split, -, chars, length⟩ :=
    lexeme_at here rfl
  rw [← lexemes, split, List.flatMap_append, List.flatMap_cons, chars] at whole
  refine ⟨early.flatMap Lexeme.chars ++ before, after ++
    late.flatMap Lexeme.chars, ?_, by rw [byteLength_append]; exact length⟩
  rw [← whole]
  simp only [List.append_assoc, List.cons_append]

theorem between_of_charAt {position : Nat} {c : Char}
    (char : (ofText text).charAt? position = some c) :
    Between text.toList position := by
  obtain ⟨before, after, parts, place⟩ := parts_of_charAt char
  exact ⟨before, c :: after, parts, place⟩

/-- A boundary of the classified text is one of the text. -/
theorem between_of_isBoundary {position : Nat}
    (boundary : (ofText text).isBoundary position) :
    Between text.toList position := by
  rw [isBoundary, Bool.or_eq_true, beq_iff_eq] at boundary
  rcases boundary with rfl | starts
  · exact ⟨text.toList, [], (List.append_nil _).symm, (ofText_size text).symm⟩
  · obtain ⟨c, char⟩ := Option.isSome_iff_exists.mp starts
    exact between_of_charAt char

/-! ### Parts of a text -/

theorem map_classified (chars : List Char) :
    (classified chars).map Prod.fst = chars := by
  have whole := (reads_whole .code chars).chars_eq
  conv_rhs => rw [← whole]
  rw [classified, List.map_flatMap]
  refine List.flatMap_congr fun lexeme _ => ?_
  rw [List.map_map]
  exact List.map_id _

theorem length_flatMap_ofChar (entries : List (Char × CharClass)) :
    (entries.flatMap fun entry => Cell.ofChar entry.1 entry.2).length =
      byteLength (entries.map Prod.fst) := by
  induction entries with
  | nil => rfl
  | cons entry entries inductionHypothesis =>
      rw [List.flatMap_cons, List.length_append, length_ofChar,
        inductionHypothesis, List.map_cons, byteLength]

theorem filterMap_flatMap_ofChar (entries : List (Char × CharClass)) :
    (entries.flatMap fun entry => Cell.ofChar entry.1 entry.2).filterMap Cell.char? =
      entries.map Prod.fst := by
  induction entries with
  | nil => rfl
  | cons entry entries inductionHypothesis =>
      have inner : (List.replicate (entry.1.utf8Size - 1)
          (⟨none, entry.2⟩ : Cell)).filterMap Cell.char? = [] :=
        List.filterMap_eq_nil_iff.mpr fun cell member => by
          rw [List.eq_of_mem_replicate member]
      rw [List.flatMap_cons, List.filterMap_append, inductionHypothesis,
        Cell.ofChar, List.filterMap_cons, inner, List.map_cons]
      rfl

/-- What stands between two parts of a text. -/
theorem slice_between {front word behind : List Char}
    (parts : text.toList = front ++ word ++ behind) :
    (ofText text).slice (byteLength front)
      (byteLength front + byteLength word) = String.ofList word := by
  have whole := map_classified text.toList
  rw [parts, List.append_assoc] at whole
  obtain ⟨first, rest, split, rfl, others⟩ := List.map_eq_append_iff.mp whole
  obtain ⟨middle, last, rfl, rfl, rfl⟩ := List.map_eq_append_iff.mp others
  have cells : (ofText text).cells.toList =
      (first.flatMap fun entry => Cell.ofChar entry.1 entry.2) ++
        ((middle.flatMap fun entry => Cell.ofChar entry.1 entry.2) ++
          last.flatMap fun entry => Cell.ofChar entry.1 entry.2) := by
    rw [ofText, parts, List.append_assoc, split, List.flatMap_append,
      List.flatMap_append]
  rw [slice, ← length_flatMap_ofChar, ← length_flatMap_ofChar,
    Array.toList_extract, cells, List.extract_eq_take_drop, Nat.add_sub_cancel_left,
    List.drop_left, List.take_left, filterMap_flatMap_ofChar]

/-- The character between two parts of a text. -/
theorem charAt_of_parts {before after : List Char} {c : Char}
    (parts : text.toList = before ++ c :: after) :
    (ofText text).charAt? (byteLength before) = some c := by
  have whole := map_classified text.toList
  rw [parts] at whole
  obtain ⟨first, rest, split, rfl, others⟩ := List.map_eq_append_iff.mp whole
  obtain ⟨entry, last, rfl, rfl, rfl⟩ := List.map_eq_cons_iff.mp others
  rw [charAt?, ofText, parts, split, List.getElem?_toArray, List.flatMap_append,
    List.getElem?_append_right (by rw [length_flatMap_ofChar]),
    length_flatMap_ofChar, Nat.sub_self, List.flatMap_cons]
  rfl

theorem spansLines_of_charAt {source : Source} {start stop position : Nat}
    (lower : start ≤ position) (upper : position < stop)
    (lineBreak : source.charAt? position = some '\n') :
    source.spansLines start stop := by
  rw [spansLines, List.any_eq_true]
  refine ⟨position, mem_positions.mpr ⟨lower, ?_⟩, by simp [lineBreak]⟩
  exact Nat.lt_min.mpr ⟨upper, lt_size_of_charAt lineBreak⟩

/-- Characters that are no edges are code if code follows on their line. -/
theorem code_before {start stop : Nat} {d : Char} (order : start ≤ stop)
    (code : (ofText text).codeAt? stop = some d)
    (plain : ∀ position, start ≤ position → position < stop →
      ∃ c, (ofText text).charAt? position = some c ∧ isEdge c = false)
    (line : ∀ position, start < position → position ≤ stop →
      (ofText text).charAt? position ≠ some '\n') :
    ∃ c, (ofText text).codeAt? start = some c := by
  induction gap : stop - start generalizing start with
  | zero =>
      obtain rfl : start = stop := by omega
      exact ⟨d, code⟩
  | succ gap inductionHypothesis =>
      obtain ⟨next, behind⟩ := @inductionHypothesis (start + 1) (by omega)
        (fun position lower upper => plain position (by omega) upper)
        (fun position lower upper => line position (by omega) upper) (by omega)
      obtain ⟨c, char, edge⟩ := plain start (Nat.le_refl _) (by omega)
      obtain ⟨cls, here⟩ := cell_of_charAt char
      refine ⟨c, ?_⟩
      by_contra other
      rcases edge_of_code here (codeAt_eq_some behind)
        (cell_of_codeAt_none here other) rfl with ⟨e, same, known⟩ | lineBreak
      · cases same
        rw [edge] at known
        cases known
      · refine line (start + 1) (Nat.lt_succ_self _) (by omega) ?_
        rw [charAt_of_codeAt behind]
        exact lineBreak

end

/-! ### Brackets in brackets -/

/-- Brackets of one kind that are partners, with nothing unbalanced between
them. -/
structure IsPair (source : Source) (kind : BracketKind) (span : Span) : Prop where
  matched : Matched source span
  opens : source.codeAt? span.start = some (Bracket.opening kind).char
  closes : source.codeAt? span.stop = some (Bracket.closing kind).char

/-- The partner of an opening bracket is the closing bracket of its kind. -/
theorem isPair_of_partner {source : Source} {kind : BracketKind} {start stop : Nat}
    (char : source.charAt? start = some (Bracket.opening kind).char)
    (partner : source.partner? start = some stop) :
    IsPair source kind ⟨start, stop⟩ := by
  have matched := matched_of_partner partner
  obtain ⟨found, left, right, here, there, opens, closes⟩ := matched.kinds
  obtain rfl : left = (Bracket.opening kind).char := by
    rw [charAt_of_codeAt here] at char
    exact Option.some.inj char
  rw [Bracket.ofChar_char, Option.some.injEq, Bracket.opening.injEq] at opens
  subst opens
  exact ⟨matched, here, Bracket.eq_char closes ▸ there⟩

/-- Brackets that open inside of others close inside of them. -/
theorem Matched.encloses {source : Source} {outer inner : Span}
    (matched : Matched source outer) (inside : Matched source inner)
    (lower : outer.start < inner.start) (upper : inner.start < outer.stop) :
    inner.stop < outer.stop := by
  by_contra beyond
  obtain ⟨kind, left, right, here, -, opens, -⟩ := inside.kinds
  -- the inner bracket is still open where the outer one closes
  have first := @codeChars_append source _ _ _ lower (Nat.le_of_lt upper)
  rw [codeChars_cons upper here] at first
  have second := @codeChars_append source _ _ _ upper (Nat.le_of_not_lt beyond)
  obtain ⟨before, -, depth⟩ := matched.balanced.openBefore_part
    (congrArg Marked.chars first) []
  obtain ⟨within, -, depth'⟩ := inside.balanced.openBefore_part
    (congrArg Marked.chars second) []
  have closed := matched.balanced.depth 0
  rw [first, Marked.chars_append, depthThrough_append, depth, Marked.chars,
    List.map_cons, depthThrough, List.foldl_cons, depthAfter_opening opens,
    ← depthThrough, ← Marked.chars, depth'] at closed
  omega

/-! ### Elements -/

theorem slots_apart {start stop : Nat} {cuts : List Nat}
    (ascend : cuts.Pairwise (· < ·)) (bounds : ∀ cut ∈ cuts, cut ≤ stop) :
    (slots start stop cuts).Pairwise fun first second =>
      first.stop < second.start := by
  induction cuts generalizing start with
  | nil => exact List.pairwise_singleton _ _
  | cons cut cuts inductionHypothesis =>
      obtain ⟨above, ascend⟩ := List.pairwise_cons.mp ascend
      have later := fun other member => bounds other (List.mem_cons_of_mem cut member)
      refine List.pairwise_cons.mpr ⟨fun slot member => ?_,
        inductionHypothesis ascend later⟩
      exact (slot_bounds (Nat.le_refl (cut + 1))
        (fun other inside => ⟨above other inside, later other inside⟩) member).1

/-- Elements come one behind the other, with a comma in between. -/
theorem elements_apart (source : Source) (span : Span) :
    (source.elements span).Pairwise fun first second =>
      first.stop < second.start := by
  have cuts := @slots_apart (span.start + 1) span.stop _
    (commas_ascend 0 (@codeChars_ascends source (span.start + 1) span.stop))
    fun cut member => Nat.le_of_lt (comma_level member).2.1
  rw [elements, List.pairwise_filterMap]
  refine cuts.imp fun {left right} apart first here second there => ?_
  obtain ⟨-, last, back, stop⟩ := trimmed_eq_some_iff.mp here
  obtain ⟨next, -⟩ := trimmed_eq_some_iff.mp there
  have upper := (last_eq_some_iff.mp back).2.1
  have lower := (next_eq_some_iff.mp next).1
  omega

/-- The brackets of an array and the commas directly inside of it take one
position. -/
theorem cut_boundary {text : String} {span : Span} {position : Nat}
    (matched : Matched (ofText text) span)
    (member : position ∈ Insertion.cutsOf (ofText text) span) :
    (ofText text).isBoundary position ∧
      (ofText text).isBoundary (position + 1) := by
  have single {c : Char} (code : (ofText text).codeAt? position = some c)
      (width : c.utf8Size = 1) :
      (ofText text).isBoundary position ∧
        (ofText text).isBoundary (position + 1) :=
    ⟨boundary_of_charAt (charAt_of_codeAt code),
      boundary_behind (charAt_of_codeAt code) width⟩
  have width {c : Char} {side : Bracket} (bracket : Bracket.ofChar? c = some side) :
      c.utf8Size = 1 := by
    rw [Bracket.eq_char bracket]
    exact side.utf8Size_char
  obtain ⟨kind, left, right, here, there, opens, closes⟩ := matched.kinds
  obtain ⟨-, -, -, kinds⟩ := Insertion.isLevel_of_cut matched member
  rcases kinds with rfl | rfl | comma
  · exact single here (width opens)
  · exact single there (width closes)
  · exact single comma rfl

/-- Elements start and end between characters. -/
theorem between_of_element {text : String} {span range : Span}
    (matched : Matched (ofText text) span)
    (member : range ∈ (ofText text).elements span) :
    Between text.toList range.start ∧ Between text.toList range.stop := by
  obtain ⟨slot, here, trimmed⟩ := List.mem_filterMap.mp member
  obtain ⟨left, cut, right, cut', rfl⟩ := mem_slots here
  obtain ⟨next, last, back, stop⟩ := trimmed_eq_some_iff.mp trimmed
  have first := boundary_of_next (cut_boundary matched cut).2 next
  have final := boundary_of_last (cut_boundary matched cut').1 back
  rw [← stop] at final
  exact ⟨between_of_isBoundary first, between_of_isBoundary final⟩

/-! ### Literals -/

/-- The lexemes of a literal are of one class: those behind what was open before,
or those behind the ones before its start. -/
theorem Reads.literal {mode last : Mode} {chars after : List Char}
    {found : List Lexeme} (reads : Reads mode chars after found last)
    {current : Option (Nat × Delimiter)} (tracks : Tracks mode current)
    {position : Nat} {literal : Literal}
    (member : literal ∈ literalsFrom position current found) :
    ∃ early middle late, found = early ++ (middle ++ late) ∧
      (current = some (literal.start, literal.delimiter) ∧ early = [] ∧
          position + sizeOf middle = literal.stop ∨
        position + sizeOf early = literal.start ∧
          literal.start + sizeOf middle = literal.stop) ∧
      ∀ lexeme ∈ middle, lexeme.cls = .literal := by
  induction reads generalizing position current with
  | done mode after =>
      cases current with
      | none => cases member
      | some current =>
          rw [literalsFrom, List.mem_singleton] at member
          subst member
          exact ⟨[], [], [], rfl, Or.inl ⟨rfl, rfl, rfl⟩, List.forall_mem_nil _⟩
  | @more mode last first taken rest after now found here fits later
      inductionHypothesis =>
      have steps := here ▸ steps_step mode first (taken ++ rest ++ after)
      rw [List.append_assoc] at steps
      have moved := tracks.step steps position
        (position + Lexeme.size ⟨first :: taken, now.cls, now.role⟩)
      rw [literalsFrom_cons, List.mem_append] at member
      rcases member with ended | behind
      · obtain ⟨rfl, -⟩ := literal_mem_turn ended
        cases role : now.role with
        | plain => simp [turn, role] at ended
        | opening delimiter => simp [turn, role] at ended
        | closing =>
            simp only [turn, role, List.mem_singleton] at ended
            refine ⟨[], [⟨first :: taken, now.cls, .closing⟩], found, rfl, Or.inl
              ⟨rfl, rfl, ?_⟩, fun lexeme one => ?_⟩
            · rw [ended, sizeOf_cons, sizeOf_nil]
              rfl
            · rw [List.mem_singleton.mp one]
              exact (steps.of_closing fits role).1
        | breaking =>
            simp only [turn, role, List.mem_singleton] at ended
            exact ⟨[], [], _, rfl, Or.inl ⟨rfl, rfl, by rw [ended]; rfl⟩,
              List.forall_mem_nil _⟩
      · obtain ⟨early, middle, late, rfl, place, cls⟩ :=
          inductionHypothesis moved behind
        rcases place with ⟨opened, rfl, stop⟩ | ⟨start, stop⟩
        · rcases open_of_turn opened with rfl | ⟨role, rfl⟩
          · -- what goes on inside of a literal belongs to it
            have inside : now.cls = .literal := by
              refine (steps.inside tracks.symm).resolve_right fun breaking => ?_
              simp [turn, breaking] at opened
            refine ⟨[], ⟨first :: taken, now.cls, now.role⟩ :: middle, late, rfl,
              Or.inl ⟨rfl, rfl, ?_⟩, List.forall_mem_cons.mpr ⟨inside, cls⟩⟩
            rw [sizeOf_cons, ← stop, Nat.add_assoc]
          · refine ⟨[], ⟨first :: taken, now.cls, now.role⟩ :: middle, late, rfl,
              Or.inr ⟨rfl, ?_⟩,
              List.forall_mem_cons.mpr ⟨(steps.of_opening role).1, cls⟩⟩
            rw [sizeOf_cons, ← stop, Nat.add_assoc]
        · refine ⟨⟨first :: taken, now.cls, now.role⟩ :: early, middle, late, rfl,
            Or.inr ⟨?_, stop⟩, cls⟩
          rw [sizeOf_cons, ← start, Nat.add_assoc]

section

variable {text : String} {literal : Literal}

/-- The lexemes of a literal of a text. -/
theorem lexemes_of_literal (member : literal ∈ (ofText text).literals) :
    ∃ early middle late, lexemes text.toList = early ++ (middle ++ late) ∧
      sizeOf early = literal.start ∧
      literal.start + sizeOf middle = literal.stop ∧
      ∀ lexeme ∈ middle, lexeme.cls = .literal := by
  obtain ⟨early, middle, late, split, place, cls⟩ :=
    @Reads.literal _ _ _ _ _ (reads_whole .code text.toList) none rfl _ _ member
  rcases place with ⟨none, -⟩ | ⟨start, stop⟩
  · cases none
  · exact ⟨early, middle, late, split, by rwa [Nat.zero_add] at start, stop, cls⟩

/-- A literal starts and stops between two characters. -/
theorem between_of_literal (member : literal ∈ (ofText text).literals) :
    Between text.toList literal.start ∧ Between text.toList literal.stop := by
  obtain ⟨early, middle, late, split, start, stop, -⟩ := lexemes_of_literal member
  have whole := (reads_whole .code text.toList).chars_eq
  rw [← lexemes, split, List.flatMap_append, List.flatMap_append] at whole
  refine ⟨⟨_, _, whole.symm, start⟩, early.flatMap Lexeme.chars ++
    middle.flatMap Lexeme.chars, late.flatMap Lexeme.chars, ?_, ?_⟩
  · rw [List.append_assoc, whole]
  · rw [byteLength_append, ← stop, ← start]
    rfl

/-- All positions of a literal are classified as literal. -/
theorem class_of_literal (member : literal ∈ (ofText text).literals)
    {position : Nat} (lower : literal.start ≤ position)
    (upper : position < literal.stop) :
    (ofText text).classAt? position = some .literal := by
  obtain ⟨early, middle, late, split, start, stop, cls⟩ := lexemes_of_literal member
  obtain ⟨index, rfl⟩ := Nat.exists_eq_add_of_le lower
  obtain ⟨first, lexeme, last, offset, rfl, bound, same⟩ :=
    @lexeme_over middle index (by omega)
  have order : early ++ (first ++ lexeme :: last ++ late) =
      (early ++ first) ++ lexeme :: (last ++ late) := by
    simp only [List.append_assoc, List.cons_append]
  have place : literal.start + index = sizeOf (early ++ first) + offset := by
    rw [sizeOf_append]
    omega
  have here := List.getElem?_eq_getElem (Nat.lt_of_lt_of_eq bound
    lexeme.length_cells.symm)
  rw [classAt?, ofText_cells, List.getElem?_toArray, split, order, place,
    cell_of_lexeme bound, here, Option.map_some,
    Lexeme.cls_of_mem (List.mem_of_getElem? here), cls lexeme (by simp)]

/-- There is no code inside of a literal. -/
theorem codeAt_none_of_literal (member : literal ∈ (ofText text).literals)
    {position : Nat} (lower : literal.start ≤ position)
    (upper : position < literal.stop) : (ofText text).codeAt? position = none := by
  have quoted := class_of_literal member lower upper
  rw [Option.eq_none_iff_forall_ne_some]
  intro c code
  rw [classAt?, codeAt_eq_some code] at quoted
  cases quoted

end

end Source

end PackageLayers

/-
Purpose: When a comma is alone on its line after an element has been added to an array.
Main exports: HasLoneComma, hasLoneComma_other, FirstOnLine, lone_of_arrayInsertion,
  arrayInsertion_lone
-/
import PackageLayers.Proofs.Manifest.Styles

namespace PackageLayers.Manifest

open Source (Span IsPair Between byteLength isSpace)

/-!
A new line starts behind the trailing comma of an array, or behind its last element if
there is no comma.  The lines that are cut in two there keep something else than the
comma, and so does the line of the new element; all other lines stay as they are.  So no
line is left with a comma alone, with one exception: a trailing comma that is the first
on its line, with nothing between it and the closing bracket, loses the bracket to the
new line.
-/

/-! ### Lines -/

/-- Whether a line is a comma and blanks. -/
def LoneComma (line : List Char) : Prop :=
  (line.filter fun c => !isSpace c) = [',']

/-- Whether some line of a text is a comma and blanks. -/
def HasLoneComma (chars : List Char) : Prop :=
  ∃ line ∈ chars.splitOn '\n', LoneComma line

instance : DecidablePred LoneComma := fun _ => inferInstanceAs (Decidable (_ = _))

instance : DecidablePred HasLoneComma :=
  fun _ => inferInstanceAs (Decidable (∃ _ ∈ _, _))

section

variable {before part after word : List Char}

theorem hasLoneComma_break :
    HasLoneComma (before ++ '\n' :: after) ↔
      HasLoneComma before ∨ HasLoneComma after := by
  simp only [HasLoneComma, List.splitOn_append_cons_self, List.mem_append, or_and_right,
    exists_or]

theorem hasLoneComma_line {line : List Char} (single : '\n' ∉ line) :
    HasLoneComma line ↔ LoneComma line := by
  simp only [HasLoneComma, List.splitOn_eq_singleton single, List.mem_singleton,
    exists_eq_left]

theorem loneComma_of_blank (early : ∀ c ∈ before, isSpace c)
    (late : ∀ c ∈ after, isSpace c) : LoneComma (before ++ ',' :: after) := by
  have none {chars : List Char} (blank : ∀ c ∈ chars, isSpace c) :
      (chars.filter fun c => !isSpace c) = [] := by
    simpa [List.filter_eq_nil_iff] using blank
  rw [LoneComma, List.filter_append, List.filter_cons_of_pos (by decide), none early,
    none late, List.nil_append]

/-- A text is one line, or has a last one. -/
theorem lastLine_cases (chars : List Char) :
    '\n' ∉ chars ∨ ∃ before line, chars = before ++ '\n' :: line ∧ '\n' ∉ line := by
  by_cases broken : '\n' ∈ chars
  · obtain ⟨before, line, same, single⟩ := List.eq_append_cons_of_mem
      (List.mem_reverse.mpr broken)
    refine Or.inr ⟨line.reverse, before.reverse, ?_, by simpa using single⟩
    rw [← List.reverse_reverse chars, same]
    simp
  · exact Or.inl broken

/-- A text is one line, or has a first one. -/
theorem firstLine_cases (chars : List Char) :
    '\n' ∉ chars ∨ ∃ line after, chars = line ++ '\n' :: after ∧ '\n' ∉ line := by
  by_cases broken : '\n' ∈ chars
  · exact Or.inr (List.eq_append_cons_of_mem broken)
  · exact Or.inl broken

/-- Whether characters stand on no line that is a comma and blanks. -/
def Solid (chars : List Char) : Prop :=
  ∀ left right, ¬LoneComma (left ++ chars ++ right)

theorem solid_of_mem {chars : List Char} {c : Char} (member : c ∈ chars)
    (visible : isSpace c = false) (other : c ≠ ',') : Solid chars := by
  intro left right lone
  have shown : c ∈ (left ++ chars ++ right).filter fun c => !isSpace c := by
    simp [member, visible]
  rw [lone, List.mem_singleton] at shown
  exact other shown

theorem solid_of_cons {c d : Char} {chars : List Char} (first : isSpace c = false)
    (member : d ∈ chars) (second : isSpace d = false) : Solid (c :: chars) := by
  intro left right lone
  have length := congrArg List.length lone
  have shown : d ∈ chars.filter fun c => !isSpace c := by simp [member, second]
  have positive := List.length_pos_of_mem shown
  simp only [List.filter_append, List.filter_cons, first, List.length_append,
    Bool.not_false, if_true, List.length_cons, List.length_nil] at length
  omega

theorem Solid.append (solid : Solid part) (line : List Char) : Solid (part ++ line) := by
  intro left right lone
  apply solid left (line ++ right)
  simpa using lone

/-- The last line apart, a text has a lone comma whatever its last line is. -/
theorem hasLoneComma_last (solid : Solid part) (single : '\n' ∉ part)
    (lone : HasLoneComma (before ++ part)) (other : List Char) :
    HasLoneComma (before ++ other) := by
  rcases lastLine_cases before with plain | ⟨lines, line, rfl, plain⟩
  · rw [hasLoneComma_line (by simp [plain, single])] at lone
    exact absurd (by simpa using lone) (solid before [])
  · rw [List.append_assoc, List.cons_append] at lone ⊢
    rcases hasLoneComma_break.mp lone with early | here
    · exact hasLoneComma_break.mpr (Or.inl early)
    · rw [hasLoneComma_line (by simp [plain, single])] at here
      exact absurd (by simpa using here) (solid line [])

/-- A lone comma that is not on the line of a part is there whatever stands in the place
of the part. -/
theorem hasLoneComma_other (solid : Solid part) (single : '\n' ∉ part)
    (lone : HasLoneComma (before ++ part ++ after)) (other : List Char) :
    HasLoneComma (before ++ other ++ after) := by
  rcases firstLine_cases after with plain | ⟨line, lines, rfl, plain⟩
  · rw [List.append_assoc] at lone ⊢
    exact hasLoneComma_last (solid.append after) (by simp [single, plain]) lone _
  · rw [← List.append_assoc] at lone ⊢
    rcases hasLoneComma_break.mp lone with early | late
    · refine hasLoneComma_break.mpr (Or.inl ?_)
      rw [List.append_assoc] at early ⊢
      exact hasLoneComma_last (solid.append line) (by simp [single, plain]) early _
    · exact hasLoneComma_break.mpr (Or.inr late)

/-- Two parts with a line break between them. -/
theorem hasLoneComma_newLine (solid : Solid part) (single : '\n' ∉ part)
    (solid' : Solid word) (single' : '\n' ∉ word)
    (lone : HasLoneComma (before ++ part ++ '\n' :: (word ++ after)))
    (other : List Char) : HasLoneComma (before ++ other ++ after) := by
  rcases hasLoneComma_break.mp lone with early | late
  · rw [List.append_assoc]
    exact hasLoneComma_last solid single early _
  · exact @hasLoneComma_other [] word after solid' single' late (before ++ other)

end

/-! ### Characters and positions -/

section

variable {text : String} {before part after : List Char}

theorem mem_of_charAt (parts : text.toList = before ++ part ++ after) {position : Nat}
    {c : Char} (char : (Source.ofText text).charAt? position = some c)
    (lower : byteLength before ≤ position)
    (upper : position < byteLength (before ++ part)) : c ∈ part := by
  obtain ⟨front, behind, split, rfl⟩ := Source.parts_of_charAt char
  rw [parts, List.append_assoc] at split
  obtain ⟨middle, rfl, rest⟩ := prefix_of_byteLength split lower
  rw [Source.byteLength_append, Source.byteLength_append,
    Nat.add_lt_add_iff_left] at upper
  rcases List.append_eq_append_iff.mp rest with ⟨extra, rfl, -⟩ | ⟨extra, rfl, same⟩
  · rw [Source.byteLength_append] at upper
    omega
  · cases extra with
    | nil =>
        rw [List.append_nil] at upper
        exact absurd upper (Nat.lt_irrefl _)
    | cons d extra =>
        cases same
        exact List.mem_append_right _ List.mem_cons_self

theorem charAt_of_mem (parts : text.toList = before ++ part ++ after) {c : Char}
    (member : c ∈ part) :
    ∃ position, byteLength before ≤ position ∧
      position < byteLength (before ++ part) ∧
      (Source.ofText text).charAt? position = some c := by
  obtain ⟨early, late, rfl⟩ := List.append_of_mem member
  refine ⟨byteLength (before ++ early), ?_, ?_, @Source.charAt_of_parts text
    (before ++ early) (late ++ after) c (by simp [parts])⟩
  · rw [Source.byteLength_append]
    exact Nat.le_add_right _ _
  · have width := Source.utf8Size_pos c
    simp only [Source.byteLength_append, byteLength]
    omega

/-- Characters of one position start at all positions that they take. -/
theorem charAt_of_single (parts : text.toList = before ++ part ++ after)
    (single : ∀ c ∈ part, c.utf8Size = 1) {position : Nat}
    (lower : byteLength before ≤ position)
    (upper : position < byteLength (before ++ part)) :
    ∃ c ∈ part, (Source.ofText text).charAt? position = some c := by
  obtain ⟨index, rfl⟩ := Nat.exists_eq_add_of_le lower
  rw [Source.byteLength_append, Source.byteLength_of_single single,
    Nat.add_lt_add_iff_left] at upper
  refine ⟨part[index], List.getElem_mem upper, ?_⟩
  have split : part = part.take index ++ part[index] :: part.drop (index + 1) := by
    rw [← List.drop_eq_getElem_cons upper, List.take_append_drop]
  have whole : text.toList = (before ++ part.take index) ++
      part[index] :: (part.drop (index + 1) ++ after) := by
    conv_lhs => rw [parts, split]
    simp only [List.append_assoc, List.cons_append]
  have found := Source.charAt_of_parts whole
  rw [Source.byteLength_append, Source.byteLength_of_single fun c member =>
    single c (List.mem_of_mem_take member), List.length_take,
    Nat.min_eq_left (Nat.le_of_lt upper)] at found
  exact found

/-- What stands on a line from a character on. -/
theorem line_stretch {start place : Nat} {c : Char}
    (char : (Source.ofText text).charAt? start = some c) (order : start < place)
    (between : Between text.toList place)
    (line : ∀ position, start ≤ position → position < place →
      (Source.ofText text).charAt? position ≠ some '\n') :
    ∃ before middle after, text.toList = before ++ c :: middle ++ after ∧
      byteLength before = start ∧ byteLength (before ++ c :: middle) = place ∧
      '\n' ∉ c :: middle := by
  obtain ⟨before, rest, parts, rfl⟩ := Source.parts_of_charAt char
  obtain ⟨front, after, split, rfl⟩ := between
  rw [split] at parts
  obtain ⟨middle, rfl, same⟩ := prefix_of_byteLength parts.symm (Nat.le_of_lt order)
  cases middle with
  | nil => simp at order
  | cons d middle =>
      obtain ⟨rfl, rfl⟩ := List.cons_eq_cons.mp same
      refine ⟨before, middle, after, split, rfl, rfl, fun broken => ?_⟩
      obtain ⟨position, lower, upper, lineBreak⟩ := charAt_of_mem split broken
      exact line position lower upper lineBreak

/-- In front of a place behind something that counts a visible character ends. -/
theorem visible_before {place : Nat} {front rest : List Char}
    (significant : (Source.ofText text).isSignificant (place - 1))
    (positive : 0 < place) (parts : text.toList = front ++ rest)
    (size : byteLength front = place) :
    ∃ before c, front = before ++ [c] ∧ isSpace c = false := by
  have filled : front ≠ [] := by
    rintro rfl
    exact absurd positive (by rw [← size]; exact Nat.lt_irrefl 0)
  refine ⟨front.dropLast, front.getLast filled,
    (List.dropLast_concat_getLast filled).symm, ?_⟩
  generalize split : front.getLast filled = c
  cases space : isSpace c with
  | false => rfl
  | true =>
      have whole : front = front.dropLast ++ [c] := by
        rw [← split, List.dropLast_concat_getLast]
      have char := @Source.charAt_of_parts text front.dropLast rest c (by
        rw [parts]
        conv_lhs => rw [whole]
        simp)
      rw [whole, Source.byteLength_append, byteLength, byteLength,
        Source.utf8Size_of_isSpace space] at size
      obtain ⟨cls, here⟩ := Source.cell_of_charAt char
      rw [← size, Nat.add_sub_cancel, isSignificant_eq, here] at significant
      simp [isVisible, space] at significant

/-- A comma that is alone in front of code on its line counts. -/
theorem lone_significant {front line rest : List Char} {stop : Nat} {d : Char}
    (parts : text.toList = front ++ line ++ rest)
    (size : byteLength (front ++ line) = stop) (lone : LoneComma line)
    (single : '\n' ∉ line) (code : (Source.ofText text).codeAt? stop = some d)
    (other : d ≠ '\n') :
    ∃ position, byteLength front ≤ position ∧ position < stop ∧
      (Source.ofText text).isSignificant position := by
  obtain ⟨early, late, rfl, -, -, blank⟩ := List.filter_eq_cons_iff.mp lone
  have spaces : ∀ c ∈ late, isSpace c := by
    simpa [List.filter_eq_nil_iff] using blank
  have whole : text.toList = (front ++ early) ++ ',' :: late ++ rest := by
    rw [parts]
    simp only [List.append_assoc]
  have size' : byteLength ((front ++ early) ++ ',' :: late) = stop := by
    rw [← size, List.append_assoc]
  have width : byteLength (front ++ early) < stop := by
    rw [← size', Source.byteLength_append (front ++ early)]
    exact Nat.lt_add_of_pos_right (Source.byteLength_pos (List.cons_ne_nil _ _))
  have comma : (Source.ofText text).charAt? (byteLength (front ++ early)) =
      some ',' :=
    Source.charAt_of_parts (by rw [whole, List.append_assoc]; rfl)
  obtain ⟨c, here⟩ := Source.code_before (Nat.le_of_lt width) code
    (fun position lower upper => by
      obtain ⟨c, member, char⟩ := charAt_of_single whole (fun c member => by
        rcases List.mem_cons.mp member with rfl | blank
        · rfl
        · exact Source.utf8Size_of_isSpace (spaces c blank)) lower (size' ▸ upper)
      refine ⟨c, char, ?_⟩
      rcases List.mem_cons.mp member with rfl | blank
      · rfl
      · exact Source.isEdge_of_isSpace (spaces c blank))
    (fun position lower upper lineBreak => by
      rcases Nat.eq_or_lt_of_le upper with rfl | inside
      · rw [Source.charAt_of_codeAt code] at lineBreak
        exact other (Option.some.inj lineBreak)
      · exact single (List.mem_append_right _ (mem_of_charAt whole lineBreak
          (Nat.le_of_lt lower) (size' ▸ inside))))
  rw [Source.charAt_of_codeAt here] at comma
  cases comma
  refine ⟨_, ?_, width, Source.isSignificant_of_codeAt here rfl⟩
  rw [Source.byteLength_append]
  exact Nat.le_add_right _ _

end

/-! ### The lines of positions -/

section

variable {source : Source} {anchor limit position : Nat}

/-- Whether a position is the first on its line at which something is visible. -/
def FirstOnLine (source : Source) (position : Nat) : Prop :=
  ∀ earlier < position, ∀ c ∈ source.charAt? earlier, isSpace c = false →
    source.spansLines earlier position

instance (source : Source) (position : Nat) : Decidable (FirstOnLine source position) :=
  inferInstanceAs (Decidable (∀ _ < _, ∀ _ ∈ _, _))

/-- There is no line break before the end of a line. -/
theorem line_of_lineEnd (boundary : source.isBoundary anchor)
    (lower : anchor ≤ position) (upper : position < source.lineEnd anchor) :
    source.charAt? position ≠ some '\n' := by
  rw [Source.lineEnd, if_pos boundary] at upper
  intro lineBreak
  cases found : (Source.positions anchor source.size).find? fun later =>
      source.charAt? later == some '\n' with
  | none =>
      have clear := List.find?_eq_none.mp found position
        (Source.mem_positions.mpr ⟨lower, Source.lt_size_of_charAt lineBreak⟩)
      simp [lineBreak] at clear
  | some stop =>
      rw [found, Option.getD_some] at upper
      obtain ⟨-, -, -, clear⟩ := Source.find_positions.mp found
      have other := clear position lower upper
      simp [lineBreak] at other

/-- A new line starts on the line of its anchor. -/
theorem lineInsertPoint_line {c : Char} (char : source.charAt? anchor = some c)
    (other : c ≠ '\n') (lower : anchor ≤ position)
    (upper : position < lineInsertPoint source anchor limit) :
    source.charAt? position ≠ some '\n' := by
  rw [lineInsertPoint] at upper
  split at upper
  · exact line_of_lineEnd (Source.boundary_of_charAt char) lower
      (Nat.lt_of_lt_of_le upper (Nat.min_le_left _ _))
  · obtain rfl : position = anchor := by omega
    rw [char]
    exact fun same => other (Option.some.inj same)

/-- A new line starts on another line than its anchor only at the limit: if the anchor
is inside of a character. -/
theorem lineInsertPoint_of_break (visible : source.isSignificant anchor)
    (inside : limit ≤ source.size) (lower : anchor ≤ position)
    (upper : position < lineInsertPoint source anchor limit)
    (lineBreak : source.charAt? position = some '\n') :
    lineInsertPoint source anchor limit = limit := by
  cases boundary : source.isBoundary anchor with
  | false =>
      have stop : source.lineEnd anchor = source.size := by
        simp [Source.lineEnd, boundary]
      rw [lineInsertPoint, stop, Nat.min_eq_right inside, if_pos (Or.inl rfl)]
  | true =>
      have size := Source.lt_size_of_isSignificant visible
      rw [Source.isBoundary, Bool.or_eq_true, beq_iff_eq] at boundary
      obtain ⟨c, char⟩ := Option.isSome_iff_exists.mp
        (boundary.resolve_left (Nat.ne_of_lt size))
      refine absurd lineBreak (lineInsertPoint_line char ?_ lower upper)
      rintro rfl
      obtain ⟨cls, here⟩ := Source.cell_of_charAt char
      simp [isSignificant_eq, here, isVisible, isSpace] at visible

end

/-! ### Edits -/

section

variable {text token : String} {brackets last : Span}

theorem Built.solid (built : Built token) {word : List Char}
    (within : token.toList ⊆ word) : Solid word := by
  have shown : ∃ c ∈ token.toList, isSpace c = false ∧ c ≠ ',' := by
    cases built with
    | target name => exact ⟨'"', by simp [quote], by decide, by decide⟩
    | _ => exact ⟨'.', by simp [String.toList_append], by decide, by decide⟩
  obtain ⟨c, member, visible, other⟩ := shown
  exact solid_of_mem (within member) visible other

/-- An element with what is put around it stands on one line, and not alone. -/
theorem element_line {blank tail : List Char} (isTail : IsTail tail)
    (indent : ∀ c ∈ blank, c = ' ' ∨ c = '\t') (built : Built token) :
    Solid (blank ++ token.toList ++ tail) ∧ '\n' ∉ blank ++ token.toList ++ tail := by
  constructor
  · exact built.solid fun c member => by simp [member]
  · simp only [List.mem_append, not_or]
    refine ⟨⟨fun broken => ?_, built.single⟩, ?_⟩
    · have known := indent _ broken
      revert known
      decide
    · rcases isTail with rfl | rfl <;> decide

theorem lone_of_inline {edit : Edit} (between : Between text.toList edit.position)
    (solid : Solid edit.text.toList) (single : '\n' ∉ edit.text.toList)
    (lone : HasLoneComma (applyEdits text [edit]).toList) :
    HasLoneComma text.toList := by
  obtain ⟨before, after, parts, place⟩ := between
  rw [applyEdits_one, String.toList_ofList, parts, ← place, insertAt_append] at lone
  have others := hasLoneComma_other solid single lone []
  rwa [List.append_nil, ← parts] at others

theorem lone_of_newLine {inserted : String} {before part after word : List Char}
    (parts : text.toList = before ++ part ++ after)
    (solid : Solid part) (single : '\n' ∉ part)
    (same : inserted.toList = '\n' :: word) (solid' : Solid word)
    (single' : '\n' ∉ word)
    (lone : HasLoneComma
      (applyEdits text [⟨byteLength (before ++ part), inserted⟩]).toList) :
    HasLoneComma text.toList := by
  rw [applyEdits_one, String.toList_ofList, parts, insertAt_append, same,
    List.append_assoc, List.cons_append] at lone
  rw [parts]
  exact hasLoneComma_newLine solid single solid' single' lone part

/-- In an array without elements. -/
theorem lone_of_empty (pair : IsPair (Source.ofText text) .square brackets)
    (built : Built token)
    (lone : HasLoneComma (applyEdits text
      (emptyArrayInsertion (Source.ofText text) brackets token)).toList) :
    HasLoneComma text.toList := by
  have opened := behind_opening pair
  have char := Source.charAt_of_codeAt pair.opens
  rw [emptyArrayInsertion] at lone
  split at lone
  · obtain ⟨behind, -⟩ := lineInsertPoint_spec pair.matched.order
      (Source.lt_size_of_codeAt pair.closes)
      (Source.isSignificant_of_codeAt pair.opens rfl)
    obtain ⟨before, middle, after, parts, -, place, single⟩ :=
      line_stretch char behind (lineInsertPoint_between opened (closing_between pair))
        fun position => lineInsertPoint_line char (by decide)
    obtain ⟨solid, line⟩ := element_line (Or.inr rfl) (indentInside_blank
      (lineIndent_blank (Source.ofText text) brackets.stop)) built
    rw [← place] at lone
    exact lone_of_newLine parts (solid_of_mem List.mem_cons_self rfl (by decide)) single
      (by simp [String.toList_append]) solid line lone
  · exact lone_of_inline opened (built.solid (List.Subset.refl _)) built.single lone

/-- Behind a comma that is not the first on its line. -/
theorem lone_of_comma {comma place : Nat} {indent : String}
    (blank : ∀ c ∈ indent.toList, c = ' ' ∨ c = '\t') (built : Built token)
    (char : (Source.ofText text).charAt? comma = some ',')
    (led : ¬FirstOnLine (Source.ofText text) comma)
    (order : comma < place) (between : Between text.toList place)
    (line : ∀ position, comma ≤ position → position < place →
      (Source.ofText text).charAt? position ≠ some '\n')
    (lone : HasLoneComma (applyEdits text
      [⟨place, "\n" ++ indent ++ token ++ ","⟩]).toList) :
    HasLoneComma text.toList := by
  simp only [FirstOnLine, not_forall] at led
  obtain ⟨earlier, upper, c, first, visible, same⟩ := led
  obtain ⟨before, middle, after, parts, start, stop, single⟩ := line_stretch first
    (upper.trans order) between fun position lower inside lineBreak => by
      rcases Nat.lt_or_ge position comma with ahead | behind
      · exact same (Source.spansLines_of_charAt lower ahead lineBreak)
      · exact line position behind inside lineBreak
  have solid : Solid (c :: middle) := by
    by_cases double : c = ','
    · subst double
      have whole : text.toList = (before ++ [',']) ++ middle ++ after := by
        simp [parts]
      refine solid_of_cons rfl (mem_of_charAt whole char ?_ ?_) rfl
      · rw [Source.byteLength_append, start]
        exact upper
      · rw [List.append_assoc, List.singleton_append, stop]
        exact order
    · exact solid_of_mem List.mem_cons_self visible double
  obtain ⟨solid', line'⟩ := element_line (Or.inr rfl) blank built
  rw [← stop] at lone
  exact lone_of_newLine parts solid single (by simp [String.toList_append]) solid' line'
    lone

/-- In front of the bracket no comma is alone on its line if none trails the last
element. -/
theorem not_lone_at_end (pair : IsPair (Source.ofText text) .square brackets)
    (element : LastElement (Source.ofText text) brackets last)
    (none : trailingComma? (Source.ofText text) brackets last = none)
    {front ends after : List Char} (parts : text.toList = front ++ ends ++ after)
    (lower : last.stop ≤ byteLength front)
    (upper : byteLength (front ++ ends) = brackets.stop) (single : '\n' ∉ ends) :
    ¬LoneComma ends := by
  intro lone
  obtain ⟨trailing, least, most, significant⟩ :=
    lone_significant parts upper lone single pair.closes (by decide)
  rw [element.clear_of_none none trailing (Nat.le_trans lower least) most] at significant
  cases significant

/-- The text around the last element and the place for a new line behind it. -/
theorem element_parts (pair : IsPair (Source.ofText text) .square brackets)
    (element : LastElement (Source.ofText text) brackets last)
    (stop : Between text.toList last.stop) :
    ∃ before c middle after, text.toList = before ++ [c] ++ middle ++ after ∧
      isSpace c = false ∧ byteLength (before ++ [c]) = last.stop ∧
      byteLength (before ++ [c] ++ middle) =
        lineInsertPoint (Source.ofText text) (last.stop - 1) brackets.stop := by
  have order := element.order
  have upper := element.upper
  have back : Between text.toList (last.stop - 1 + 1) := by
    rwa [Nat.sub_add_cancel (by omega)]
  obtain ⟨behind, -⟩ := lineInsertPoint_spec
    (by omega : last.stop - 1 < brackets.stop) (Source.lt_size_of_codeAt pair.closes)
    element.significant
  obtain ⟨first, rest, parts, place⟩ := stop
  obtain ⟨front, after, parts', place'⟩ :=
    lineInsertPoint_between back (closing_between pair)
  obtain ⟨middle, rfl, rfl⟩ := prefix_of_byteLength (parts.symm.trans parts')
    (by omega)
  obtain ⟨before, c, rfl, visible⟩ := visible_before element.significant (by omega)
    parts place
  exact ⟨before, c, middle, after, parts', visible, place, place'⟩

/-- Behind an element without a comma. -/
theorem lone_of_element (pair : IsPair (Source.ofText text) .square brackets)
    (element : LastElement (Source.ofText text) brackets last)
    (stop : Between text.toList last.stop)
    (none : trailingComma? (Source.ofText text) brackets last = none)
    (built : Built token) {indent : String}
    (blank : ∀ c ∈ indent.toList, c = ' ' ∨ c = '\t')
    (lone : HasLoneComma (applyEdits text [⟨last.stop, ","⟩,
      ⟨lineInsertPoint (Source.ofText text) (last.stop - 1) brackets.stop,
        "\n" ++ indent ++ token⟩]).toList) :
    HasLoneComma text.toList := by
  obtain ⟨before, c, middle, after, parts, visible, place, place'⟩ :=
    element_parts pair element stop
  obtain ⟨solid, line⟩ := element_line (Or.inl rfl) blank built
  have unbroken : '\n' ≠ c := by
    rintro rfl
    cases visible
  have pairSolid : Solid [c, ','] := solid_of_cons visible List.mem_cons_self rfl
  have order : last.stop ≤
      lineInsertPoint (Source.ofText text) (last.stop - 1) brackets.stop := by
    rw [← place', Source.byteLength_append (before ++ [c]), place]
    exact Nat.le_add_right _ _
  have comma : (",".toList) = [','] := rfl
  have shape : before ++ [c] ++ ',' :: middle ++ ("\n" ++ indent ++ token).toList ++
      after = before ++ ([c, ','] ++ middle) ++
        '\n' :: ((indent.toList ++ token.toList ++ []) ++ after) := by
    simp [String.toList_append]
  rw [applyEdits_two order, ← place', ← place] at lone
  simp only [comma] at lone
  rw [insertAt_twice parts, String.toList_ofList, shape] at lone
  have whole : text.toList = before ++ (c :: middle) ++ after := by simp [parts]
  rw [whole]
  by_cases broken : '\n' ∈ middle
  · -- the last character takes several positions, so the new line is at the bracket
    obtain ⟨position, lower, upper, lineBreak⟩ := charAt_of_mem parts broken
    have limit := lineInsertPoint_of_break element.significant
      (Nat.le_of_lt (Source.lt_size_of_codeAt pair.closes)) (by omega) (place' ▸ upper)
      lineBreak
    obtain ⟨lines, ends, rfl, single⟩ :=
      (lastLine_cases middle).resolve_left fun plain => plain broken
    rcases hasLoneComma_break.mp lone with early | late
    · have split : before ++ ([c, ','] ++ (lines ++ '\n' :: ends)) =
          before ++ [c, ','] ++ lines ++ '\n' :: ends := by simp
      rw [split, hasLoneComma_break, hasLoneComma_line single] at early
      have old := hasLoneComma_other pairSolid (by simp [unbroken])
        (early.resolve_right (@not_lone_at_end _ _ _ pair element none
          (before ++ [c] ++ lines ++ ['\n']) ends after (by simp [parts])
          (by simp only [← place, Source.byteLength_append]; omega)
          (by rw [← limit, ← place']; simp) single)) [c]
      have whole' : before ++ c :: (lines ++ '\n' :: ends) ++ after =
          before ++ [c] ++ lines ++ '\n' :: (ends ++ after) := by simp
      rw [whole']
      exact hasLoneComma_break.mpr (Or.inl old)
    · exact @hasLoneComma_other [] _ after solid line late (before ++ _)
  · exact hasLoneComma_newLine (pairSolid.append middle) (by simp [broken, unbroken])
      solid line lone _

end

/-! ### Arrays -/

section

variable {text token : String} {brackets last : Span} {comma : Nat}

/-- Adding an element leaves no comma alone on its line, unless the array has a trailing
comma that is the first on its line. -/
theorem lone_of_arrayInsertion (pair : IsPair (Source.ofText text) .square brackets)
    (built : Built token)
    (led : ∀ last comma,
      ((Source.ofText text).elements brackets).getLast? = some last →
      trailingComma? (Source.ofText text) brackets last = some comma →
      ¬FirstOnLine (Source.ofText text) comma)
    (lone : HasLoneComma
      (applyEdits text (arrayInsertion (Source.ofText text) brackets token)).toList) :
    HasLoneComma text.toList := by
  rw [arrayInsertion] at lone
  cases found : ((Source.ofText text).elements brackets).getLast? with
  | none =>
      rw [found] at lone
      exact lone_of_empty pair built lone
  | some last =>
      have element := lastElement_of_getLast pair.matched found
      obtain ⟨-, stop⟩ : _ ∧ _ := by
        simpa [rangeEnds] using element_between pair (List.mem_of_getLast? found)
      have blank := lineIndent_blank (Source.ofText text) last.start
      rw [found] at lone
      simp only [appendInsertion] at lone
      split at lone <;> split at lone
      · rename_i comma trailing
        obtain ⟨-, below, code, -⟩ := element.comma_of_some trailing
        have char := Source.charAt_of_codeAt code
        obtain ⟨behind, -⟩ := lineInsertPoint_spec below
          (Source.lt_size_of_codeAt pair.closes)
          (Source.isSignificant_of_codeAt code rfl)
        exact lone_of_comma blank built char (led last comma found trailing) behind
          (lineInsertPoint_between (comma_between char) (closing_between pair))
          (fun position => lineInsertPoint_line char (by decide)) lone
      · rename_i trailing
        exact lone_of_element pair element stop trailing built blank lone
      · rename_i comma trailing
        obtain ⟨-, -, code, -⟩ := element.comma_of_some trailing
        obtain ⟨solid, line⟩ :=
          @element_line token [' '] [','] (Or.inr rfl) (by simp) built
        refine lone_of_inline (comma_between (Source.charAt_of_codeAt code)) ?_ ?_ lone
        · simpa [String.toList_append] using solid
        · simpa [String.toList_append] using line
      · refine lone_of_inline stop (built.solid ?_) ?_ lone
        · exact fun c member => by simp [String.toList_append, member]
        · simpa [String.toList_append] using built.single

/-- Before the first position on its line there are only blanks. -/
theorem blank_of_first {front line rest : List Char}
    (parts : text.toList = front ++ line ++ ',' :: rest) (single : '\n' ∉ line)
    (first : FirstOnLine (Source.ofText text) (byteLength (front ++ line))) :
    ∀ c ∈ line, isSpace c := by
  intro c member
  obtain ⟨position, lower, upper, char⟩ := charAt_of_mem parts member
  cases space : isSpace c with
  | true => rfl
  | false =>
      have lines := first position upper c char space
      rw [Source.spansLines, List.any_eq_true] at lines
      obtain ⟨later, between, lineBreak⟩ := lines
      obtain ⟨least, most⟩ := Source.mem_positions.mp between
      exact absurd (mem_of_charAt parts (by simpa using lineBreak) (by omega)
        (by omega)) single

/-- A trailing comma that is the first on its line is left alone if a new line starts
behind nothing but blanks. -/
theorem arrayInsertion_lone (pair : IsPair (Source.ofText text) .square brackets)
    (found : ((Source.ofText text).elements brackets).getLast? = some last)
    (trailing : trailingComma? (Source.ofText text) brackets last = some comma)
    (first : FirstOnLine (Source.ofText text) comma)
    (lines : (Source.ofText text).spansLines last.stop brackets.stop)
    (blank : ∀ position, comma < position →
      position < lineInsertPoint (Source.ofText text) comma brackets.stop →
      ∀ c ∈ (Source.ofText text).charAt? position, isSpace c) (token : String) :
    HasLoneComma
      (applyEdits text (arrayInsertion (Source.ofText text) brackets token)).toList := by
  have element := lastElement_of_getLast pair.matched found
  obtain ⟨-, below, code, -⟩ := element.comma_of_some trailing
  have char := Source.charAt_of_codeAt code
  obtain ⟨behind, -⟩ := lineInsertPoint_spec below
    (Source.lt_size_of_codeAt pair.closes) (Source.isSignificant_of_codeAt code rfl)
  obtain ⟨before, middle, after, parts, rfl, stop, single⟩ := line_stretch char behind
    (lineInsertPoint_between (comma_between char) (closing_between pair))
    fun position => lineInsertPoint_line char (by decide)
  have late : ∀ c ∈ middle, isSpace c := by
    intro c member
    have whole : text.toList = (before ++ [',']) ++ middle ++ after := by simp [parts]
    obtain ⟨position, lower, upper, here⟩ := charAt_of_mem whole member
    rw [Source.byteLength_append] at lower
    rw [List.append_assoc, List.singleton_append, stop] at upper
    exact blank position lower upper c here
  rw [arrayInsertion, found]
  simp only [appendInsertion, lines, if_true, trailing]
  rw [← stop, applyEdits_one, String.toList_ofList, parts, insertAt_append]
  simp only [String.toList_append]
  rw [List.append_assoc]
  apply hasLoneComma_break.mpr
  left
  rcases lastLine_cases before with plain | ⟨front, line, rfl, plain⟩
  · have early := @blank_of_first text [] before (middle ++ after) (by simp [parts]) plain
      first
    rw [hasLoneComma_line (List.not_mem_append plain single)]
    exact loneComma_of_blank early late
  · have early := @blank_of_first text (front ++ ['\n']) line (middle ++ after)
      (by simp [parts]) plain (by simpa using first)
    rw [List.append_assoc, List.cons_append]
    apply hasLoneComma_break.mpr
    right
    rw [hasLoneComma_line (List.not_mem_append plain single)]
    exact loneComma_of_blank early late

/-- The bracket behind such a comma goes to the next line. -/
example : HasLoneComma (applyEdits "[\n  \"A\"\n  , ]"
      (arrayInsertion (Source.ofText "[\n  \"A\"\n  , ]") ⟨0, 12⟩ (quote "B"))).toList ∧
    ¬HasLoneComma "[\n  \"A\"\n  , ]".toList := by
  decide +kernel

end

end PackageLayers.Manifest

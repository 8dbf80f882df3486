/-
Purpose: The places where a target gets its first dependency.
Main exports: beside_gap, line_gap, argument_gains
-/
import PackageLayers.Proofs.Manifest.FirstDependency
import PackageLayers.Proofs.Source.Boundaries

namespace PackageLayers.Manifest

open Source (Span Insertion Matched Cut Mode isMark isSpace depthThrough Marked
  byteLength)

/-!
A new argument stands right behind the literal of the name, or on a line of its
own behind the comma that follows the name.
-/

/-! ### Behind the name -/

section

variable {text : String} {block : Block}

/-- The literal of a target's name ends inside of its call. -/
theorem name_ends (closed : Source.AllClosed (Source.ofText text))
    (member : block ∈ blocksOf (Source.ofText text)) :
    ∃ literal ∈ (Source.ofText text).literals,
      block.nameLiteral.stop = literal.stop ∧
      block.parens.start < literal.start ∧ literal.start < literal.stop ∧
      literal.stop ≤ block.parens.stop ∧
      depthThrough 0 (Marked.chars ((Source.ofText text).codeChars
        (block.parens.start + 1) literal.stop)) = 0 := by
  have written := written_of_mem member
  have regular := Source.regular_ofText closed
  obtain ⟨quoted, found, -, range⟩ := written.name
  obtain ⟨value, -, literal, known, start, stop⟩ := literal_of_labelLiteral found
  rw [← start] at value
  obtain ⟨lower, upper, level⟩ := level_of_value regular (by decide) value
  have order := (regular.bounds literal known).1
  refine ⟨literal, known, by rw [range, stop], lower, order, ?_, ?_⟩
  · by_contra beyond
    obtain ⟨kind, left, right, -, code, -⟩ := written.matched.kinds
    rw [Source.codeAt_none_of_literal known (Nat.le_of_lt upper)
      (Nat.lt_of_not_le beyond)] at code
    cases code
  · refine Source.level_extend lower (Nat.le_of_lt order) level ?_
    intro position c above below code
    rw [Source.codeAt_none_of_literal known above below] at code
    cases code

/-- Right behind the name there is a place for an argument. -/
theorem beside_gap (closed : Source.AllClosed (Source.ofText text))
    (member : block ∈ blocksOf (Source.ofText text)) :
    Gap (Source.ofText text) block.parens (block.nameLiteral.stop - 1)
      block.nameLiteral.stop := by
  obtain ⟨literal, known, stop, lower, order, upper, level⟩ :=
    name_ends closed member
  obtain ⟨c, here, mark⟩ :=
    (Source.regular_ofText closed).literalStop literal known
  have char : (Source.ofText text).charAt? (literal.stop - 1) = some c := by
    rw [Source.charAt?, here]
    rfl
  rw [stop]
  refine
    { matched := (written_of_mem member).matched
      opens := (written_of_mem member).opens
      lower := by omega
      upper := upper
      level := level
      before := by omega
      significant := ?_
      char := ⟨c, char, Or.inl mark⟩
      clear := fun position above below => by omega
      apart := ?_ }
  · simp [isSignificant_eq, here, isVisible, Source.isSpace_of_isMark mark]
  · rintro ⟨left, right, -, front, -, joins⟩
    rw [char, Option.some.injEq] at front
    rw [← front, (calm_of_mark (Or.inl mark)).2.2] at joins
    cases joins

/-! ### On a line of its own -/

/-- A place for a new line does not lie behind what stands on a later line. -/
theorem lineInsertPoint_le {source : Source} {anchor limit next : Nat} {c : Char}
    (char : source.charAt? anchor = some c) (order : anchor < next)
    (lines : source.spansLines anchor next) :
    lineInsertPoint source anchor limit ≤ next := by
  rw [Source.spansLines, List.any_eq_true] at lines
  obtain ⟨other, member, lineBreak⟩ := lines
  obtain ⟨above, below⟩ := Source.mem_positions.mp member
  have stop : source.lineEnd anchor ≤ other := by
    have boundary : source.isBoundary anchor := by
      simp [Source.isBoundary, char]
    rw [Source.lineEnd, if_pos boundary]
    cases found : (Source.positions anchor source.size).find? fun later =>
        source.charAt? later == some '\n' with
    | none =>
        rw [List.find?_eq_none] at found
        exact absurd lineBreak
          (found other (Source.mem_positions.mpr ⟨above, by omega⟩))
    | some first =>
        obtain ⟨-, -, -, clear⟩ := Source.find_positions.mp found
        by_contra beyond
        rw [clear other above (by simpa using beyond)] at lineBreak
        cases lineBreak
  rw [lineInsertPoint]
  split <;> omega

/-- What follows the name if the argument goes on a line of its own: a comma, and
something on a later line. -/
structure NextLine (source : Source) (block : Block) (comma next : Nat) :
    Prop where
  behind : source.nextSignificant? block.nameLiteral.stop block.parens.stop =
    some comma
  later : source.nextSignificant? (comma + 1) block.parens.stop = some next
  char : source.charAt? comma = some ','
  lines : source.spansLines comma next

/-- The comma behind the name is code. -/
theorem NextLine.comma_code (closed : Source.AllClosed (Source.ofText text))
    (member : block ∈ blocksOf (Source.ofText text)) {comma next : Nat}
    (line : NextLine (Source.ofText text) block comma next) :
    (Source.ofText text).codeAt? comma = some ',' := by
  obtain ⟨literal, known, stop, -⟩ := name_ends closed member
  obtain ⟨before, after, cut⟩ :=
    Source.cut_after_literal known (closed literal known)
  have behind := line.behind
  rw [stop] at behind
  exact cut.code_next closed behind line.char (by decide)

/-- On a line of its own behind the comma there is a place for an argument. -/
theorem line_gap (closed : Source.AllClosed (Source.ofText text))
    (member : block ∈ blocksOf (Source.ofText text)) {comma next : Nat}
    (line : NextLine (Source.ofText text) block comma next) :
    Gap (Source.ofText text) block.parens comma
        (lineInsertPoint (Source.ofText text) comma block.parens.stop) ∧
      (lineInsertPoint (Source.ofText text) comma block.parens.stop =
          comma + 1 ∨
        ∃ c, (Source.ofText text).codeAt? (lineInsertPoint (Source.ofText text)
          comma block.parens.stop) = some c) := by
  obtain ⟨literal, known, stop, lower, order, upper, level⟩ :=
    name_ends closed member
  have written := written_of_mem member
  have code := line.comma_code closed member
  obtain ⟨closing, side, ending, closes⟩ := closing_of_matched written.matched
  obtain ⟨above, below, visible, clear⟩ :=
    Source.next_eq_some_iff.mp line.behind
  obtain ⟨after, inside, -, clear'⟩ := Source.next_eq_some_iff.mp line.later
  rw [stop] at above clear
  obtain ⟨behind, within, kinds⟩ := lineInsertPoint_spec below
    (Source.lt_size_of_codeAt ending) visible
  have early := @lineInsertPoint_le _ comma block.parens.stop next _ line.char
    after line.lines
  refine ⟨
    { matched := written.matched
      opens := written.opens
      lower := by omega
      upper := within
      level := ?_
      before := behind
      significant := visible
      char := ⟨',', line.char, Or.inr rfl⟩
      clear := fun position first last => clear' position first (by omega)
      apart := ?_ }, ?_⟩
  · refine Source.level_extend (by omega) (by omega) level ?_
    intro position c first last here
    rcases Nat.lt_trichotomy position comma with before | rfl | later
    · exact Source.no_bracket_of_hidden here (clear position first before)
    · rw [code, Option.some.injEq] at here
      rw [← here]
      rfl
    · exact Source.no_bracket_of_hidden here (clear' position later (by omega))
  · rintro ⟨left, right, -, front, here, joins⟩
    rcases kinds with following | limit | lineBreak
    · rw [following, Nat.add_sub_cancel, line.char, Option.some.injEq] at front
      rw [← front, (calm_of_mark (Or.inr rfl)).2.2] at joins
      cases joins
    · have calm := closing_calm closes
      rw [limit, Source.charAt_of_codeAt ending, Option.some.injEq] at here
      subst here
      simp [Source.joins, calm] at joins
    · rw [Source.charAt_of_codeAt lineBreak, Option.some.injEq] at here
      subst here
      simp [Source.joins, Source.isNameChar] at joins
  · rcases kinds with following | limit | lineBreak
    · exact Or.inl following
    · exact Or.inr ⟨closing, limit.symm ▸ ending⟩
    · exact Or.inr ⟨_, lineBreak⟩

/-! ### The first dependency -/

/-- The text of an argument with one entry. -/
theorem arrayArgument_chars {token : Token} {written : String}
    (same : written.toList = token.chars) :
    ("dependencies: [" ++ written ++ "]").toList =
      argumentOpening ++ (token.chars ++ [']']) := by
  have closes : "]".toList = [']'] := by decide
  rw [String.toList_append, String.toList_append, same, List.append_assoc]
  exact congrArg (fun rest => argumentOpening ++ (token.chars ++ rest)) closes

/-- An argument right behind the name. -/
theorem beside_gains {token : Token} {dependency : Dependency}
    (writes : Writes token dependency)
    (closed : Source.AllClosed (Source.ofText text))
    (member : block ∈ blocksOf (Source.ofText text))
    (argument : block.argument = .absent) {written : String}
    (same : written.toList = token.chars) :
    Gains text (applyEdits text [⟨block.nameLiteral.stop,
      ", " ++ ("dependencies: [" ++ written ++ "]")⟩]) block [dependency] := by
  obtain ⟨literal, known, stop, lower, order, upper, level⟩ :=
    name_ends closed member
  have gap := beside_gap closed member
  obtain ⟨before, after, cut⟩ :=
    Source.cut_after_literal known (closed literal known)
  rw [← stop] at cut
  obtain ⟨closing, side, ending, -⟩ :=
    closing_of_matched (written_of_mem member).matched
  have within := Source.lt_size_of_codeAt ending
  have margins : Margins [',', ' '] [] [] :=
    { lead := fun c here => by
        simp only [List.mem_cons, List.not_mem_nil, or_false] at here
        exact here.imp_right Or.inl
      inner := List.forall_mem_nil _
      tail := List.forall_mem_nil _ }
  have site : Site text (argumentFragment [',', ' '] [] [])
      block.nameLiteral.stop before after .code :=
    { closed := closed
      fit := margins.fit
      cut := cut
      calm := Or.inl rfl
      starts := cut.pos_iff.mp (by omega)
      ends := cut.lt_size_iff.mp (by omega)
      leads := fun left _ _ first =>
        (margins.leads (List.cons_ne_nil _ _)).apart margins.good first left
      apartBefore := by
        intro left _ right first
        cases first
        simp [Source.clashes]
      apartAfter := argument_apart margins.tail after }
  have gains := gap.gains_entry writes margins (List.cons_ne_nil _ _) site member
    argument
  have text_eq : (", " ++ ("dependencies: [" ++ written ++ "]")).toList =
      [',', ' '] ++ argumentOpening ++ token.chars ++ [']'] := by
    have gap : ", ".toList = [',', ' '] := by decide
    rw [String.toList_append, gap, arrayArgument_chars same, List.append_assoc,
      List.append_assoc]
  rw [applyEdits_one, insertAt_cut cut, text_eq]
  exact gains

/-- An argument on a line of its own. -/
theorem line_gains {token : Token} {dependency : Dependency}
    (writes : Writes token dependency)
    (closed : Source.AllClosed (Source.ofText text))
    (member : block ∈ blocksOf (Source.ofText text))
    (argument : block.argument = .absent) {comma next : Nat}
    (line : NextLine (Source.ofText text) block comma next) {written : String}
    (same : written.toList = token.chars) :
    Gains text (applyEdits text
      [⟨lineInsertPoint (Source.ofText text) comma block.parens.stop,
        "\n" ++ (Source.ofText text).lineIndent next ++
          ("dependencies: [" ++ written ++ "]") ++ ","⟩]) block [dependency] := by
  obtain ⟨gap, kinds⟩ := line_gap closed member line
  have code := line.comma_code closed member
  obtain ⟨closing, side, ending, -⟩ :=
    closing_of_matched (written_of_mem member).matched
  have within := Source.lt_size_of_codeAt ending
  have upper := gap.upper
  have blank := lineOf_blank (lineIndent_blank (Source.ofText text) next)
  have margins : Margins (lineOf ((Source.ofText text).lineIndent next)) []
      [','] :=
    { lead := IsBlank.gap blank
      inner := List.forall_mem_nil _
      tail := IsTail.gap (Or.inr rfl) }
  have filled : lineOf ((Source.ofText text).lineIndent next) ≠ [] :=
    List.cons_ne_nil _ _
  obtain ⟨before, after, middle, spot⟩ := spot_of_place
    (fun literal known _ _ => closed literal known) margins.fit
    (Nat.zero_lt_of_lt gap.before) (by omega)
    (fun {_ after _} _ _ => argument_apart margins.tail after)
    (kinds.imp (fun following => ⟨comma, ',', following, code, by decide⟩)
      fun here => ⟨rfl, here⟩)
  have site := spot.site closed (margins.leads filled)
  have gains := gap.gains_entry writes margins filled site member argument
  have text_eq : ("\n" ++ (Source.ofText text).lineIndent next ++
      ("dependencies: [" ++ written ++ "]") ++ ",").toList =
      lineOf ((Source.ofText text).lineIndent next) ++ argumentOpening ++
        token.chars ++ [']', ','] := by
    have lineBreak : "\n".toList = ['\n'] := by decide
    have comma : ",".toList = [','] := by decide
    rw [String.toList_append, String.toList_append, String.toList_append,
      lineBreak, comma, arrayArgument_chars same, lineOf]
    simp only [List.append_assoc, List.cons_append, List.nil_append]
  rw [applyEdits_one, insertAt_cut site.cut, text_eq]
  exact gains

/-- A target without the argument gets it, with one entry. -/
theorem argument_gains {token : Token} {dependency : Dependency}
    (writes : Writes token dependency)
    (closed : Source.AllClosed (Source.ofText text))
    (member : block ∈ blocksOf (Source.ofText text))
    (argument : block.argument = .absent) {written : String}
    (same : written.toList = token.chars) :
    Gains text (applyEdits text
      (argumentInsertion (Source.ofText text) block written)) block
        [dependency] := by
  have beside := beside_gains writes closed member argument same
  rw [argumentInsertion]
  cases behind : (Source.ofText text).nextSignificant? block.nameLiteral.stop
      block.parens.stop with
  | none => exact beside
  | some comma =>
      cases later : (Source.ofText text).nextSignificant? (comma + 1)
          block.parens.stop with
      | none =>
          simp only [later]
          exact beside
      | some next =>
          simp only [later]
          split
          · rename_i known
            exact line_gains writes closed member argument
              ⟨behind, later, known.1, known.2⟩ same
          · exact beside

end

end PackageLayers.Manifest

/-
Purpose: What adding an element to the dependencies of a target does.
Main exports: Writes, Gains, Extends, extends_array, Appends, appends_array
-/
import PackageLayers.Proofs.Manifest.Commas

namespace PackageLayers.Manifest

open Source (Span Insertion Matched OnlyCommas Cut Mode byteLength isSpace)

/-!
Whatever the style of an array is, the edits put one element at its end.  The
targets are then read as before, but for the one more dependency.
-/

/-! ### Edits -/

theorem insertAt_append (inserted before after : List Char) :
    insertAt inserted (byteLength before) (before ++ after) =
      before ++ inserted ++ after := by
  induction before with
  | nil => cases after <;> rfl
  | cons c before inductionHypothesis =>
      obtain ⟨width, size⟩ := Nat.exists_eq_succ_of_ne_zero
        (Nat.ne_of_gt (Source.utf8Size_pos c))
      have position : byteLength (c :: before) =
          (width + byteLength before) + 1 := by
        rw [byteLength, size]
        omega
      have rest : width + byteLength before + 1 - c.utf8Size =
          byteLength before := by
        rw [size]
        omega
      rw [position, List.cons_append, insertAt, rest, inductionHypothesis]
      rfl

theorem applyEdits_one (text : String) (edit : Edit) :
    applyEdits text [edit] =
      String.ofList (insertAt edit.text.toList edit.position text.toList) := rfl

theorem applyEdits_two {text : String} {first second : Edit}
    (order : first.position ≤ second.position) :
    applyEdits text [first, second] =
      String.ofList (insertAt first.text.toList first.position
        (insertAt second.text.toList second.position text.toList)) := by
  have work : inOrderOfWork [first, second] = [second, first] := by
    simp [inOrderOfWork, sortBy, insertBy, order]
  rw [applyEdits, work]
  rfl

/-- A text with something put between two parts of it. -/
theorem insertAt_cut {text : String} {place : Nat} {before after : List Char}
    {middle : Mode} (cut : Cut text.toList place before after middle)
    (inserted : List Char) :
    insertAt inserted place text.toList = before ++ inserted ++ after := by
  rw [cut.parts, ← cut.place, insertAt_append]

/-- A comma at one place and something at a later one. -/
theorem insertAt_twice {text : String} {first middle behind inserted : List Char}
    (parts : text.toList = first ++ middle ++ behind) :
    insertAt [','] (byteLength first)
        (insertAt inserted (byteLength (first ++ middle)) text.toList) =
      first ++ ',' :: middle ++ inserted ++ behind := by
  rw [parts, insertAt_append, List.append_assoc, List.append_assoc,
    insertAt_append]
  simp only [List.append_assoc, List.cons_append, List.nil_append]

/-- The longer of two beginnings of a text contains the shorter one. -/
theorem prefix_of_byteLength {first rest longer after : List Char}
    (same : first ++ rest = longer ++ after)
    (order : byteLength first ≤ byteLength longer) :
    ∃ middle, longer = first ++ middle ∧ rest = middle ++ after := by
  rcases List.append_eq_append_iff.mp same with
    ⟨middle, rfl, rfl⟩ | ⟨extra, rfl, rfl⟩
  · exact ⟨middle, rfl, rfl⟩
  · cases extra with
    | nil => exact ⟨[], by simp, by simp⟩
    | cons c extra =>
        rw [Source.byteLength_append, byteLength] at order
        have width := Source.utf8Size_pos c
        omega

/-- A text is cut at a place in one way. -/
theorem parts_of_byteLength {first rest front after : List Char}
    (same : first ++ rest = front ++ after)
    (place : byteLength first = byteLength front) :
    first = front ∧ rest = after := by
  obtain ⟨middle, rfl, rfl⟩ := prefix_of_byteLength same (Nat.le_of_eq place)
  have empty : middle = [] := by
    by_contra filled
    have width := Source.byteLength_pos filled
    rw [Source.byteLength_append] at place
    omega
  subst empty
  exact ⟨(List.append_nil first).symm, rfl⟩

/-! ### One more dependency -/

/-- Whether a token, written as an element of an array, is read as a dependency
and as nothing else. -/
structure Writes (token : Token) (dependency : Dependency) : Prop where
  good : token.Good
  calls : ∀ name ∈ soughtCalls, token.Lacks ("." ++ name).toList
  declares : token.Lacks ".package".toList
  package : token.Lacks "Package".toList
  reads : ∀ {text : String} {blank tail : List Char} {place : Nat}
    {before after : List Char} {middle : Mode}
    (site : Site text (token.fragment blank tail) place before after middle),
    site.insertion.Seam → IsBlank blank → IsTail tail →
      dependencyIn? site.insertion.result
        ⟨place + blank.length, place + (blank.length + token.cells.length)⟩ =
          some dependency

/-- The name of a target is read as that target. -/
theorem writes_bare (value : String) : Writes (Token.bare value) (.bare value) where
  good := bare_good value
  calls := fun _ sought =>
    bare_lacks value (Source.Words.filled (isWord_of_sought sought))
  declares := bare_lacks value (by decide)
  package := bare_lacks value (by decide)
  reads := fun site seam _ _ => bare_dependency site seam _

/-- Whether a text declares what another one does, with one more dependency of a
target. -/
structure Gains (text text' : String) (block : Block) (added : List Dependency) :
    Prop where
  closed : Source.AllClosed (Source.ofText text')
  unmoved : Unmoved (Outline.ofText text).package (Outline.ofText text').package
  targets : (Outline.ofText text').package.targets =
    (blocksOf (Source.ofText text)).map (grownAt block.parens.start added)

theorem Unmoved.trans {first second third : Package}
    (before : Unmoved first second) (after : Unmoved second third) :
    Unmoved first third where
  name := after.name.trans before.name
  products := after.products.trans before.products
  declarations := after.declarations.trans before.declarations

section

variable {text : String} {brackets : Span} {block : Block}

/-- An insertion that only adds entries to an array adds dependencies to its
target. -/
theorem Home.gains {fragment : Fragment} {place : Nat}
    {before after : List Char} {middle : Mode}
    (site : Site text fragment place before after middle)
    (home : Home site.insertion block brackets) (silent : fragment.Silent)
    {more : List Entry}
    (entries : Quiet site.insertion →
      entriesIn site.insertion.result (site.insertion.pair brackets) =
        entriesIn site.insertion.source brackets ++ more) :
    Gains text (joined before fragment after) block
      (more.filterMap Entry.dependency) := by
  have good := site.fit.good
  have quiet := home.lodge.quiet
    (fun name sought => (silent.calls name sought).occurrences good
      (isWord_of_sought sought))
    (silent.package.occurrences good (by decide))
  refine
    { closed := site.closed_result
      unmoved := ?_
      targets := ?_ }
  · have unmoved := package_shift quiet
      (silent.declares.occurrences good (by decide))
    rw [site.result_eq] at unmoved
    exact unmoved
  · rw [Outline.ofText, ofSource_targets, ← site.result_eq, blocks_shift quiet,
      List.map_map]
    exact List.map_congr_left fun other member =>
      home.moved_target quiet (entries quiet) member

/-- A new element in a slot is one more dependency. -/
theorem Slot.gains {token : Token} {dependency : Dependency}
    (writes : Writes token dependency) {blank tail : List Char}
    {previous place : Nat} {before after : List Char} {middle : Mode}
    (slot : Slot (Source.ofText text) brackets blank previous place)
    (site : Site text (token.fragment blank tail) place before after middle)
    (isBlank : IsBlank blank) (isTail : IsTail tail)
    (member : block ∈ blocksOf (Source.ofText text))
    (argument : block.argument = .array brackets) :
    Gains text (joined before (token.fragment blank tail) after) block
      [dependency] := by
  have home := slot.home site member argument
  have reads := writes.reads site home.seam isBlank isTail
  have silent : (token.fragment blank tail).Silent :=
    { calls := fun name sought => (writes.calls name sought).fragment
        (isWord_of_sought sought) isBlank isTail
      declares := writes.declares.fragment (by decide) isBlank isTail
      package := writes.package.fragment (by decide) isBlank isTail }
  have gains := home.gains site silent fun quiet =>
    home.entries_item quiet (Token.isItem writes.good isBlank isTail) slot.least
      slot.before slot.cut slot.clear
  have found : site.insertion.place = place := rfl
  simp only [found, reads, List.filterMap_cons, List.filterMap_nil] at gains
  exact gains

/-- A comma behind the last element is no dependency. -/
theorem comma_gains {last : Span} {before after : List Char} {middle : Mode}
    (element : LastElement (Source.ofText text) brackets last)
    (none : trailingComma? (Source.ofText text) brackets last = none)
    (site : Site text commaFragment last.stop before after middle)
    (member : block ∈ blocksOf (Source.ofText text))
    (argument : block.argument = .array brackets) :
    Gains text (joined before commaFragment after) block [] := by
  have home := comma_home element none site member argument
  have gains := @Home.gains text brackets block _ _ _ _ _ site home
    commaFragment_silent [] fun quiet => by
      rw [List.append_nil]
      exact home.entries_commas quiet commaFragment_onlyCommas
  exact gains

end

/-! ### Styles -/

theorem lineIndent_blank (source : Source) (position : Nat) :
    ∀ c ∈ (source.lineIndent position).toList, c = ' ' ∨ c = '\t' := by
  intro c member
  rw [Source.lineIndent, String.toList_ofList] at member
  have indent := List.mem_takeWhile_imp member
  simpa [Source.isIndent] using indent

theorem indentInside_blank {outer : String}
    (blank : ∀ c ∈ outer.toList, c = ' ' ∨ c = '\t') :
    ∀ c ∈ (indentInside outer).toList, c = ' ' ∨ c = '\t' := by
  intro c member
  rw [indentInside] at member
  split at member <;>
    (rw [String.toList_append, List.mem_append] at member
     rcases member with early | late
     · exact blank c early
     · revert late
       simp +contextual)

/-- A new line with its indentation. -/
def lineOf (indent : String) : List Char := '\n' :: indent.toList

theorem lineOf_blank {indent : String}
    (blank : ∀ c ∈ indent.toList, c = ' ' ∨ c = '\t') : IsBlank (lineOf indent) := by
  intro c member
  rcases List.mem_cons.mp member with rfl | inside
  · exact Or.inr (Or.inr rfl)
  · rcases blank c inside with rfl | rfl
    · exact Or.inl rfl
    · exact Or.inr (Or.inl rfl)

section

variable {source : Source} {brackets : Span}

/-- A line ends at its line break, or with the text. -/
theorem lineEnd_cases (source : Source) (position : Nat) :
    source.lineEnd position = source.size ∨ position ≤ source.lineEnd position ∧
      source.charAt? (source.lineEnd position) = some '\n' := by
  rw [Source.lineEnd]
  split
  · cases found : (Source.positions position source.size).find? fun later =>
        source.charAt? later == some '\n' with
    | none => exact Or.inl rfl
    | some stop =>
        obtain ⟨lower, -, char, -⟩ := Source.find_positions.mp found
        exact Or.inr ⟨lower, by simpa using char⟩
  · exact Or.inl rfl

/-- The place for a new line stands behind its anchor: right behind it, at the end
of its line, or at the limit. -/
theorem lineInsertPoint_spec {anchor limit : Nat} (order : anchor < limit)
    (inside : limit < source.size) (visible : source.isSignificant anchor) :
    anchor < lineInsertPoint source anchor limit ∧
      lineInsertPoint source anchor limit ≤ limit ∧
      (lineInsertPoint source anchor limit = anchor + 1 ∨
        lineInsertPoint source anchor limit = limit ∨
        source.codeAt? (lineInsertPoint source anchor limit) = some '\n') := by
  have ends : source.lineEnd anchor = source.size ∨ anchor < source.lineEnd anchor ∧
      source.charAt? (source.lineEnd anchor) = some '\n' := by
    refine (lineEnd_cases source anchor).imp_right fun ⟨lower, char⟩ =>
      ⟨Nat.lt_of_le_of_ne lower fun same => ?_, char⟩
    rw [← same] at char
    obtain ⟨cell, here, shows⟩ := Option.bind_eq_some_iff.mp char
    simp [isSignificant_eq, here, isVisible, shows, isSpace] at visible
  rw [lineInsertPoint]
  split
  · rename_i known
    rcases ends with final | ⟨behind, char⟩
    · rw [final, Nat.min_eq_right (Nat.le_of_lt inside)]
      exact ⟨order, Nat.le_refl _, Or.inr (Or.inl rfl)⟩
    · rcases Nat.le_total limit (source.lineEnd anchor) with before | within
      · rw [Nat.min_eq_right before]
        exact ⟨order, Nat.le_refl _, Or.inr (Or.inl rfl)⟩
      · rw [Nat.min_eq_left within] at known ⊢
        refine ⟨behind, within, Or.inr ?_⟩
        rcases known with equal | code
        · exact Or.inl equal
        · exact Or.inr (Source.codeAt_iff.mpr ⟨char, code⟩)
  · exact ⟨Nat.lt_succ_self _, order, Or.inl rfl⟩

/-- Behind a bracket or comma with nothing but commas behind it there is a slot. -/
theorem slot_of_anchor {blank : List Char} {anchor place : Nat}
    (matched : Matched source brackets) (least : brackets.start ≤ anchor)
    (starts : anchor = brackets.start ∨ source.codeAt? anchor = some ',')
    (only : OnlyCommas source (anchor + 1) brackets.stop)
    (before : anchor < place) (upper : place ≤ brackets.stop)
    (kind : place = anchor + 1 ∨ blank.head? = some '\n' ∧
      (place = brackets.stop ∨ source.codeAt? place = some '\n')) :
    ∃ previous, Slot source brackets blank previous place := by
  have significant : source.isSignificant anchor := by
    rcases starts with rfl | comma
    · obtain ⟨kind, left, -, code, -, opens, -⟩ := matched.kinds
      exact Source.isSignificant_of_codeAt code (Source.isSpace_of_bracket opens)
    · exact Source.isSignificant_of_codeAt comma (by decide)
  cases found : source.lastSignificant? anchor place with
  | none =>
      have hidden := Source.last_eq_none_iff.mp found anchor (Nat.le_refl _) before
      rw [significant] at hidden
      cases hidden
  | some previous =>
      obtain ⟨lower, order, seen, clear⟩ := Source.last_eq_some_iff.mp found
      refine ⟨previous,
        { matched := matched
          least := Nat.le_trans least lower
          before := order
          upper := upper
          cut := ?_
          clear := clear
          only := only.mono before (Nat.le_refl _)
          place := ?_ }⟩
      · rcases Nat.eq_or_lt_of_le lower with rfl | behind
        · exact starts
        · exact Or.inr (only previous behind (Nat.lt_of_lt_of_le order upper) seen)
      · rcases kind with next | line
        · left
          omega
        · exact Or.inr line

end

/-! ### One edit, or a comma and an edit -/

/-- Whether a text is another one with a token as new last element of an array that
has elements: behind the comma of the last element, and with a comma, or behind a
comma that is put there first, and without one. -/
inductive Extends (token : Token) (text : String) (brackets last : Span) :
    String → Prop
  | behindComma {blank : List Char} {comma previous place : Nat}
      {before after : List Char} {middle : Mode} (isBlank : IsBlank blank)
      (found : trailingComma? (Source.ofText text) brackets last = some comma)
      (order : comma < place)
      (slot : Slot (Source.ofText text) brackets blank previous place)
      (spot : Spot text (token.fragment blank [',']) place before after middle) :
      Extends token text brackets last
        (joined before (token.fragment blank [',']) after)
  | behindElement {blank : List Char} {previous place : Nat}
      {before after front behind : List Char} {middle : Mode}
      (isBlank : IsBlank blank)
      (none : trailingComma? (Source.ofText text) brackets last = none)
      (order : last.stop < place)
      (spot : Spot text commaFragment last.stop before after .code)
      (slot : Slot (Source.ofText (joined before commaFragment after))
        ⟨brackets.start, brackets.stop + 1⟩ blank previous place)
      (later : Spot (joined before commaFragment after) (token.fragment blank [])
        place front behind middle) :
      Extends token text brackets last (joined front (token.fragment blank []) behind)

section

variable {text : String} {brackets : Span} {token : Token}

/-- One edit at a spot. -/
theorem applyEdits_spot {fragment : Fragment} {place : Nat}
    {before after : List Char} {middle : Mode}
    (spot : Spot text fragment place before after middle) {written : String}
    (same : written.toList = fragment.chars) :
    applyEdits text [⟨place, written⟩] = joined before fragment after := by
  rw [applyEdits_one, insertAt_cut spot.cut, same, joined]

/-- Behind a bracket or comma an element is put at a spot. -/
theorem spot_behind (good : token.Good)
    (matched : Matched (Source.ofText text) brackets) {blank tail : List Char}
    (isBlank : IsBlank blank) (isTail : IsTail tail) {anchor place : Nat}
    (closed : ∀ literal ∈ (Source.ofText text).literals, literal.stop = place →
      literal.closed = true)
    (least : brackets.start ≤ anchor)
    (starts : anchor = brackets.start ∨
      (Source.ofText text).codeAt? anchor = some ',')
    (only : OnlyCommas (Source.ofText text) (anchor + 1) brackets.stop)
    (before : anchor < place) (upper : place ≤ brackets.stop)
    (kind : place = anchor + 1 ∨ blank.head? = some '\n' ∧
      (place = brackets.stop ∨
        (Source.ofText text).codeAt? place = some '\n')) :
    ∃ previous front behind middle,
      Slot (Source.ofText text) brackets blank previous place ∧
      Spot text (token.fragment blank tail) place front behind middle := by
  obtain ⟨previous, slot⟩ :=
    slot_of_anchor matched least starts only before upper kind
  obtain ⟨front, behind, middle, spot⟩ := slot.spot
    (fun literal member stop _ => closed literal member stop) good isBlank isTail
  exact ⟨previous, front, behind, middle, slot, spot⟩

/-- A comma behind the last element, and an element behind the comma. -/
theorem extends_comma (good : token.Good) {blank : List Char}
    (isBlank : IsBlank blank) {last : Span}
    (element : LastElement (Source.ofText text) brackets last)
    (closed : Source.ClosedIn (Source.ofText text) (last.stop - 1) brackets.stop)
    (none : trailingComma? (Source.ofText text) brackets last = none)
    {place : Nat} (lower : last.stop ≤ place) (upper : place ≤ brackets.stop)
    (kind : place = last.stop ∨ blank.head? = some '\n' ∧
      (place = brackets.stop ∨
        (Source.ofText text).codeAt? place = some '\n')) :
    ∃ first middle behind, text.toList = first ++ middle ++ behind ∧
      byteLength first = last.stop ∧ byteLength (first ++ middle) = place ∧
      Extends token text brackets last (String.ofList (first ++ ',' :: middle ++
        (blank ++ token.chars) ++ behind)) := by
  obtain ⟨first, rest, spot⟩ := comma_spot element closed none
  have atEnd := comma_atEnd element spot
  have width : spot.insertion.width = 1 := commaFragment_size
  have anchored : spot.insertion.place = last.stop := rfl
  have result := spot.result_eq
  have matched := Insertion.matched_shift spot.balanced atEnd.matched
  rw [atEnd.pair_eq, width, result] at matched
  have only := atEnd.onlyCommas_result
  rw [width, anchored, result] at only
  have comma : (Source.ofText (joined first commaFragment rest)).codeAt?
      last.stop = some ',' :=
    (@Spot.codeAt_inside _ _ _ _ _ _ spot 0 Nat.one_pos).trans
      (commaFragment_code (by rw [commaFragment_size]; exact Nat.one_pos))
  have moved : (Source.ofText (joined first commaFragment rest)).codeAt?
      (place + 1) = (Source.ofText text).codeAt? place := spot.codeAt_behind lower
  have still : Source.ClosedIn (Source.ofText (joined first commaFragment rest))
      (last.stop - 1) (brackets.stop + 1) :=
    spot.closedIn_result closed (Nat.sub_le _ _) element.upper
  obtain ⟨previous, front, behind, mode, slot, later⟩ := @spot_behind _ _ token
    good matched _ _ isBlank (Or.inl rfl) last.stop (place + 1)
    (fun literal member stop => still literal member (by omega) (by omega))
    (Nat.le_of_lt atEnd.lower) (Or.inr comma) only (by omega)
    (Nat.succ_le_succ upper) (by
      rcases kind with next | ⟨line, last | newline⟩
      · exact Or.inl (congrArg (· + 1) next)
      · exact Or.inr ⟨line, Or.inl (congrArg (· + 1) last)⟩
      · exact Or.inr ⟨line, Or.inr (moved.trans newline)⟩)
  have parts : first ++ [','] ++ rest = front ++ behind := by
    rw [← later.cut.parts, joined, String.toList_ofList]
    rfl
  have size : byteLength (first ++ [',']) = last.stop + 1 := by
    rw [Source.byteLength_append, spot.cut.place]
    rfl
  obtain ⟨between, rfl, rfl⟩ := prefix_of_byteLength parts (by
    rw [size, later.cut.place]
    omega)
  refine ⟨first, between, behind, ?_, spot.cut.place, ?_, ?_⟩
  · rw [spot.cut.parts, List.append_assoc]
  · have whole := later.cut.place
    rw [Source.byteLength_append, size] at whole
    rw [Source.byteLength_append, spot.cut.place]
    omega
  · have final := Extends.behindElement isBlank none (by omega) spot slot later
    rw [joined, Token.chars_fragment, List.append_nil] at final
    simp only [List.append_assoc, List.cons_append, List.nil_append] at final ⊢
    exact final

/-! ### Arrays with elements -/

section

variable {last : Span} {written : String} (good : token.Good)
  (element : LastElement (Source.ofText text) brackets last)
  (closed : Source.ClosedIn (Source.ofText text) (last.stop - 1) brackets.stop)
  (same : written.toList = token.chars)

include good element closed same

/-- Behind the last element of an array over several lines. -/
theorem extends_line
    (lines : (Source.ofText text).spansLines last.stop brackets.stop) :
    Extends token text brackets last (applyEdits text
      (appendInsertion (Source.ofText text) brackets last written)) := by
  have size := Source.lt_size_of_codeAt
    (closing_of_matched element.matched).choose_spec.choose_spec.1
  have isBlank := lineOf_blank
    (lineIndent_blank (Source.ofText text) last.start)
  have lower := element.lower
  have order := element.order
  have upper := element.upper
  rw [appendInsertion, if_pos lines]
  cases found : trailingComma? (Source.ofText text) brackets last with
  | some comma =>
      obtain ⟨above, below, code, clear⟩ := element.comma_of_some found
      obtain ⟨behind, within, kind⟩ := lineInsertPoint_spec below size
        (Source.isSignificant_of_codeAt code (by decide))
      obtain ⟨previous, front, back, mode, slot, spot⟩ := spot_behind good
        element.matched isBlank (Or.inr rfl)
        (fun literal member stop => closed literal member (by omega) (by omega))
        (by omega) (Or.inr code) (fun other first stop significant => by
          rw [clear other first stop] at significant
          cases significant) behind within
        (kind.imp_right fun line => ⟨rfl, line⟩)
      rw [applyEdits_spot spot (by
        rw [Token.chars_fragment]
        simp [lineOf, String.toList_append, same])]
      exact .behindComma isBlank found behind slot spot
  | none =>
      obtain ⟨behind, within, kind⟩ := lineInsertPoint_spec
        (by omega : last.stop - 1 < brackets.stop) size element.significant
      obtain ⟨first, middle, rest, parts, size, place, extended⟩ := extends_comma
        good isBlank element closed found (by omega) within
        (kind.imp (fun next => by omega) fun line => ⟨rfl, line⟩)
      rw [applyEdits_two (by simp only; omega), ← place, ← size]
      have comma : (",".toList) = [','] := rfl
      simp only [comma]
      rw [insertAt_twice parts]
      simp only [lineOf] at extended
      simp only [String.toList_append, same]
      exact extended

/-- Behind the last element of an array on one line. -/
theorem extends_inline
    (line : ¬(Source.ofText text).spansLines last.stop brackets.stop) :
    Extends token text brackets last (applyEdits text
      (appendInsertion (Source.ofText text) brackets last written)) := by
  have isBlank : IsBlank [' '] := fun c member =>
    Or.inl (List.mem_singleton.mp member)
  have lower := element.lower
  have order := element.order
  rw [appendInsertion, if_neg line]
  cases found : trailingComma? (Source.ofText text) brackets last with
  | some comma =>
      obtain ⟨above, below, code, clear⟩ := element.comma_of_some found
      obtain ⟨previous, front, back, mode, slot, spot⟩ := spot_behind good
        element.matched isBlank (Or.inr rfl)
        (fun literal member stop => closed literal member (by omega) (by omega))
        (by omega) (Or.inr code) (fun other first stop significant => by
          rw [clear other first stop] at significant
          cases significant) (Nat.lt_succ_self comma) below (Or.inl rfl)
      rw [applyEdits_spot spot (by
        rw [Token.chars_fragment]
        simp [String.toList_append, same])]
      exact .behindComma isBlank found (Nat.lt_succ_self comma) slot spot
  | none =>
      obtain ⟨first, middle, rest, parts, size, place, extended⟩ := extends_comma
        good isBlank element closed found (Nat.le_refl _) element.upper (Or.inl rfl)
      have empty : middle = [] := by
        by_contra filled
        have width := Source.byteLength_pos filled
        rw [Source.byteLength_append, size] at place
        omega
      subst empty
      rw [List.append_nil] at parts
      rw [applyEdits_one, ← size, parts, insertAt_append]
      simp only [List.append_assoc, List.cons_append, List.nil_append] at extended
      simp only [String.toList_append, same, List.append_assoc]
      exact extended

/-- Whatever the style of an array with elements is, the edits append an element. -/
theorem extends_array
    (found : ((Source.ofText text).elements brackets).getLast? = some last) :
    Extends token text brackets last (applyEdits text
      (arrayInsertion (Source.ofText text) brackets written)) := by
  rw [arrayInsertion, found]
  by_cases lines : (Source.ofText text).spansLines last.stop brackets.stop
  · exact extends_line good element closed same lines
  · exact extends_inline good element closed same lines

end

/-! ### All arrays -/

/-- Whether a text is another one with a token as new last element of an array, in
which all literals are closed: the token is put into a slot, behind a comma for the
last element if that has none. -/
inductive Appends (token : Token) : (text : String) → Span → String → Prop
  | element {text : String} {brackets : Span} {blank tail : List Char}
      {previous place : Nat} {before after : List Char} {middle : Mode}
      (isBlank : IsBlank blank) (isTail : IsTail tail)
      (slot : Slot (Source.ofText text) brackets blank previous place)
      (site : Site text (token.fragment blank tail) place before after middle) :
      Appends token text brackets
        (joined before (token.fragment blank tail) after)
  | comma {text final : String} {brackets last : Span} {before after : List Char}
      {middle : Mode} (element : LastElement (Source.ofText text) brackets last)
      (none : trailingComma? (Source.ofText text) brackets last = none)
      (site : Site text commaFragment last.stop before after middle)
      (later : Appends token (joined before commaFragment after)
        ⟨brackets.start, brackets.stop + 1⟩ final) :
      Appends token text brackets final

theorem Extends.appends {final : String} {last : Span}
    (extended : Extends token text brackets last final) (good : token.Good)
    (closed : Source.AllClosed (Source.ofText text))
    (element : LastElement (Source.ofText text) brackets last) :
    Appends token text brackets final := by
  cases extended with
  | behindComma isBlank found order slot spot =>
      exact .element isBlank (Or.inr rfl) slot
        (spot.site closed (Token.leads good isBlank))
  | behindElement isBlank none order spot slot later =>
      have site := spot.site closed commaFragment_leads
      exact .comma element none site (.element isBlank (Or.inl rfl) slot
        (later.site site.closed_result (Token.leads good isBlank)))

/-- One edit behind a bracket or comma. -/
theorem appends_edit (good : token.Good)
    (closed : Source.AllClosed (Source.ofText text))
    (matched : Matched (Source.ofText text) brackets) {blank tail : List Char}
    (isBlank : IsBlank blank) (isTail : IsTail tail) {written : String}
    (same : written.toList = blank ++ token.chars ++ tail) {anchor place : Nat}
    (least : brackets.start ≤ anchor)
    (starts : anchor = brackets.start ∨
      (Source.ofText text).codeAt? anchor = some ',')
    (only : OnlyCommas (Source.ofText text) (anchor + 1) brackets.stop)
    (before : anchor < place) (upper : place ≤ brackets.stop)
    (kind : place = anchor + 1 ∨ blank.head? = some '\n' ∧
      (place = brackets.stop ∨
        (Source.ofText text).codeAt? place = some '\n')) :
    Appends token text brackets (applyEdits text [⟨place, written⟩]) := by
  obtain ⟨previous, front, behind, middle, slot, spot⟩ := spot_behind good matched
    isBlank isTail (fun literal member _ => closed literal member) least starts only
    before upper kind
  rw [applyEdits_spot spot (by rw [Token.chars_fragment, same])]
  exact .element isBlank isTail slot (spot.site closed (Token.leads good isBlank))

/-- In an array without elements. -/
theorem appends_empty (good : token.Good)
    (closed : Source.AllClosed (Source.ofText text))
    (matched : Matched (Source.ofText text) brackets)
    (none : ((Source.ofText text).elements brackets).getLast? = none)
    {written : String} (same : written.toList = token.chars) :
    Appends token text brackets (applyEdits text
      (emptyArrayInsertion (Source.ofText text) brackets written)) := by
  have only : OnlyCommas (Source.ofText text) (brackets.start + 1)
      brackets.stop :=
    Source.onlyCommas_of_last (by rw [none]; exact Nat.le_refl _)
  rw [emptyArrayInsertion]
  split
  · have size := Source.lt_size_of_codeAt
      (closing_of_matched matched).choose_spec.choose_spec.1
    obtain ⟨kind, left, -, code, -, opens, -⟩ := matched.kinds
    obtain ⟨behind, within, place⟩ := lineInsertPoint_spec matched.order size
      (Source.isSignificant_of_codeAt code (Source.isSpace_of_bracket opens))
    refine appends_edit good closed matched
      (lineOf_blank (indentInside_blank (lineIndent_blank (Source.ofText text)
        brackets.stop)))
      (Or.inr rfl) ?_ (Nat.le_refl _) (Or.inl rfl) only behind within
      (place.imp_right fun line => ⟨rfl, line⟩)
    simp [lineOf, String.toList_append, same]
  · have isBlank : IsBlank [] := fun _ member => nomatch member
    refine appends_edit good closed matched isBlank (Or.inl rfl) ?_
      (Nat.le_refl _) (Or.inl rfl) only (Nat.lt_succ_self _) matched.order
      (Or.inl rfl)
    rw [same, List.append_nil, List.nil_append]

/-- Whatever the style of an array is, the edits append an element. -/
theorem appends_array (good : token.Good)
    (closed : Source.AllClosed (Source.ofText text))
    (matched : Matched (Source.ofText text) brackets) {written : String}
    (same : written.toList = token.chars) :
    Appends token text brackets (applyEdits text
      (arrayInsertion (Source.ofText text) brackets written)) := by
  cases found : ((Source.ofText text).elements brackets).getLast? with
  | none =>
      rw [arrayInsertion, found]
      exact appends_empty good closed matched found same
  | some last =>
      have element := lastElement_of_getLast matched found
      exact (extends_array good element (closed.within _ _) same found).appends good
        closed element

end

/-! ### One more dependency of a target -/

section

variable {text : String} {brackets : Span} {block : Block}

/-- What is gained after an insertion that gains nothing is gained in all. -/
theorem Gains.behind {insertion : Insertion} {between after : String}
    (quiet : Quiet insertion) (source : insertion.source = Source.ofText text)
    (result : insertion.result = Source.ofText between)
    (still : ∀ other ∈ blocksOf insertion.source,
      (other.moved insertion).target = other.target)
    (first : Gains text between block [])
    {added : List Dependency}
    (second : Gains between after (block.moved insertion) added) :
    Gains text after block added where
  closed := second.closed
  unmoved := first.unmoved.trans second.unmoved
  targets := by
    rw [second.targets, ← result, blocks_shift quiet, ← source, List.map_map]
    refine List.map_congr_left fun other member => ?_
    have start : (other.moved insertion).parens.start =
        insertion.shift other.parens.start := rfl
    have here : (block.moved insertion).parens.start =
        insertion.shift block.parens.start := rfl
    rw [Function.comp_apply, grownAt, grownAt, start, here, still other member]
    simp only [insertion.shift_inj]

/-- The argument of a declaration with an array at whose end something is put. -/
theorem Home.moved_argument {insertion : Insertion}
    (home : Home insertion block brackets) :
    (block.moved insertion).argument = .array (insertion.pair brackets) := by
  have written := home.written
  have moved := argument_shift home.seam written.matched.order
    (Or.inl (home.lodge.deep_parens written.matched written.opens))
  rw [← written.argument, home.argument] at moved
  exact moved

/-- An element that is appended to the array of a target is one more dependency
of it. -/
theorem Appends.gains {token : Token} {dependency : Dependency}
    (writes : Writes token dependency) {final : String}
    (appends : Appends token text brackets final)
    (closed : Source.AllClosed (Source.ofText text))
    (member : block ∈ blocksOf (Source.ofText text))
    (argument : block.argument = .array brackets) :
    Gains text final block [dependency] := by
  induction appends generalizing block with
  | element isBlank isTail slot site =>
      exact slot.gains writes site isBlank isTail member argument
  | @comma text final brackets last before after middle element none site later
      inductionHypothesis =>
      have home := comma_home element none site member argument
      have first := comma_gains element none site member argument
      have quiet := home.lodge.quiet
        (fun name sought => (commaFragment_silent.calls name sought).occurrences
          site.fit.good (isWord_of_sought sought))
        (commaFragment_silent.package.occurrences site.fit.good (by decide))
      have width : site.insertion.width = 1 := commaFragment_size
      have moved := home.moved_argument
      rw [home.atEnd.pair_eq, width] at moved
      have found : block.moved site.insertion ∈
          blocksOf (Source.ofText (joined before commaFragment after)) := by
        rw [← site.result_eq, blocks_shift quiet]
        exact List.mem_map_of_mem member
      refine first.behind quiet rfl site.result_eq (fun other here => ?_)
        (inductionHypothesis site.closed_result found moved)
      have entries : entriesIn site.insertion.result
          (site.insertion.pair brackets) =
            entriesIn site.insertion.source brackets ++ [] := by
        rw [List.append_nil]
        exact home.entries_commas quiet commaFragment_onlyCommas
      rw [home.moved_target quiet entries here, grownAt, List.filterMap_nil,
        Target.grown_nil, ite_self]

end

end PackageLayers.Manifest

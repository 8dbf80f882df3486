/-
Purpose: Giving a package that has no argument `dependencies` its first
  declaration.
Main exports: Front, FirstPlace, FirstDeclared, declarationInsertion_creates
-/
import PackageLayers.Proofs.Manifest.NewArgument
import PackageLayers.Proofs.Manifest.PackageArray

namespace PackageLayers.Manifest

open Source (Span Insertion Matched Mode Labelled StandsAt isNameChar byteLength)

/-!
A package without the argument gets one in front of its argument `targets`, with
the declaration as only element.  As for targets this is taken as two insertions,
an empty array and an element in it.

The place is looked for backwards from the colon of the label, in comments too.
If what is found is code it is the label; otherwise the argument would be written
into a comment.
-/

/-! ### The place of the label -/

section

variable {source : Source} {parens : Span} {label : String} {after place : Nat}

/-- The last place in front of the colon where the word of a label stands is the
label, if it is code. -/
theorem labelled_of_last (name : Source.isName label)
    (found : source.label? parens label = some after)
    (last : lastOccurrence? source label after = some place)
    (code : source.isCode place) :
    place ∈ source.topLevel parens ∧
      ∃ colon, Labelled source parens.stop label.toList place colon := by
  obtain ⟨names, filled⟩ := Source.names_of_isName name
  obtain ⟨position, c, colon, member, -, labelled, rfl⟩ :=
    Source.label_eq_some names found
  have length := List.length_pos_of_ne_nil filled
  obtain ⟨lower, -, -, hidden⟩ := Source.next_eq_some_iff.mp labelled.next
  rw [lastOccurrence?, Source.footprint_of_names names] at last
  obtain ⟨-, upper, stands, later⟩ := Source.find_positions_reverse.mp last
  rw [List.length_map] at upper later
  rw [Source.matchesAt_iff] at stands
  have within (index : Nat) (inside : index < label.toList.length) :
      ∃ d, source.charAt? (place + index) = some d ∧ isNameChar d := by
    have here := List.getElem?_eq_getElem inside
    rw [List.all_eq_true] at names
    exact ⟨_, stands index _ here, names _ (List.getElem_mem inside)⟩
  rcases Nat.lt_trichotomy place position with early | same | late
  · have none := later position early (by omega)
    rw [Bool.eq_false_iff, ne_eq, Source.matchesAt_iff] at none
    exact absurd labelled.stands none
  · exact ⟨same ▸ member, colon, same ▸ labelled⟩
  · exfalso
    rcases Nat.lt_or_ge place (position + label.toList.length) with
      across | behind
    · -- the label would go on as a name
      obtain ⟨index, ends⟩ := Nat.exists_eq_add_of_lt across
      obtain ⟨d, char, name'⟩ := within (index + 1) (by omega)
      have stops := labelled.ends
      rw [ends, Nat.add_assoc, Source.isNameAt, char, Option.any_some, name']
        at stops
      cases stops
    · -- nothing counts between the label and its colon
      obtain ⟨d, char, name'⟩ := within 0 length
      rw [Nat.add_zero] at char
      have seen := Source.codeAt_iff.mpr ⟨char, code⟩
      have other : place ≠ colon := by
        rintro rfl
        rw [labelled.char, Option.some.injEq] at char
        rw [← char] at name'
        cases name'
      have clear := hidden place behind (by omega)
      rw [Source.isSignificant_of_codeAt seen
        (isSpace_of_holds (List.all_iff_forall_prop.mp (by decide)) name')]
        at clear
      cases clear

end

/-- A place for an argument in a call: in front of the argument `targets`. -/
structure Front (source : Source) (parens : Span) (place : Nat) : Prop
    extends Inside source parens place where
  code : source.codeAt? place = some 't'
  fresh : source.isNameAt (place - 1) = false
  apart : source.charAt? (place - 1) ≠ some '.'

/-- Whether a text has a place for the first declaration: the call of its package
has no argument `dependencies`, and what is found as label of its argument
`targets` is code and no member. -/
structure FirstPlace (text : String) (parens : Span) (place : Nat) : Prop where
  call : (Outline.ofText text).call = some parens
  absent : (Source.ofText text).label? parens "dependencies" = none
  label : (Outline.ofText text).targetsLabel = some place
  code : (Source.ofText text).isCode place
  apart : (Source.ofText text).charAt? (place - 1) ≠ some '.'

example : FirstPlace "Package(name: \"P\", targets: [])" ⟨7, 30⟩ 19 where
  call := by decide +kernel
  absent := by decide +kernel
  label := by decide +kernel
  code := by decide +kernel
  apart := by decide +kernel

theorem FirstPlace.front {text : String} {parens : Span} {place : Nat}
    (first : FirstPlace text parens place) :
    Front (Source.ofText text) parens place := by
  have call := first.call
  have found := first.label
  rw [Outline.ofText, ofSource_call] at call
  rw [Outline.ofText, ofSource_label, call, Option.bind_some] at found
  obtain ⟨matched, opens⟩ := packageCall_matched call
  obtain ⟨after, label, last⟩ := Option.bind_eq_some_iff.mp found
  obtain ⟨member, colon, labelled⟩ :=
    labelled_of_last (by decide) label last first.code
  obtain ⟨lower, upper, level, -⟩ := Source.mem_topLevel.mp member
  have char := labelled.stands 0 't' (by decide +kernel)
  rw [Nat.add_zero] at char
  exact
    { matched := matched
      opens := opens
      lower := lower
      upper := Nat.le_of_lt upper
      level := level
      code := Source.codeAt_iff.mpr ⟨char, first.code⟩
      fresh := labelled.starts
      apart := first.apart }

namespace Front

variable {text : String} {parens : Span} {place : Nat}
  (front : Front (Source.ofText text) parens place)

include front

/-- What stands in front of the label does not join with what follows. -/
theorem not_joins {left right : Char}
    (before : (Source.ofText text).charAt? (place - 1) = some left)
    (name : isNameChar right) : Source.joins left right = false := by
  have fresh := front.fresh
  have apart := front.apart
  rw [Source.isNameAt, before, Option.any_some] at fresh
  rw [before, ne_eq, Option.some.injEq] at apart
  have other : right ≠ '=' := by
    rintro rfl
    cases name
  simp [Source.joins, fresh, apart, other]

theorem significant : (Source.ofText text).isSignificant place :=
  Source.isSignificant_of_codeAt front.code (by decide)

variable {inner tail : List Char} (margins : Margins [] inner tail)

include margins

/-- The argument is put at a site. -/
theorem site (closed : Source.AllClosed (Source.ofText text)) :
    ∃ before after, Site text (argumentFragment [] inner tail) place before after
      .code := by
  obtain ⟨before, after, middle, cut, calm⟩ := Source.cut_before_code
    (fun literal member _ _ => closed literal member) front.code
  obtain rfl := calm.resolve_right fun comment => absurd comment.2 (by decide)
  have label := margins.codeAt_first
  refine ⟨before, 't' :: after,
    { fit := margins.fit
      cut := cut
      calm := Or.inl rfl
      starts := cut.pos_iff.mp (Nat.zero_lt_of_lt front.lower)
      ends := List.cons_ne_nil _ _
      apartBefore := fun left _ right first => ?_
      apartAfter := argument_apart margins.tail _
      closed := closed
      leads := fun left right previous first => ?_ }⟩
  · have head : (argumentFragment [] inner tail).chars.head? = some 'd' := by
      rw [argument_chars]
      rfl
    rw [head] at first
    cases first
    simp [Source.clashes]
  · refine front.not_joins previous ?_
    rw [Source.charAt_of_codeAt label, Option.some.injEq] at first
    rw [← first]
    rfl

variable {before after : List Char}
  (site : Site text (argumentFragment [] inner tail) place before after .code)

/-- The argument is read on its own in front of the label. -/
theorem seam : site.insertion.Seam := by
  have label := margins.codeAt_first
  have seen := front.significant
  refine site.seam ?_ (fun position c order code asks clear =>
    ⟨fun next found => ?_, fun first found => ?_⟩)
    (fun position c behind code asks clear => ?_)
  · rintro ⟨left, right, -, previous, here, joins⟩
    rw [Source.charAt_of_codeAt front.code, Option.some.injEq] at here
    rw [front.not_joins previous (by rw [← here]; rfl)] at joins
    cases joins
  · obtain ⟨lower, -, -, none⟩ := Source.next_eq_some_iff.mp found
    rcases Nat.eq_or_lt_of_le lower with rfl | later
    · exact ⟨'t', front.code, rfl⟩
    · rw [none place (Nat.le_refl _) later] at seen
      cases seen
  · obtain ⟨-, -, -, none⟩ := Source.next_eq_some_iff.mp found
    rcases Nat.eq_zero_or_pos first with rfl | later
    · exact ⟨'d', label, rfl⟩
    · have hidden := none 0 (Nat.le_refl _) later
      rw [Source.isSignificant_of_codeAt label (by decide)] at hidden
      cases hidden
  · exfalso
    rcases Nat.eq_or_lt_of_le behind with rfl | later
    · rw [front.code, Option.some.injEq] at code
      rw [← code] at asks
      cases asks
    · rw [clear place (Nat.le_refl _) later] at seen
      cases seen

/-- The package has the argument, with an empty array, and nothing else is
changed. -/
theorem empties (call : packageCall? (Source.ofText text) = some parens)
    (absent : (Source.ofText text).label? parens "dependencies" = none) :
    PackageArray (Source.ofText (joined before (argumentFragment [] inner tail)
        after)) (site.insertion.pair parens) (argumentBrackets [] inner place) ∧
      Unmoved (Outline.ofText text).package (Outline.ofText (joined before
        (argumentFragment [] inner tail) after)).package ∧
      (Outline.ofText (joined before (argumentFragment [] inner tail)
        after)).package.targets = (Outline.ofText text).package.targets := by
  have inside := front.toInside
  have seam := front.seam margins site
  have quiet := inside.quiet margins site seam
  have array := inside.labelArray_argument margins site seam
    (fun _ => front.fresh) absent
  have unmoved := package_shift quiet
    (margins.silent.declares.occurrences margins.good (by decide))
  have moved : packageCall? site.insertion.result =
      some (site.insertion.pair parens) := by
    rw [packageCall_shift quiet]
    exact congrArg (Option.map site.insertion.pair) call
  have targets : (Outline.ofSource site.insertion.result).package.targets =
      (Outline.ofSource site.insertion.source).package.targets := by
    rw [ofSource_targets, ofSource_targets, blocks_shift quiet, List.map_map]
    exact List.map_congr_left fun block member =>
      inside.still_other margins site seam (written_of_mem member)
        (apart_of_call call member)
  rw [site.result_eq] at array unmoved moved targets
  exact ⟨⟨moved, array⟩, unmoved, targets⟩

end Front

/-! ### The first declaration -/

/-- Whether a text declares what another one does, and one more package, which is
the only element of the array of declarations. -/
structure FirstDeclared (text text' : String) (declaration : Declaration) : Prop
    extends Declares text text' declaration where
  only : ∃ brackets range other,
    (Outline.ofText text').declarationArray = some brackets ∧
    (Source.ofText text').elements brackets = [range] ∧
    other.located = declaration ∧
    (other, range) ∈ (Outline.ofText text').package.declarations.zip
      (Outline.ofText text').declarationRanges

theorem mem_zip_declarations {source : Source} {entry : Declaration × Span}
    (member : entry ∈ declarationsIn source) :
    entry ∈ (Outline.ofSource source).package.declarations.zip
      (Outline.ofSource source).declarationRanges := by
  rw [ofSource_declarations, ofSource_ranges, List.zip_map', List.mem_map]
  exact ⟨entry, member, rfl⟩

section

variable {text : String} {parens : Span} {place : Nat} {token : Token}
  {declaration : Declaration} {blank behind inner tail : List Char}

/-- An argument with one declaration, in front of the argument `targets`. -/
theorem Front.creates (introduces : Introduces token declaration)
    (closed : Source.AllClosed (Source.ofText text))
    (front : Front (Source.ofText text) parens place)
    (call : packageCall? (Source.ofText text) = some parens)
    (absent : (Source.ofText text).label? parens "dependencies" = none)
    (isBlank : IsBlank blank) (isTail : IsTail behind)
    (margins : Margins [] inner tail) {written : String}
    (same : written.toList = argumentOpening ++ (blank ++ token.chars ++ behind) ++
      (inner ++ ']' :: tail)) :
    FirstDeclared text (applyEdits text [⟨place, written⟩]) declaration := by
  obtain ⟨before, after, site⟩ := front.site margins closed
  obtain ⟨array, unmoved, targets⟩ := front.empties margins site call absent
  have matched := Inside.matched_argument margins site
  have only := Inside.only_argument margins site
  have elements := Inside.elements_argument margins site
  rw [site.result_eq] at matched only elements
  obtain ⟨previous, slot⟩ := @slot_of_anchor _ _ blank (place + 14) (place + 15)
    matched (by simp [argumentBrackets]) (Or.inl (by simp [argumentBrackets]))
    (by simpa [argumentBrackets] using only) (by omega)
    (by simp only [argumentBrackets, List.length_nil]; omega) (Or.inl rfl)
  obtain ⟨first, rest, middle, spot⟩ := slot.spot
    (fun literal known _ _ => site.closed_result literal known) introduces.good
    isBlank isTail
  have site' := spot.site site.closed_result (Token.leads introduces.good isBlank)
  have declares := slot.declares introduces site' isBlank isTail array
  obtain ⟨brackets, range, other, array', elements', located, member⟩ :=
    slot.lists introduces site' isBlank isTail array
  -- the text is cut right behind the bracket of the array
  have parts : before ++ argumentOpening ++ (inner ++ ']' :: tail ++ after) =
      first ++ rest := by
    rw [← site'.cut.parts, joined, String.toList_ofList, argument_chars]
    simp only [List.append_assoc, List.nil_append]
  obtain ⟨rfl, rfl⟩ := parts_of_byteLength parts (by
    have size := byteLength_opening margins.lead
    rw [List.nil_append, List.length_nil, Nat.zero_add] at size
    rw [Source.byteLength_append, site.cut.place, size, site'.cut.place])
  have whole : applyEdits text [⟨place, written⟩] =
      joined (before ++ argumentOpening) (token.fragment blank behind)
        (inner ++ ']' :: tail ++ after) := by
    rw [applyEdits_one, insertAt_cut site.cut, same, joined,
      Token.chars_fragment]
    simp only [List.append_assoc]
  rw [site'.result_eq] at array' elements' member
  rw [elements, List.nil_append] at elements'
  rw [whole]
  refine { declares.behind unmoved targets with
    only := ⟨brackets, range, other, ?_, elements', located,
      mem_zip_declarations member⟩ }
  rw [Outline.ofText, ofSource_array, array'.call]
  exact array'.array

/-- How the argument is written: on lines of its own, or in front of the label. -/
theorem newDeclarationArray_chars (source : Source) (label : Nat) {written : String}
    (same : written.toList = token.chars) :
    ∃ blank behind inner tail, IsBlank blank ∧ IsTail behind ∧
      Margins [] inner tail ∧
      (newDeclarationArray source label written).toList =
        argumentOpening ++ (blank ++ token.chars ++ behind) ++
          (inner ++ ']' :: tail) := by
  have indent := lineIndent_blank source label
  rw [newDeclarationArray]
  split
  · refine ⟨lineOf (indentInside (source.lineIndent label)), [','],
      lineOf (source.lineIndent label), ',' :: lineOf (source.lineIndent label),
      lineOf_blank (indentInside_blank indent), Or.inr rfl,
      { lead := List.forall_mem_nil _
        inner := lineOf_blank indent
        tail := List.forall_mem_cons.mpr
          ⟨Or.inl rfl, (lineOf_blank indent).gap⟩ }, ?_⟩
    have opening : "dependencies: [\n".toList = argumentOpening ++ ['\n'] := by
      decide +kernel
    have comma : ",\n".toList = [',', '\n'] := by decide
    have closing : "],\n".toList = [']', ',', '\n'] := by decide
    simp only [String.toList_append, opening, comma, closing, same, lineOf,
      List.append_assoc, List.cons_append, List.nil_append]
  · refine ⟨[], [], [], [',', ' '], List.forall_mem_nil _, Or.inl rfl,
      { lead := List.forall_mem_nil _
        inner := List.forall_mem_nil _
        tail := List.forall_mem_cons.mpr ⟨Or.inl rfl,
          List.forall_mem_singleton.mpr (Or.inr (Or.inl rfl))⟩ }, ?_⟩
    have opening : "dependencies: [".toList = argumentOpening := rfl
    have closing : "], ".toList = [']', ',', ' '] := by decide
    simp only [String.toList_append, opening, closing, same, List.append_assoc,
      List.nil_append]

/-- The edit that declares the first package of a manifest writes the argument for
it, and the declaration is the only one there. -/
theorem declarationInsertion_creates (introduces : Introduces token declaration)
    (closed : Source.AllClosed (Source.ofText text))
    (first : FirstPlace text parens place) {written : String}
    (same : written.toList = token.chars) {edits : List Edit}
    (inserts : declarationInsertion (Source.ofText text) (Outline.ofText text)
      written = .ok edits) :
    FirstDeclared text (applyEdits text edits) declaration := by
  have call := first.call
  rw [Outline.ofText, ofSource_call] at call
  have array : (Outline.ofText text).declarationArray = none := by
    rw [Outline.ofText, ofSource_array, call, Option.bind_some, labelArray?,
      first.absent]
    rfl
  rw [declarationInsertion, array] at inserts
  simp only [first.call, first.label, Option.bind_some, first.absent,
    Option.isSome_none, Bool.false_eq_true, if_false] at inserts
  cases inserts
  obtain ⟨blank, behind, inner, tail, isBlank, isTail, margins, chars⟩ :=
    newDeclarationArray_chars (Source.ofText text) place same
  exact first.front.creates introduces closed call first.absent isBlank isTail
    margins chars

end

end PackageLayers.Manifest

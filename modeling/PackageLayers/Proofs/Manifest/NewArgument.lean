/-
Purpose: An argument `dependencies` without entries that is put into a call.
Main exports: argumentFragment, Margins, Inside, Inside.labelArray_argument
-/
import PackageLayers.Proofs.Manifest.Slots

namespace PackageLayers.Manifest

open Source (Span Insertion Matched Mode Labelled isSpace isNameChar
  depthThrough Marked OnlyCommas byteLength)

/-!
An argument with an empty array is put directly inside of the parentheses of a
call.  It says nothing that an outline is made from but that the call has the
argument, and that its array has no elements.
-/

/-! ### Code alone -/

section

variable {text : List Char}

theorem good_of_plain (plain : ∀ c ∈ text, isPlain c) :
    (Fragment.mk text []).Good where
  lead := plain
  rest := fun _ member => nomatch member
  between := fun _ member => nomatch member

theorem plain_cell (plain : ∀ c ∈ text, isPlain c) (index : Nat) :
    (Fragment.mk text []).source.cells[index]? = text[index]?.map codeCell := by
  rw [Fragment.source_cell (good_of_plain plain), Fragment.cells,
    List.flatMap_nil, List.append_nil, List.getElem?_map]

/-- Code alone is code at each of its positions. -/
theorem plain_codeAt (plain : ∀ c ∈ text, isPlain c) (index : Nat) :
    (Fragment.mk text []).source.codeAt? index = text[index]? := by
  rw [codeAt_eq, plain_cell plain]
  cases text[index]? <;> rfl

theorem plain_size (plain : ∀ c ∈ text, isPlain c) :
    (Fragment.mk text []).source.size = text.length := by
  rw [Fragment.source_size (good_of_plain plain), Fragment.cells,
    List.flatMap_nil, List.append_nil, List.length_map]

end

/-! ### The argument -/

/-- The argument up to the bracket of its array. -/
def argumentOpening : List Char := "dependencies: [".toList

theorem opening_length : argumentOpening.length = 15 := by decide +kernel

/-- Whether a text stands between two arguments: separators and commas. -/
def IsGap (text : List Char) : Prop :=
  ∀ c ∈ text, c = ',' ∨ c = ' ' ∨ c = '\t' ∨ c = '\n'

theorem IsGap.plain {text : List Char} (gap : IsGap text) :
    ∀ c ∈ text, isPlain c ∧ Bracket.ofChar? c = none ∧ isNameChar c = false ∧
      (isSpace c ∨ c = ',') ∧ c ≠ '=' ∧ c ≠ 'd' := by
  intro c member
  rcases gap c member with rfl | rfl | rfl | rfl <;> decide

theorem IsTail.gap {tail : List Char} (isTail : IsTail tail) : IsGap tail := by
  rcases isTail with rfl | rfl
  · exact fun _ member => nomatch member
  · exact fun c member => Or.inl (List.mem_singleton.mp member)

theorem IsBlank.gap {text : List Char} (isBlank : IsBlank text) : IsGap text :=
  fun c member => Or.inr (isBlank c member)

theorem byteLength_opening {lead : List Char} (gap : IsGap lead) :
    byteLength (lead ++ argumentOpening) = lead.length + 15 := by
  have single : ∀ c ∈ lead, c.utf8Size = 1 := by
    intro c member
    rcases gap c member with rfl | rfl | rfl | rfl <;> decide
  have word : byteLength argumentOpening = 15 := by decide +kernel
  rw [Source.byteLength_append, Source.byteLength_of_single single, word]

/-- The argument `dependencies` without entries, as it is written into a call. -/
def argumentFragment (lead inner tail : List Char) : Fragment :=
  ⟨lead ++ (argumentOpening ++ (inner ++ ']' :: tail)), []⟩

/-- The brackets of the argument behind a place. -/
def argumentBrackets (lead inner : List Char) (place : Nat) : Span :=
  ⟨place + (lead.length + 14), place + (lead.length + (15 + inner.length))⟩

/-- What stands around the argument and in its array counts for nothing. -/
structure Margins (lead inner tail : List Char) : Prop where
  lead : IsGap lead
  inner : IsBlank inner
  tail : IsGap tail

section

variable {lead inner tail : List Char}

theorem argument_chars : (argumentFragment lead inner tail).chars =
    lead ++ (argumentOpening ++ (inner ++ ']' :: tail)) := by
  rw [Fragment.chars, argumentFragment, List.flatMap_nil, List.append_nil]

/-- What stands at the end of the argument. -/
theorem argument_last (gap : IsGap tail) :
    ∃ front c, lead ++ (argumentOpening ++ (inner ++ ']' :: tail)) =
      front ++ [c] ∧ (c = ']' ∨ IsGap [c]) := by
  rcases List.eq_nil_or_concat tail with rfl | ⟨rest, c, rfl⟩
  · exact ⟨lead ++ (argumentOpening ++ inner), ']',
      by simp only [List.append_assoc], Or.inl rfl⟩
  · refine ⟨lead ++ (argumentOpening ++ (inner ++ ']' :: rest)), c, ?_,
      Or.inr fun d member => gap d ?_⟩
    · simp only [List.concat_eq_append, List.append_assoc, List.cons_append]
    · rw [List.mem_singleton.mp member]
      simp

/-- The argument is no part of a mark with what follows it. -/
theorem argument_apart (gap : IsGap tail) (after : List Char) :
    Source.Apart (argumentFragment lead inner tail).chars after := by
  intro left last right first
  obtain ⟨front, c, split, kinds⟩ := @argument_last lead inner tail gap
  rw [argument_chars, split, List.getLast?_concat] at last
  cases last
  rcases kinds with rfl | kind
  · simp [Source.clashes]
  · rcases kind left List.mem_cons_self with rfl | rfl | rfl | rfl <;>
      simp [Source.clashes]

namespace Margins

variable (margins : Margins lead inner tail)

include margins

theorem plain : ∀ c ∈ lead ++ (argumentOpening ++ (inner ++ ']' :: tail)),
    isPlain c := by
  have word : ∀ c ∈ argumentOpening, isPlain c :=
    List.all_iff_forall_prop.mp (by decide +kernel)
  intro c member
  simp only [List.mem_append, List.mem_cons] at member
  rcases member with early | opening | blank | rfl | late
  · exact (margins.lead.plain c early).1
  · exact word c opening
  · exact (margins.inner.plain c blank).1
  · decide
  · exact (margins.tail.plain c late).1

theorem good : (argumentFragment lead inner tail).Good :=
  good_of_plain margins.plain

theorem balanced : Source.Balanced (argumentFragment lead inner tail).code := by
  have label : ∀ c ∈ "dependencies: ".toList, Bracket.ofChar? c = none :=
    List.all_iff_forall_prop.mp (by decide +kernel)
  have opening : argumentOpening = "dependencies: ".toList ++ ['['] := by
    decide +kernel
  have array : Source.Balanced ('[' :: (inner ++ ']' :: tail)) :=
    @Source.Balanced.nested .square '[' ']' inner tail rfl rfl
      (Source.Balanced.of_plain fun c member =>
        (margins.inner.plain c member).2.2.1)
      (Source.Balanced.of_plain fun c member =>
        (margins.tail.plain c member).2.1)
  rw [Fragment.code, argumentFragment, List.flatMap_nil, List.append_nil, opening,
    List.append_assoc]
  exact (Source.Balanced.of_plain fun c member =>
    (margins.lead.plain c member).2.1).append
      ((Source.Balanced.of_plain label).append array)

theorem fit : (argumentFragment lead inner tail).Fit where
  good := margins.good
  balanced := margins.balanced
  last := by
    obtain ⟨front, c, split, kinds⟩ :=
      @argument_last lead inner tail margins.tail
    refine ⟨front.map codeCell, codeCell c, ?_, fun d member => ?_⟩
    · rw [Fragment.cells, argumentFragment, List.flatMap_nil, List.append_nil,
        split, List.map_append]
      rfl
    · cases member
      rcases kinds with rfl | kind
      · decide
      · rcases kind c List.mem_cons_self with rfl | rfl | rfl | rfl <;> decide
  filled := by
    refine ⟨codeCell ']', ?_, by decide⟩
    rw [Fragment.cells, argumentFragment, List.flatMap_nil, List.append_nil]
    exact List.mem_map_of_mem (by simp)

theorem leads (filled : lead ≠ []) :
    (argumentFragment lead inner tail).Leads := by
  obtain ⟨c, rest, rfl⟩ := List.exists_cons_of_ne_nil filled
  have known := margins.lead.plain c List.mem_cons_self
  refine ⟨codeCell c, _, rfl, fun d member => ?_⟩
  cases member
  exact ⟨known.2.2.1, known.2.2.2.2.1⟩

/-- A word without separators and commas is not in the argument unless it is in
its code. -/
theorem lacks {word : List Char}
    (visible : ∀ c ∈ word, isSpace c = false ∧ c ≠ ',')
    (absent : ¬word <:+: argumentOpening ++ [']']) :
    (argumentFragment lead inner tail).Lacks word := by
  have fresh {part : List Char} (gap : IsGap part) : ∀ c ∈ part, c ∉ word := by
    intro c member here
    have known := visible c here
    rcases (gap.plain c member).2.2.2.1 with space | comma
    · rw [known.1] at space
      cases space
    · exact known.2 comma
  -- a gap in a text cuts it for the word
  have cut {left gap right : List Char} (isGap : IsGap gap)
      (inside : word <:+: left ++ (gap ++ right)) (filled : gap ≠ []) :
      word <:+: left ∨ word <:+: right :=
    infix_of_all_not_mem inside (fresh isGap) filled
  have empty (none : word <:+: []) : word <:+: argumentOpening ++ [']'] := by
    rw [List.infix_nil.mp none]
    exact List.nil_infix
  refine ⟨fun inside => absent ?_, fun _ member => nomatch member⟩
  have behind : word <:+: argumentOpening ++ (inner ++ ']' :: tail) := by
    by_cases none : lead = []
    · subst none
      exact inside
    · rcases @cut [] lead _ margins.lead inside none with nothing | behind
      · exact absurd (empty nothing) absent
      · exact behind
  have before : word <:+: argumentOpening ++ (inner ++ [']']) := by
    by_cases none : tail = []
    · subst none
      exact behind
    · rcases @cut (argumentOpening ++ (inner ++ [']'])) tail [] margins.tail
        (by simpa using behind) none with before | nothing
      · exact before
      · exact absurd (empty nothing) absent
  by_cases none : inner = []
  · subst none
    exact before
  · rcases cut margins.inner.gap before none with opening | closing
    · exact opening.trans (List.prefix_append _ _).isInfix
    · exact closing.trans (List.suffix_append _ _).isInfix

theorem silent : (argumentFragment lead inner tail).Silent where
  calls := by
    have absent : ∀ name ∈ soughtCalls,
        ¬("." ++ name).toList <:+: argumentOpening ++ [']'] := by decide +kernel
    exact fun name sought => margins.lacks
      (Token.visible_of_isWord (isWord_of_sought sought)) (absent name sought)
  declares := margins.lacks (Token.visible_of_isWord (by decide))
    (by decide +kernel)
  package := margins.lacks (Token.visible_of_isWord (by decide))
    (by decide +kernel)

/-- No other label that is looked for is in the argument. -/
theorem label_absent {label : String} (sought : label ∈ soughtLabels)
    (index : Nat) :
    ¬Source.CodeAt (argumentFragment lead inner tail).source label.toList
      index := by
  have absent : ∀ label ∈ soughtLabels,
      ¬label.toList <:+: argumentOpening ++ [']'] := by decide +kernel
  have names := Source.names_of_isName (isName_of_sought sought)
  refine (margins.lacks (fun c member => ?_) (absent label sought)).not_codeAt
    margins.good names.2 index
  have all := names.1
  rw [List.all_eq_true] at all
  have name := all c member
  refine ⟨isSpace_of_holds (List.all_iff_forall_prop.mp (by decide)) name, ?_⟩
  rintro rfl
  cases name

/-! ### Its positions -/

theorem size : (argumentFragment lead inner tail).source.size =
    lead.length + (16 + inner.length + tail.length) := by
  refine (plain_size margins.plain).trans ?_
  simp only [List.length_append, List.length_cons, opening_length]
  omega

theorem codeAt (index : Nat) :
    (argumentFragment lead inner tail).source.codeAt? index =
      (lead ++ (argumentOpening ++ (inner ++ ']' :: tail)))[index]? :=
  plain_codeAt margins.plain index

/-- In front of the label there is only the margin. -/
theorem codeAt_lead {index : Nat} (short : index < lead.length) :
    (argumentFragment lead inner tail).source.codeAt? index = lead[index]? := by
  rw [margins.codeAt, List.getElem?_append_left short]

theorem codeAt_opening {index : Nat} {c : Char}
    (here : argumentOpening[index]? = some c) :
    (argumentFragment lead inner tail).source.codeAt? (lead.length + index) =
      some c := by
  have inside := (List.getElem?_eq_some_iff.mp here).1
  rw [margins.codeAt, List.getElem?_append_right (by omega),
    Nat.add_sub_cancel_left, List.getElem?_append_left inside, here]

omit margins in
/-- Without a margin in front of it the argument starts with its label. -/
theorem codeAt_first (margins : Margins [] inner tail) :
    (argumentFragment [] inner tail).source.codeAt? 0 = some 'd' := by
  have label := margins.codeAt_opening
    (by decide +kernel : argumentOpening[0]? = some 'd')
  rwa [List.length_nil] at label

theorem codeAt_inner {index : Nat} (short : index < inner.length) :
    (argumentFragment lead inner tail).source.codeAt?
      (lead.length + (15 + index)) = inner[index]? := by
  rw [margins.codeAt, List.getElem?_append_right (by omega),
    Nat.add_sub_cancel_left,
    List.getElem?_append_right (by rw [opening_length]; omega), opening_length,
    Nat.add_sub_cancel_left, List.getElem?_append_left short]

theorem codeAt_closing :
    (argumentFragment lead inner tail).source.codeAt?
      (lead.length + (15 + inner.length)) = some ']' := by
  rw [margins.codeAt, List.getElem?_append_right (by omega),
    Nat.add_sub_cancel_left,
    List.getElem?_append_right (by rw [opening_length]; omega), opening_length,
    Nat.add_sub_cancel_left, List.getElem?_append_right (Nat.le_refl _),
    Nat.sub_self]
  rfl

/-- What counts last is the bracket, or a comma behind it. -/
theorem last_significant {last : Nat}
    (found : (argumentFragment lead inner tail).source.lastSignificant? 0
      (argumentFragment lead inner tail).source.size = some last) :
    ∃ c, (argumentFragment lead inner tail).source.codeAt? last = some c ∧
      (c = ']' ∨ c = ',') := by
  have size := margins.size
  have closing := margins.codeAt_closing
  obtain ⟨-, upper, seen, none⟩ := Source.last_eq_some_iff.mp found
  rcases Nat.lt_trichotomy last (lead.length + (15 + inner.length)) with
    early | equal | late
  · have hidden := none _ early (by omega)
    rw [Source.isSignificant_of_codeAt closing (by decide)] at hidden
    cases hidden
  · exact ⟨']', equal ▸ closing, Or.inl rfl⟩
  · obtain ⟨index, rfl⟩ := Nat.exists_eq_add_of_lt late
    have inside : index < tail.length := by omega
    have here : (argumentFragment lead inner tail).source.codeAt?
        (lead.length + (15 + inner.length) + index + 1) = tail[index]? := by
      rw [margins.codeAt, List.getElem?_append_right (by omega),
        List.getElem?_append_right (by rw [opening_length]; omega),
        opening_length, List.getElem?_append_right (by omega),
        List.getElem?_cons]
      have position : lead.length + (15 + inner.length) + index + 1 -
          lead.length - 15 - inner.length = index + 1 := by omega
      rw [position, if_neg (Nat.succ_ne_zero _), Nat.add_sub_cancel]
    rw [List.getElem?_eq_getElem inside] at here
    refine ⟨_, here, Or.inr ?_⟩
    have known := (margins.tail.plain _ (List.getElem_mem inside)).2.2.2.1
    refine known.resolve_left fun space => ?_
    rw [isSignificant_eq, Source.codeAt_eq_some here] at seen
    simp [isVisible, space] at seen

end Margins

end

/-! ### Its place -/

/-- A place directly inside of the parentheses of a call. -/
structure Inside (source : Source) (parens : Span) (place : Nat) : Prop where
  matched : Matched source parens
  opens : source.charAt? parens.start = some '('
  lower : parens.start < place
  upper : place ≤ parens.stop
  level : depthThrough 0 (Marked.chars
    (source.codeChars (parens.start + 1) place)) = 0

namespace Inside

variable {text : String} {parens : Span} {lead inner tail : List Char}
  {place : Nat} {before after : List Char} {middle : Mode}
  (inside : Inside (Source.ofText text) parens place)
  (margins : Margins lead inner tail)
  (site : Site text (argumentFragment lead inner tail) place before after middle)

theorem enclosing (inside : Inside (Source.ofText text) parens place) :
    (Source.ofText text).enclosing? place = some parens.start :=
  inside.matched.enclosing_of_level inside.lower inside.upper inside.level

include inside margins

/-- The argument adds nothing that an outline is made from. -/
theorem quiet (seam : site.insertion.Seam) : Quiet site.insertion := by
  have silent := margins.silent
  refine .of_deep seam
    (fun name sought => (silent.calls name sought).occurrences margins.good
      (isWord_of_sought sought))
    (silent.package.occurrences margins.good (by decide))
    (fun _ _ _ _ sought => Or.inr (margins.label_absent sought)) ?_
  intro span label brackets matched sought array
  have around : site.insertion.source.enclosing? site.insertion.place =
      some parens.start := inside.enclosing
  refine Insertion.deep_of_enclosing around (labelArray_eq_some array).2
    fun same => ?_
  have bracket : (Source.ofText text).charAt? brackets.start = some '[' :=
    opens_of_array array
  rw [same, inside.opens, Option.some.injEq] at bracket
  exact absurd bracket (by decide)

/-- A target whose arguments are those of another call stays as it is. -/
theorem still_other (seam : site.insertion.Seam) {block : Block}
    (written : Written site.insertion.source block)
    (other : block.parens.start ≠ parens.start) :
    (block.moved site.insertion).target = block.target := by
  have around : site.insertion.source.enclosing? site.insertion.place =
      some parens.start := inside.enclosing
  refine still_target (inside.quiet margins site seam) written
    (Or.inl (Insertion.deep_of_enclosing around written.matched other))
    fun brackets kind => Or.inl ?_
  have found := array_of_argument (written.argument.symm.trans kind)
  refine Insertion.deep_of_enclosing around (labelArray_eq_some found).2
    fun equal => ?_
  have bracket : (Source.ofText text).charAt? brackets.start = some '[' :=
    opens_of_array found
  rw [equal, inside.opens, Option.some.injEq] at bracket
  exact absurd bracket (by decide)

/-! ### The argument is found -/

omit inside margins in
/-- The positions of the argument in the text with it. -/
theorem codeAt_result {index : Nat} {c : Char}
    (here : (argumentFragment lead inner tail).source.codeAt? index = some c) :
    site.insertion.result.codeAt? (place + index) = some c :=
  (site.insertion.codeAt_place (Source.lt_size_of_codeAt here)).trans here

omit inside in
theorem width_eq : site.insertion.width =
    lead.length + (16 + inner.length + tail.length) := margins.size

omit margins in
theorem pair_eq : site.insertion.pair parens =
    ⟨parens.start, parens.stop + site.insertion.width⟩ := by
  rw [Insertion.pair, site.insertion.shift_of_lt inside.lower,
    site.insertion.shift_of_le inside.upper]

/-- The label stands directly inside of the parentheses. -/
theorem topLevel_argument :
    place + lead.length ∈
      site.insertion.result.topLevel (site.insertion.pair parens) := by
  have at_place : site.insertion.place = place := rfl
  have source : site.insertion.source = Source.ofText text := rfl
  have width := width_eq margins site
  have lower := inside.lower
  have upper := inside.upper
  have label := codeAt_result site
    (margins.codeAt_opening (by decide +kernel : argumentOpening[0]? = some 'd'))
  rw [Source.mem_topLevel, inside.pair_eq site]
  refine ⟨by simp only; omega, by simp only; omega, ?_, 'd', label, rfl⟩
  have split := @Insertion.AtEnd.codeChars_into site.insertion
    (parens.start + 1) lead.length (by omega) (by omega)
  rw [at_place, source] at split
  rw [split, Source.depthThrough_append, inside.level]
  refine (Source.Balanced.of_plain fun c member => ?_).depth 0
  obtain ⟨⟨index, d⟩, entry, rfl⟩ := List.mem_map.mp member
  obtain ⟨-, short, code⟩ := Source.mem_codeChars.mp entry
  have known : site.insertion.fragment.codeAt? index = lead[index]? :=
    margins.codeAt_lead short
  rw [known] at code
  exact (margins.lead.plain d (List.mem_of_getElem? code)).2.1

/-- The new label, if no name runs into it. -/
theorem labelled_argument
    (fresh : lead = [] → (Source.ofText text).isNameAt (place - 1) = false) :
    Labelled site.insertion.result (site.insertion.pair parens).stop
      "dependencies".toList (place + lead.length)
      (place + (lead.length + 12)) := by
  have at_place : site.insertion.place = place := rfl
  have width := width_eq margins site
  have colon := codeAt_result site
    (margins.codeAt_opening (by decide +kernel : argumentOpening[12]? = some ':'))
  have stop : (site.insertion.pair parens).stop =
      parens.stop + site.insertion.width :=
    congrArg Span.stop (inside.pair_eq site)
  have upper := inside.upper
  have label : "dependencies".toList.length = 12 := by decide +kernel
  have ends : place + lead.length + "dependencies".toList.length =
      place + (lead.length + 12) := by
    rw [label, Nat.add_assoc]
  refine ⟨fun index c here => ?_, ?_, ?_, ?_, Source.charAt_of_codeAt colon⟩
  · have split : argumentOpening = "dependencies".toList ++ ": [".toList := by
      decide +kernel
    have found : argumentOpening[index]? = some c := by
      rw [split, List.getElem?_append_left (List.getElem?_eq_some_iff.mp here).1]
      exact here
    have code := codeAt_result site (margins.codeAt_opening found)
    rw [Nat.add_assoc]
    exact Source.charAt_of_codeAt code
  · have positive := inside.lower
    by_cases none : lead = []
    · have same := site.insertion.isNameAt_shift (place - 1)
      rw [site.insertion.shift_of_lt (by omega)] at same
      have nothing := List.length_eq_zero_iff.mpr none
      rw [nothing, Nat.add_zero, same]
      exact fresh none
    · have length := List.length_pos_of_ne_nil none
      have last := List.getElem?_eq_getElem
        (Nat.sub_lt length Nat.one_pos : lead.length - 1 < lead.length)
      have code := codeAt_result site
        ((margins.codeAt_lead (by omega)).trans last)
      rw [Nat.add_sub_assoc length, Source.isNameAt,
        Source.charAt_of_codeAt code]
      exact (margins.lead.plain _ (List.getElem_mem _)).2.2.1
  · rw [ends, Source.isNameAt, Source.charAt_of_codeAt colon]
    rfl
  · rw [ends]
    refine Source.next_eq_some_iff.mpr ⟨Nat.le_refl _, by omega,
      Source.isSignificant_of_codeAt colon rfl, fun other lower upper => ?_⟩
    omega

/-- If there was no such label, it is the new one that is found. -/
theorem label_argument (seam : site.insertion.Seam)
    (fresh : lead = [] → (Source.ofText text).isNameAt (place - 1) = false)
    (absent : (Source.ofText text).label? parens "dependencies" = none) :
    site.insertion.result.label? (site.insertion.pair parens) "dependencies" =
      some (place + (lead.length + 13)) := by
  have name : Source.isName "dependencies" := by decide +kernel
  obtain ⟨names, full⟩ := Source.names_of_isName name
  refine Source.label_of_first name (inside.topLevel_argument margins site)
    (inside.labelled_argument margins site fresh) fun other member before => ?_
  obtain ⟨early, late, whole, -, wider⟩ := Insertion.topLevel_around
    (inside.lower : parens.start < site.insertion.place) inside.upper
    seam.balanced
  -- what stood there before was no such label, and what is new before the
  -- label is no name
  have moved {old : Nat} (here : old ∈ early ++ late) :
      site.insertion.result.labelAt? (site.insertion.pair parens)
        ("dependencies".toList.map some) (site.insertion.shift old) = none := by
    rw [← whole] at here
    obtain ⟨lower, -, -, c, code, -⟩ := Source.mem_topLevel.mp here
    rw [Source.label_eq, Source.footprint_of_names names,
      List.findSome?_eq_none_iff] at absent
    have none := absent old here
    rw [seam.labelAt_shift names full code (by omega)]
    exact Option.map_eq_none_iff.mpr none
  rw [wider, List.mem_append, List.mem_append, List.mem_map, List.mem_map]
    at member
  rcases member with ⟨old, here, rfl⟩ | new | ⟨old, here, rfl⟩
  · exact moved (List.mem_append_left _ here)
  · obtain ⟨front, c, rest, split, -⟩ := Source.mem_depthZero.mp new
    have entry : (other, c) ∈ site.insertion.inner := by
      rw [split]
      simp
    obtain ⟨index, within, code, rfl⟩ := site.insertion.mem_inner.mp entry
    have at_place : site.insertion.place = place := rfl
    have known : site.insertion.fragment.codeAt? index = lead[index]? :=
      margins.codeAt_lead (by omega)
    have result := site.insertion.codeAt_place within
    rw [code] at result
    rw [known] at code
    rw [Option.eq_none_iff_forall_ne_some]
    intro found label
    obtain ⟨colon, labelled, -⟩ := (Source.labelAt_eq_some
      (by have positive := site.insertion.positive; omega)).mp label
    have first := labelled.stands 0 'd' (by decide +kernel)
    rw [Nat.add_zero, Source.charAt_of_codeAt result, Option.some.injEq] at first
    exact (margins.lead.plain c (List.mem_of_getElem? code)).2.2.2.2.2 first
  · exact moved (List.mem_append_right _ here)

omit inside in
/-- In the new array there is nothing that counts. -/
theorem clear_argument {position : Nat}
    (lower : place + (lead.length + 14) + 1 ≤ position)
    (upper : position < place + (lead.length + (15 + inner.length))) :
    site.insertion.result.isSignificant position = false := by
  obtain ⟨index, rfl⟩ := Nat.exists_eq_add_of_le lower
  have short : index < inner.length := by omega
  have code := codeAt_result site
    ((margins.codeAt_inner short).trans (List.getElem?_eq_getElem short))
  have same : place + (lead.length + 14) + 1 + index =
      place + (lead.length + (15 + index)) := by omega
  have blank := (margins.inner.plain _ (List.getElem_mem short)).2.1
  rw [same, isSignificant_eq, Source.codeAt_eq_some code]
  simp [isVisible, blank]

omit inside in
theorem only_argument : OnlyCommas site.insertion.result
    (place + (lead.length + 14) + 1)
    (place + (lead.length + (15 + inner.length))) := by
  intro position lower upper significant
  rw [clear_argument margins site lower upper] at significant
  cases significant

omit inside in
/-- The brackets of the new argument. -/
theorem matched_argument :
    Matched site.insertion.result (argumentBrackets lead inner place) where
  order := by simp only [argumentBrackets]; omega
  kinds := ⟨.square, '[', ']',
    codeAt_result site (margins.codeAt_opening
      (by decide +kernel : argumentOpening[14]? = some '[')),
    codeAt_result site margins.codeAt_closing, rfl, rfl⟩
  balanced := by
    refine Source.Balanced.of_plain fun c member => ?_
    obtain ⟨⟨position, d⟩, entry, rfl⟩ := List.mem_map.mp member
    obtain ⟨lower, upper, code⟩ := Source.mem_codeChars.mp entry
    exact Source.no_bracket_of_hidden code
      (clear_argument margins site lower upper)

/-- The dependencies are written as an empty array. -/
theorem labelArray_argument (seam : site.insertion.Seam)
    (fresh : lead = [] → (Source.ofText text).isNameAt (place - 1) = false)
    (absent : (Source.ofText text).label? parens "dependencies" = none) :
    labelArray? site.insertion.result (site.insertion.pair parens)
      "dependencies" = some (argumentBrackets lead inner place) := by
  have bracket := codeAt_result site (margins.codeAt_opening
    (by decide +kernel : argumentOpening[14]? = some '['))
  have blank := codeAt_result site (margins.codeAt_opening
    (by decide +kernel : argumentOpening[13]? = some ' '))
  have width := width_eq margins site
  have upper := inside.upper
  have stop : (site.insertion.pair parens).stop =
      parens.stop + site.insertion.width :=
    congrArg Span.stop (inside.pair_eq site)
  have next : site.insertion.result.nextSignificant?
      (place + (lead.length + 13)) (site.insertion.pair parens).stop =
        some (place + (lead.length + 14)) := by
    refine Source.next_eq_some_iff.mpr ⟨by omega, by omega,
      Source.isSignificant_of_codeAt bracket rfl, fun other lower upper => ?_⟩
    obtain rfl : other = place + (lead.length + 13) := by omega
    rw [isSignificant_eq, Source.codeAt_eq_some blank]
    rfl
  have array : arrayAt? site.insertion.result (place + (lead.length + 14)) =
      some (argumentBrackets lead inner place) := by
    have partner := Source.partner_of_matched (matched_argument margins site)
    rw [argumentBrackets] at partner
    rw [arrayAt?, if_pos (Source.charAt_of_codeAt bracket), partner]
    rfl
  simp only [labelArray?, inside.label_argument margins site seam fresh absent,
    next, array, Option.bind_eq_bind, Option.bind_some]

omit inside in
/-- The new array has no elements. -/
theorem elements_argument : site.insertion.result.elements
    (argumentBrackets lead inner place) = [] := by
  have only := only_argument margins site
  have parts := only.elementsIn_eq (Nat.le_refl _)
    (by omega) (by rw [Source.codeChars_of_le (Nat.le_refl _)]; rfl)
  rw [Source.elements_eq, argumentBrackets]
  refine parts.trans ?_
  rw [List.eq_nil_iff_forall_not_mem]
  intro range member
  have bounds := Source.mem_elementsIn_bounds member
  omega

end Inside

end PackageLayers.Manifest

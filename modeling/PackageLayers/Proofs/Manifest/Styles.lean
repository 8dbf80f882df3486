/-
Purpose: What an array is after an element has been added to it in its style.
Main exports: elementTexts, commaCount, EndsInComma, Styled, Built,
  arrayInsertion_styled
-/
import PackageLayers.Proofs.Manifest.Lengthening
import PackageLayers.Proofs.Manifest.ProductPatch

namespace PackageLayers.Manifest

open Source (Span Insertion Matched Mode CharClass byteLength isSpace)

/-!
An array with elements keeps its style when an element is added: there is one comma
more, a comma follows the last element if one did before, and an array that ends on
one line gets no line break.  This holds in any text, brackets unbalanced elsewhere
and literals left open, as long as the last element is not inside of a literal that
is broken off: what is put behind such an element would be read as part of it.
-/

/-! ### Arrays -/

/-- The texts of the elements of an array. -/
def elementTexts (source : Source) (brackets : Span) : List String :=
  (source.elements brackets).map fun range => source.slice range.start range.stop

/-- The number of commas directly inside of brackets. -/
def commaCount (source : Source) (brackets : Span) : Nat :=
  (Source.commas 0 (source.codeChars (brackets.start + 1) brackets.stop)).length

/-- Whether a comma follows the last element of an array. -/
def EndsInComma (source : Source) (brackets : Span) : Prop :=
  ∃ last comma, (source.elements brackets).getLast? = some last ∧
    last.stop ≤ comma ∧ comma < brackets.stop ∧ source.codeAt? comma = some ','

theorem endsInComma_iff {source : Source} {brackets last : Span}
    (element : LastElement source brackets last)
    (found : (source.elements brackets).getLast? = some last) :
    EndsInComma source brackets ↔ (trailingComma? source brackets last).isSome := by
  constructor
  · rintro ⟨other, comma, final, lower, upper, code⟩
    obtain rfl : last = other := Option.some.inj (found.symm.trans final)
    cases trailing : trailingComma? source brackets last with
    | some _ => rfl
    | none =>
        have hidden := element.clear_of_none trailing comma lower upper
        rw [Source.isSignificant_of_codeAt code (by decide)] at hidden
        cases hidden
  · intro some
    obtain ⟨comma, trailing⟩ := Option.isSome_iff_exists.mp some
    obtain ⟨lower, upper, code, -⟩ := element.comma_of_some trailing
    exact ⟨last, comma, found, lower, upper, code⟩

/-- Elements in front of an insertion keep their texts. -/
theorem elementTexts_append {insertion : Insertion} {brackets brackets' : Span}
    (atEnd : insertion.AtEnd brackets) {more : List Span}
    (elements : insertion.result.elements brackets' =
      insertion.source.elements brackets ++ more) :
    elementTexts insertion.result brackets' =
      elementTexts insertion.source brackets ++
        more.map fun range => insertion.result.slice range.start range.stop := by
  rw [elementTexts, elements, List.map_append, elementTexts]
  refine congrArg (· ++ _) (List.map_congr_left fun range member => ?_)
  have bounds := Source.mem_elementsIn_bounds (atEnd.elements_eq ▸ member)
  obtain ⟨length, stop⟩ := Nat.exists_eq_add_of_lt bounds.2.1
  rw [stop, Nat.add_assoc]
  exact Source.slice_congr fun index inside => insertion.cells_before (by omega)

/-! ### Insertions at the end of an array -/

section

variable {text : String} {brackets last : Span}

/-- A comma behind the last element is one comma more, and no element. -/
theorem comma_added {before after : List Char} {middle : Mode}
    (element : LastElement (Source.ofText text) brackets last)
    (spot : Spot text commaFragment last.stop before after middle) :
    elementTexts (Source.ofText (joined before commaFragment after))
        ⟨brackets.start, brackets.stop + 1⟩ =
      elementTexts (Source.ofText text) brackets ∧
    commaCount (Source.ofText (joined before commaFragment after))
        ⟨brackets.start, brackets.stop + 1⟩ =
      commaCount (Source.ofText text) brackets + 1 := by
  have atEnd := comma_atEnd element spot
  have width : spot.insertion.width = 1 := commaFragment_size
  have own : (Source.commas 0 (commaFragment.source.codeChars 0 1)).length = 1 := by
    decide +kernel
  have elements := atEnd.elements_commas commaFragment_onlyCommas
  have count := atEnd.length_commas spot.balanced
  rw [atEnd.pair_eq, width] at elements
  rw [width, spot.result_eq] at count
  constructor
  · have texts := @elementTexts_append _ _ _ atEnd [] (by
      rw [elements, List.append_nil])
    rw [spot.result_eq, List.map_nil, List.append_nil] at texts
    exact texts
  · exact count.trans (congrArg (_ + ·) own)

variable {token : Token} {blank tail : List Char}

theorem byteLength_blank (isBlank : IsBlank blank) :
    byteLength blank = blank.length := by
  refine Source.byteLength_of_single fun c member => ?_
  rcases isBlank c member with rfl | rfl | rfl <;> rfl

theorem byteLength_token (good : token.Good) :
    byteLength token.chars = token.cells.length := by
  have whole := @Token.good_fragment token [] [] good
    (fun _ none => nomatch none) (Or.inl rfl)
  have size := Fragment.source_size whole
  rw [Token.cells_fragment, Fragment.source, Source.ofText_size,
    String.toList_ofList, Token.chars_fragment] at size
  simpa using size

/-- The commas of a token and what is around it are the commas behind it. -/
theorem commas_fragment (good : token.Good) (isBlank : IsBlank blank)
    (isTail : IsTail tail) :
    (Source.commas 0 ((token.fragment blank tail).source.codeChars 0
      (token.fragment blank tail).source.size)).length = tail.length := by
  have code := Fragment.chars_code (Token.good_fragment good isBlank isTail)
  have split : Token.levelCommas (token.code ++ tail) = tail.length := by
    have own := good.single
    rw [Token.levelCommas] at own ⊢
    have level : Source.depthThrough 0 (Source.Marked.chars
        (token.code.map fun c => (0, c))) = 0 := by
      rw [Source.Marked.chars, List.map_map]
      exact (congrArg (Source.depthThrough 0) (List.map_id _)).trans
        (good.balanced.depth 0)
    rw [List.map_append, Source.commas_append, List.length_append, own, level]
    rcases isTail with rfl | rfl <;> rfl
  rw [Token.length_commas, code, Token.code_fragment, List.append_assoc]
  exact (Token.levelCommas_blank isBlank _).trans split

variable {previous place : Nat} {before after : List Char} {middle : Mode}

/-- An element that is put behind a bracket or comma is the last one, and brings the
commas that are put behind it. -/
theorem element_added (good : token.Good) (isBlank : IsBlank blank)
    (isTail : IsTail tail)
    (slot : Slot (Source.ofText text) brackets blank previous place)
    (spot : Spot text (token.fragment blank tail) place before after middle) :
    let width := blank.length + token.cells.length + tail.length
    let result := Source.ofText (joined before (token.fragment blank tail) after)
    let brackets' : Span := ⟨brackets.start, brackets.stop + width⟩
    Matched result brackets' ∧
    (result.elements brackets').getLast? =
      some ⟨place + blank.length, place + (blank.length + token.cells.length)⟩ ∧
    elementTexts result brackets' =
      elementTexts (Source.ofText text) brackets ++ [String.ofList token.chars] ∧
    commaCount result brackets' =
      commaCount (Source.ofText text) brackets + tail.length := by
  intro width result brackets'
  have atEnd := slot.atEnd spot
  have size : spot.insertion.width = width := by
    rw [spot.width_eq, Token.cells_fragment]
    simp only [List.length_append, List.length_map, width]
  have pair := atEnd.pair_eq
  have matched := Insertion.matched_shift spot.balanced atEnd.matched
  have elements := atEnd.elements_item (Token.isItem good isBlank isTail)
    spot.balanced slot.least slot.before slot.cut slot.clear
  have count := atEnd.length_commas spot.balanced
  rw [size] at pair
  rw [pair] at matched elements
  have texts := elementTexts_append atEnd elements
  rw [spot.result_eq] at matched elements texts
  refine ⟨matched, ?_, ?_, ?_⟩
  · rw [elements, List.getLast?_concat]
    rfl
  · refine texts.trans (congrArg (_ ++ ·) ?_)
    have parts : (joined before (token.fragment blank tail) after).toList =
        (before ++ blank) ++ token.chars ++ (tail ++ after) := by
      rw [joined, String.toList_ofList, Token.chars_fragment]
      simp only [List.append_assoc]
    have slice := Source.slice_between parts
    rw [Source.byteLength_append, spot.cut.place, byteLength_blank isBlank,
      byteLength_token good, Nat.add_assoc] at slice
    exact congrArg (fun word => [word]) slice
  · rw [size, spot.result_eq] at count
    refine count.trans (congrArg (_ + ·) ?_)
    rw [← size]
    exact commas_fragment good isBlank isTail

/-- Whichever way an element is added, there is one comma more, and a comma behind
the last element if there was one before. -/
theorem Extends.kept {final : String}
    (extended : Extends token text brackets last final) (good : token.Good)
    (element : LastElement (Source.ofText text) brackets last)
    (found : ((Source.ofText text).elements brackets).getLast? = some last) :
    ∃ stop, Matched (Source.ofText final) ⟨brackets.start, stop⟩ ∧
      elementTexts (Source.ofText final) ⟨brackets.start, stop⟩ =
        elementTexts (Source.ofText text) brackets ++ [String.ofList token.chars] ∧
      commaCount (Source.ofText final) ⟨brackets.start, stop⟩ =
        commaCount (Source.ofText text) brackets + 1 ∧
      (EndsInComma (Source.ofText final) ⟨brackets.start, stop⟩ ↔
        EndsInComma (Source.ofText text) brackets) := by
  have before := endsInComma_iff element found
  cases extended with
  | @behindComma blank comma previous place _ _ _ isBlank trailing order slot spot =>
      obtain ⟨matched, ends, texts, count⟩ :=
        element_added good isBlank (Or.inr rfl) slot spot
      have upper := slot.upper
      have cells := Fragment.source_cells spot.fit.good
      rw [Token.cells_fragment] at cells
      have code : (token.fragment blank [',']).source.codeAt?
          (blank.length + token.cells.length) = some ',' := by
        rw [codeAt_eq, cells]
        simp [codeOf, codeCell]
      refine ⟨_, matched, texts, count, iff_of_true ⟨_, _, ends, Nat.le_refl _, ?_,
        (spot.codeAt_inside ?_).trans code⟩ (before.mpr (by rw [trailing]; rfl))⟩
      · simp only [List.length_singleton]
        omega
      · simp [Token.cells_fragment]
  | @behindElement blank previous place front behind _ _ _ isBlank none order spot
      slot later =>
      obtain ⟨matched, ends, texts, count⟩ :=
        element_added good isBlank (Or.inl rfl) slot later
      obtain ⟨texts', count'⟩ := comma_added element spot
      rw [texts'] at texts
      rw [count'] at count
      refine ⟨_, matched, texts, count, iff_of_false ?_ ?_⟩
      · rintro ⟨other, comma, last', lower, upper, code⟩
        obtain rfl := Option.some.inj (ends.symm.trans last')
        have width : (token.fragment blank []).cells.length =
            blank.length + token.cells.length := by
          simp [Token.cells_fragment]
        simp only [List.length_nil] at lower upper
        -- nothing is behind the element but what was behind the one before
        obtain ⟨position, rfl⟩ := Nat.exists_eq_add_of_le lower
        rw [Nat.add_right_comm, ← width, later.codeAt_behind (Nat.le_add_right _ _)]
          at code
        obtain ⟨old, same⟩ : ∃ old, place + position = old + 1 :=
          ⟨place + position - 1, by omega⟩
        rw [same] at code
        have here := code.symm.trans (@Spot.codeAt_behind _ _ _ _ _ _ spot old
          (by omega))
        have hidden := element.clear_of_none none old (by omega) (by omega)
        rw [Source.isSignificant_of_codeAt here.symm (by decide)] at hidden
        cases hidden
      · rw [before, none]
        exact Bool.false_ne_true

end

/-! ### Literals that are broken off -/

/-- If the last element is not inside of a literal that is broken off, no literal is
up to the end of the array. -/
theorem closedIn_of_element {text : String} {brackets last : Span}
    (element : LastElement (Source.ofText text) brackets last)
    (ended : ∀ literal ∈ (Source.ofText text).literals, literal.closed = false →
      ¬(literal.start < last.stop ∧ last.stop ≤ literal.stop)) :
    Source.ClosedIn (Source.ofText text) (last.stop - 1) brackets.stop := by
  intro literal member behind within
  cases closed : literal.closed with
  | true => rfl
  | false =>
      have order := element.order
      have nonempty := (Source.literal_inside member).1
      have late : last.stop ≤ literal.start := by
        by_contra early
        exact ended literal member closed ⟨by omega, by omega⟩
      obtain ⟨c, cell, mark⟩ := Source.mark_of_start member
      have significant : (Source.ofText text).isSignificant literal.start := by
        simp [Source.isSignificant, cell, Source.isSpace_of_isMark mark]
      have code := element.only literal.start late (by omega) significant
      have none := Source.codeAt_none_of_literal member (Nat.le_refl _) nonempty
      rw [none] at code
      cases code

/-! ### Tokens -/

/-- The elements that are added to arrays: a target, a product of another package,
and a package by its place. -/
inductive Built : String → Prop
  | target (name : String) : Built (quote name)
  | product (name owner : String) :
      Built (".product(name: " ++ quote name ++ ", package: " ++ quote owner ++ ")")
  | remote (url version : String) :
      Built (".package(url: " ++ quote url ++ ", from: " ++ quote version ++ ")")
  | relative (path : String) : Built (".package(path: " ++ quote path ++ ")")

theorem built_of_token {context : ProductContext} {floor : String}
    {written : DeclarationToken} (made : context.token floor = .ok written) :
    Built written.text := by
  rw [ProductContext.token] at made
  split at made <;> cases made
  · exact .remote _ _
  · exact .relative _

theorem Built.token {written : String} (built : Built written) :
    ∃ token : Token, token.Good ∧ written.toList = token.chars := by
  cases built with
  | target name =>
      exact ⟨Token.bare name, bare_good name, by simp [Token.chars, Token.bare]⟩
  | product name owner =>
      exact ⟨_, (productToken_calls name owner).good, product_chars name owner⟩
  | remote url version =>
      exact ⟨_, (introduces_url url version).good,
        pair_chars (by decide +kernel) (by decide +kernel) url version⟩
  | relative path => exact ⟨_, (introduces_path path).good, path_chars path⟩

theorem quote_single (value : String) : '\n' ∉ (quote value).toList := by
  rw [quote, String.toList_ofList]
  simp only [List.mem_cons, List.mem_append, List.mem_flatMap, List.not_mem_nil,
    or_false, not_or, not_exists, not_and]
  refine ⟨by decide, fun c _ => ?_, by decide⟩
  rw [quoteChar]
  split
  · decide
  · split
    · decide
    · split
      · decide
      · rename_i other
        simpa using Ne.symm other

/-- An element that is added is written on one line. -/
theorem Built.single {written : String} (built : Built written) :
    '\n' ∉ written.toList := by
  cases built <;>
    simp [String.toList_append, quote_single]

/-! ### Styles -/

/-- What an array with elements is after an element has been added in its style. -/
structure Styled (text final : String) (brackets brackets' last : Span)
    (token : String) : Prop where
  start : brackets'.start = brackets.start
  partner : (Source.ofText final).partner? brackets'.start = some brackets'.stop
  texts : elementTexts (Source.ofText final) brackets' =
    elementTexts (Source.ofText text) brackets ++ [token]
  commas : commaCount (Source.ofText final) brackets' =
    commaCount (Source.ofText text) brackets + 1
  ending : EndsInComma (Source.ofText final) brackets' ↔
    EndsInComma (Source.ofText text) brackets
  lines : (∀ position, last.stop ≤ position → position < brackets.stop →
      (Source.ofText text).charAt? position ≠ some '\n') →
    final.toList.count '\n' = text.toList.count '\n'

theorem count_applyEdits {text : String} {edits : List Edit} {c : Char}
    (lacks : ∀ edit ∈ edits, c ∉ edit.text.toList) :
    (applyEdits text edits).toList.count c = text.toList.count c := by
  have none : c ∉ edits.flatMap fun edit => edit.text.toList := by
    simpa only [List.mem_flatMap, not_exists, not_and] using lacks
  rw [(applyEdits_perm text edits).count_eq, List.count_append,
    List.count_eq_zero.mpr none, Nat.zero_add]

/-- On one line nothing is added that starts another one. -/
theorem lines_inline {source : Source} {brackets last : Span} {token : String}
    (single : '\n' ∉ token.toList)
    (line : ¬source.spansLines last.stop brackets.stop) :
    ∀ edit ∈ appendInsertion source brackets last token,
      '\n' ∉ edit.text.toList := by
  rw [appendInsertion, if_neg line]
  split <;> simp_all [String.toList_append]

/-- An element is added to an array in the style of the array: behind the others
and as it is written, with one comma more, with a comma behind it exactly if there
was one behind the last element, and without a new line if the array ended on the
line of its last element. -/
theorem arrayInsertion_styled {text token : String} {brackets last : Span}
    (closes : (Source.ofText text).partner? brackets.start = some brackets.stop)
    (found : ((Source.ofText text).elements brackets).getLast? = some last)
    (ended : ∀ literal ∈ (Source.ofText text).literals, literal.closed = false →
      ¬(literal.start < last.stop ∧ last.stop ≤ literal.stop))
    (built : Built token) :
    ∃ brackets', Styled text
      (applyEdits text (arrayInsertion (Source.ofText text) brackets token))
      brackets brackets' last token := by
  have element := lastElement_of_getLast (Source.matched_of_partner closes) found
  obtain ⟨written, good, same⟩ := built.token
  have closed := closedIn_of_element element ended
  obtain ⟨stop, matched, texts, commas, ending⟩ :=
    (extends_array good element closed same found).kept good element found
  rw [← same, String.ofList_toList] at texts
  refine ⟨⟨brackets.start, stop⟩,
    { start := rfl
      partner := Source.partner_of_matched matched
      texts := texts
      commas := commas
      ending := ending
      lines := fun clear => count_applyEdits ?_ }⟩
  have line : ¬(Source.ofText text).spansLines last.stop brackets.stop := by
    rw [Source.spansLines, List.any_eq_true]
    rintro ⟨position, member, lineBreak⟩
    obtain ⟨lower, upper⟩ := Source.mem_positions.mp member
    exact clear position lower (by omega) (by simpa using lineBreak)
  rw [arrayInsertion, found]
  exact lines_inline built.single line

/-- A line comment and a comma behind the last element, in a text with a literal that
is left open. -/
theorem arrayInsertion_styled_comment :
    ∃ brackets', Styled "\"open\n[\"A\", \"B\", // last\n]"
      (applyEdits "\"open\n[\"A\", \"B\", // last\n]"
        (arrayInsertion (Source.ofText "\"open\n[\"A\", \"B\", // last\n]") ⟨6, 25⟩
          (quote "C")))
      ⟨6, 25⟩ brackets' ⟨12, 15⟩ (quote "C") :=
  arrayInsertion_styled (by decide +kernel) (by decide +kernel) (by decide +kernel)
    (.target "C")

end PackageLayers.Manifest

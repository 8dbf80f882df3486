/-
Purpose: A comma behind the last element of an array, and a target as element.
Main exports: LastElement, comma_spot, comma_home, Token.bare, bare_dependency
-/
import PackageLayers.Proofs.Manifest.Slots

namespace PackageLayers.Manifest

open Source (Span Insertion Matched OnlyCommas Cut Mode asksAhead answersAhead
  asksBack isMark isNameChar isSpace)

/-!
If the last element of an array has no comma behind it, one is put there before
another element is added.  That adds no element.
-/

/-! ### The last element -/

/-- The last element of an array without a comma behind it. -/
structure LastElement (source : Source) (brackets last : Span) : Prop where
  matched : Matched source brackets
  lower : brackets.start < last.start
  order : last.start < last.stop
  upper : last.stop ≤ brackets.stop
  significant : source.isSignificant (last.stop - 1)
  only : OnlyCommas source last.stop brackets.stop

theorem lastElement_of_getLast {source : Source} {brackets last : Span}
    (matched : Matched source brackets)
    (found : (source.elements brackets).getLast? = some last) :
    LastElement source brackets last := by
  have member := List.mem_of_getLast? found
  have bounds := Source.mem_elementsIn_bounds (Source.elements_eq ▸ member)
  obtain ⟨slot, -, trimmed⟩ := List.mem_filterMap.mp member
  obtain ⟨-, final, final_eq, stop⟩ := Source.trimmed_eq_some_iff.mp trimmed
  refine
    { matched := matched
      lower := bounds.1
      order := bounds.2.1
      upper := bounds.2.2
      significant := ?_
      only := Source.onlyCommas_of_last (by rw [found]; exact Nat.le_refl _) }
  rw [stop, Nat.add_sub_cancel]
  exact (Source.last_eq_some_iff.mp final_eq).2.2.1

namespace LastElement

variable {source : Source} {brackets last : Span}

/-- Nothing counts between the last element and the closing bracket if there is
no comma. -/
theorem clear_of_none (element : LastElement source brackets last)
    (none : trailingComma? source brackets last = none) :
    ∀ position, last.stop ≤ position → position < brackets.stop →
      source.isSignificant position = false := by
  rw [trailingComma?] at none
  cases found : source.lastSignificant? last.stop brackets.stop with
  | none => exact Source.last_eq_none_iff.mp found
  | some position =>
      obtain ⟨lower, upper, significant, -⟩ := Source.last_eq_some_iff.mp found
      have comma := Source.charAt_of_codeAt
        (element.only position lower upper significant)
      rw [found] at none
      simp [comma] at none

/-- The comma behind the last element is the last thing that counts. -/
theorem comma_of_some (element : LastElement source brackets last) {comma : Nat}
    (found : trailingComma? source brackets last = some comma) :
    last.stop ≤ comma ∧ comma < brackets.stop ∧
      source.codeAt? comma = some ',' ∧
      ∀ position, comma < position → position < brackets.stop →
        source.isSignificant position = false := by
  rw [trailingComma?, Option.filter_eq_some_iff] at found
  obtain ⟨lower, upper, significant, clear⟩ :=
    Source.last_eq_some_iff.mp found.1
  exact ⟨lower, upper, element.only comma lower upper significant, clear⟩

end LastElement

/-! ### The comma -/

/-- A comma as a fragment. -/
def commaFragment : Fragment := ⟨[','], []⟩

theorem commaFragment_fit : commaFragment.Fit where
  good :=
    { lead := List.all_iff_forall_prop.mp (by decide)
      rest := fun _ member => nomatch member
      between := fun _ member => nomatch member }
  balanced := Source.Balanced.of_plain (List.all_iff_forall_prop.mp (by decide))
  last := ⟨[], codeCell ',', rfl, fun c member => by cases member; decide⟩
  filled := ⟨codeCell ',', List.mem_singleton_self _, by decide⟩

theorem commaFragment_leads : commaFragment.Leads :=
  ⟨codeCell ',', [], rfl, fun c member => by cases member; decide⟩

theorem commaFragment_silent : commaFragment.Silent := by
  have lacks {word : List Char} (good : Source.isWord word) :
      commaFragment.Lacks word := by
    refine ⟨fun inside => ?_, fun _ member => nomatch member⟩
    have filled := Source.Words.filled good
    rcases @infix_of_not_mem _ _ [] [] _ inside fun here =>
        (Token.visible_of_isWord good _ here).2 rfl with none | none <;>
      exact filled (List.infix_nil.mp none)
  exact
    { calls := fun name sought => lacks (isWord_of_sought sought)
      declares := lacks (by decide)
      package := lacks (by decide) }

theorem commaFragment_size : commaFragment.source.size = 1 :=
  Fragment.source_size commaFragment_fit.good

theorem commaFragment_code {position : Nat}
    (inside : position < commaFragment.source.size) :
    commaFragment.source.codeAt? position = some ',' := by
  rw [commaFragment_size, Nat.lt_one_iff] at inside
  rw [inside, codeAt_eq, Fragment.source_cell commaFragment_fit.good]
  rfl

theorem commaFragment_onlyCommas :
    OnlyCommas commaFragment.source 0 commaFragment.source.size :=
  fun _ _ inside _ => commaFragment_code inside

section

variable {text : String} {brackets last : Span}

/-- A comma is put at a spot behind the last element, unless that ends in a literal
that is broken off. -/
theorem comma_spot (element : LastElement (Source.ofText text) brackets last)
    (closed : Source.ClosedIn (Source.ofText text) (last.stop - 1) brackets.stop)
    (none : trailingComma? (Source.ofText text) brackets last = none) :
    ∃ before after, Spot text commaFragment last.stop before after .code := by
  obtain ⟨c, kind, stop, closes⟩ := closing_of_matched element.matched
  have positive := element.order
  have within := Source.lt_size_of_codeAt stop
  have upper := element.upper
  obtain ⟨before, after, cut⟩ := Source.cut_behind_last closed (by omega)
      element.significant stop fun other lower upper =>
      element.clear_of_none none other (by omega) upper
  rw [Nat.sub_add_cancel (by omega)] at cut
  refine ⟨before, after,
    { fit := commaFragment_fit
      cut := cut
      calm := Or.inl rfl
      starts := cut.pos_iff.mp (by omega)
      ends := cut.lt_size_iff.mp (by omega)
      apartBefore := ?_
      apartAfter := ?_ }⟩
  · intro left _ right head
    cases head
    simp [Source.clashes]
  · intro left tail right _
    have comma : ',' = left := by
      simpa [commaFragment, Fragment.chars] using tail
    subst comma
    simp [Source.clashes]

variable {before after : List Char} {middle : Mode}

theorem comma_not_joinsAt (closed : Source.AllClosed (Source.ofText text))
    (element : LastElement (Source.ofText text) brackets last)
    (none : trailingComma? (Source.ofText text) brackets last = none) :
    ¬Source.JoinsAt (Source.ofText text) last.stop := by
  rintro ⟨left, right, positive, front, here, joins⟩
  obtain ⟨c, kind, stop, closes⟩ := closing_of_matched element.matched
  rcases Nat.eq_or_lt_of_le element.upper with equal | inside
  · rw [equal, Source.charAt_of_codeAt stop, Option.some.injEq] at here
    subst here
    have known := closing_calm closes
    simp [Source.joins, known] at joins
  · obtain ⟨cell, there⟩ : ∃ cell,
        (Source.ofText text).cells[last.stop]? = some cell :=
      ⟨_, Array.getElem?_eq_getElem (Source.lt_size_of_charAt here)⟩
    obtain ⟨final, ends⟩ : ∃ final,
        (Source.ofText text).cells[last.stop - 1]? = some final :=
      ⟨_, Array.getElem?_eq_getElem
        (Source.lt_size_of_isSignificant element.significant)⟩
    have char : cell.char? = some right := by
      rw [Source.charAt?, there, Option.bind_some] at here
      exact here
    have hidden := element.clear_of_none none last.stop (Nat.le_refl _) inside
    have seen := element.significant
    rw [isSignificant_eq, there] at hidden
    rw [isSignificant_eq, ends] at seen
    have dull : right = '/' ∨ isSpace right := by
      cases kind : cell.cls with
      | comment =>
          left
          have slash := (Source.regular_ofText closed).enterComment
            (last.stop - 1) final cell ends
            (by rw [Nat.sub_add_cancel positive]; exact there)
            (fun comment => by simp [isVisible, comment] at seen) kind
          rw [char, Option.some.injEq] at slash
          exact slash
      | _ =>
          right
          simpa [isVisible, kind, char] using hidden
    have quiet : isNameChar right = false ∧ right ≠ '=' := by
      rcases dull with rfl | space
      · decide
      · constructor
        · cases name : isNameChar right with
          | false => rfl
          | true =>
              rw [isSpace_of_holds (List.all_iff_forall_prop.mp (by decide)) name] at space
              cases space
        · rintro rfl
          cases space
    simp [Source.joins, quiet] at joins

theorem comma_seam (element : LastElement (Source.ofText text) brackets last)
    (none : trailingComma? (Source.ofText text) brackets last = none)
    (site : Site text commaFragment last.stop before after middle) :
    site.insertion.Seam := by
  obtain ⟨c, kind, stop, closes⟩ := closing_of_matched element.matched
  have calm := closing_calm closes
  refine site.seam (comma_not_joinsAt site.closed element none)
    (fun position d order code asks clear => ⟨fun next found => ?_,
      fun first found => ?_⟩)
    (fun position d behind code asks clear =>
      (calm_back element.matched element.only element.upper behind code asks
        clear).elim)
  · obtain ⟨lower, -, significant, first⟩ := Source.next_eq_some_iff.mp found
    have equal : next = brackets.stop := by
      rcases Nat.lt_trichotomy next brackets.stop with early | equal | late
      · rw [element.clear_of_none none next lower early] at significant
        cases significant
      · exact equal
      · have hidden := first brackets.stop element.upper late
        rw [Source.isSignificant_of_codeAt stop calm.1] at hidden
        cases hidden
    rw [equal]
    exact ⟨c, stop, by rw [calm.2.2.2.1]; rfl⟩
  · exact ⟨',', commaFragment_code (Source.next_eq_some_iff.mp found).2.1,
      by decide⟩

/-- A comma behind the last element is put at the end of the array. -/
theorem comma_atEnd (element : LastElement (Source.ofText text) brackets last)
    (spot : Spot text commaFragment last.stop before after middle) :
    spot.insertion.AtEnd brackets where
  matched := element.matched
  lower := Nat.lt_trans element.lower element.order
  upper := element.upper
  only := element.only

theorem comma_home (element : LastElement (Source.ofText text) brackets last)
    (none : trailingComma? (Source.ofText text) brackets last = none)
    (site : Site text commaFragment last.stop before after middle)
    {block : Block} (member : block ∈ blocksOf (Source.ofText text))
    (argument : block.argument = .array brackets) :
    Home site.insertion block brackets where
  seam := comma_seam element none site
  member := member
  argument := argument
  atEnd := comma_atEnd element site.toSpot

end

/-! ### A target as element -/

/-- The name of a target as a token. -/
def Token.bare (value : String) : Token := ⟨[], [], value, []⟩

theorem bare_good (value : String) : (Token.bare value).Good where
  plain := fun _ member => nomatch member
  between := fun _ member => nomatch member
  starts := fun _ member => nomatch member
  ends := fun _ member => nomatch member
  balanced := Source.Balanced.nil
  single := rfl

theorem bare_lacks (value : String) {word : List Char} (filled : word ≠ []) :
    (Token.bare value).Lacks word :=
  ⟨fun inside => filled (List.infix_nil.mp inside),
    (fun _ member => nomatch member),
    fun inside => filled (List.infix_nil.mp inside)⟩

section

variable {text : String} {blank tail : List Char} {place : Nat}
  {before after : List Char} {middle : Mode}

/-- The name of a target as element is read as that target. -/
theorem bare_dependency {value : String}
    (site : Site text ((Token.bare value).fragment blank tail) place before after
      middle) (seam : site.insertion.Seam) (stop : Nat) :
    dependencyIn? site.insertion.result ⟨place + blank.length, stop⟩ =
      some (.bare value) := by
  have good := site.fit.good
  have literal := @Fragment.literalAt _ good [] _ _ _ rfl blank.length
      (by simp [Fragment.cells, Token.fragment, Token.bare])
  have inner : blank.length < site.insertion.width := by
    rw [site.width_eq, Token.cells_fragment]
    obtain ⟨cell, rest, cells, -⟩ := Token.cells_first (bare_good value)
    simp [cells]
  have here := seam.literalAt_place inner
  have known : site.insertion.fragment.literalAt? blank.length = some _ :=
    literal
  rw [known, Option.map_some, Option.map_eq_some_iff] at here
  obtain ⟨quoted, found, same⟩ := here
  rw [dependencyIn?]
  have at_place : site.insertion.result.literalAt? (place + blank.length) =
      some quoted := found
  rw [at_place]
  simp only [same]
  rfl

end

end PackageLayers.Manifest

/-
Purpose: Giving a target that has no argument `dependencies` its first entry.
Main exports: Gap, Gap.gains, Gap.gains_entry
-/
import PackageLayers.Proofs.Manifest.Arrays
import PackageLayers.Proofs.Manifest.NewArgument

namespace PackageLayers.Manifest

open Source (Span Mode isMark isNameChar asksAhead answersBack)

/-!
The edit that gives a target its first dependency writes a whole argument.  It is
taken as two insertions: an argument with an empty array, and an element in that
array.  The first one says nothing that an outline is made from but that the
dependencies of the target are an array without entries.
-/

/-! ### Its place -/

/-- A place for an argument in a call: behind a value or a comma, with nothing
that counts between. -/
structure Gap (source : Source) (parens : Span) (previous place : Nat) : Prop
    extends Inside source parens place where
  before : previous < place
  significant : source.isSignificant previous
  char : ∃ c, source.charAt? previous = some c ∧ (isMark c ∨ c = ',')
  clear : ∀ position, previous < position → position < place →
    source.isSignificant position = false
  apart : ¬Source.JoinsAt source place

/-- A mark or comma neither asks nor answers. -/
theorem calm_of_mark {c : Char} (kinds : isMark c ∨ c = ',') :
    asksAhead c = false ∧ answersBack c = false ∧
      ∀ d, Source.joins c d = false := by
  simp only [isMark, Bool.or_eq_true, decide_eq_true_eq] at kinds
  rcases kinds with (rfl | rfl) | rfl <;>
    exact ⟨by decide, by decide, fun d => by simp [Source.joins, isNameChar]⟩

section

variable {text : String} {parens : Span} {lead inner tail : List Char}
  {previous place : Nat} {before after : List Char} {middle : Mode}

/-- The argument is read on its own behind a value or a comma. -/
theorem Gap.seam (gap : Gap (Source.ofText text) parens previous place)
    (margins : Margins lead inner tail)
    (site : Site text (argumentFragment lead inner tail) place before after
      middle) : site.insertion.Seam := by
  obtain ⟨c, char, kinds⟩ := gap.char
  have calm := calm_of_mark kinds
  refine site.seam gap.apart (fun position d order code asks clear => ?_)
    (fun position d behind code asks clear => ⟨fun last found e here => ?_,
      fun last found e here => ?_⟩)
  · exfalso
    rcases Nat.lt_trichotomy position previous with early | equal | late
    · have hidden := clear previous early gap.before
      rw [gap.significant] at hidden
      cases hidden
    · rw [equal] at code
      rw [Source.charAt_of_codeAt code, Option.some.injEq] at char
      rw [char, calm.1] at asks
      cases asks
    · have hidden := gap.clear position late order
      rw [Source.isSignificant_of_codeAt code
        (isSpace_of_holds (List.all_iff_forall_prop.mp (by decide)) asks)] at hidden
      cases hidden
  · obtain ⟨-, upper, seen, none⟩ := Source.last_eq_some_iff.mp found
    have same : last = previous := by
      rcases Nat.lt_trichotomy last previous with early | equal | late
      · have hidden := none previous early gap.before
        rw [gap.significant] at hidden
        cases hidden
      · exact equal
      · rw [gap.clear last late upper] at seen
        cases seen
    rw [same, char, Option.some.injEq] at here
    rw [← here, calm.2.1]
    rfl
  · obtain ⟨final, code, ends⟩ := margins.last_significant found
    rw [Source.charAt_of_codeAt code, Option.some.injEq] at here
    rw [← here]
    rcases ends with rfl | rfl <;> rfl

end

theorem label_of_absent {source : Source} {parens : Span}
    (absent : dependencyArgument source parens = .absent) :
    source.label? parens "dependencies" = none := by
  rw [dependencyArgument] at absent
  split at absent
  · assumption
  · split at absent <;> cases absent

section

variable {text : String} {block : Block} {lead inner tail : List Char}
  {previous place : Nat} {before after : List Char} {middle : Mode}

/-- A target that has no dependencies gets an empty array for them, and
everything else stays. -/
theorem Gap.gains (gap : Gap (Source.ofText text) block.parens previous place)
    (margins : Margins lead inner tail) (filled : lead ≠ [])
    (site : Site text (argumentFragment lead inner tail) place before after
      middle)
    (member : block ∈ blocksOf (Source.ofText text))
    (argument : block.argument = .absent) :
    Gains text (joined before (argumentFragment lead inner tail) after) block [] ∧
      Quiet site.insertion ∧
      (∀ other ∈ blocksOf site.insertion.source,
        (other.moved site.insertion).target = other.target) ∧
      (block.moved site.insertion).argument =
        .array (argumentBrackets lead inner place) := by
  have written := written_of_mem member
  have inside := gap.toInside
  have seam := gap.seam margins site
  have quiet := inside.quiet margins site seam
  have array : dependencyArgument site.insertion.result
      (site.insertion.pair block.parens) =
        .array (argumentBrackets lead inner place) := by
    have found := inside.labelArray_argument margins site seam
      (fun none => absurd none filled)
      (label_of_absent (written.argument.symm.trans argument))
    rw [dependencyArgument_eq, found]
  have still : ∀ other ∈ blocksOf site.insertion.source,
      (other.moved site.insertion).target = other.target := by
    intro other here
    have known : Written site.insertion.source other := written_of_mem here
    by_cases same : other.parens.start = block.parens.start
    · obtain rfl := eq_of_start here member same
      have entries : entriesIn site.insertion.result
          (argumentBrackets lead inner place) = [] := by
        rw [entriesIn, Inside.elements_argument margins site, List.map_nil]
      have old : other.target.dependencies = [] := by
        rw [written.dependencies, written.entries, argument]
        rfl
      simp only [Block.moved, array, DependencyArgument.entries, entries,
        List.filterMap_nil]
      rw [← old]
    · exact inside.still_other margins site seam known same
  refine ⟨⟨site.closed_result, ?_, ?_⟩, quiet, still, array⟩
  · have unmoved := package_shift quiet
      (margins.silent.declares.occurrences margins.good (by decide))
    rw [site.result_eq] at unmoved
    exact unmoved
  · rw [Outline.ofText, ofSource_targets, ← site.result_eq, blocks_shift quiet,
      List.map_map]
    refine List.map_congr_left fun other here => ?_
    rw [grownAt, Target.grown_nil, ite_self]
    exact still other here

/-- An argument with one entry, put into the call of a target that has none. -/
theorem Gap.gains_entry {token : Token} {dependency : Dependency}
    (writes : Writes token dependency)
    (gap : Gap (Source.ofText text) block.parens previous place)
    (margins : Margins lead [] tail) (filled : lead ≠ [])
    (site : Site text (argumentFragment lead [] tail) place before after middle)
    (member : block ∈ blocksOf (Source.ofText text))
    (argument : block.argument = .absent) :
    Gains text (String.ofList (before ++ (lead ++ argumentOpening ++
      token.chars ++ ']' :: tail) ++ after)) block [dependency] := by
  obtain ⟨first, quiet, still, array⟩ :=
    gap.gains margins filled site member argument
  have matched := Inside.matched_argument margins site
  have only := Inside.only_argument margins site
  have found : block.moved site.insertion ∈ blocksOf
      (Source.ofText (joined before (argumentFragment lead [] tail) after)) := by
    rw [← site.result_eq, blocks_shift quiet]
    exact List.mem_map_of_mem member
  rw [site.result_eq] at matched only
  have isBlank : IsBlank [] := fun _ none => nomatch none
  obtain ⟨_, front, behind, mode, slot, spot⟩ := @spot_behind _ _ token writes.good
    matched [] [] isBlank (Or.inl rfl) (place + (lead.length + 14))
    (place + (lead.length + 15)) (fun literal member _ =>
      site.closed_result literal member) (Nat.le_refl _) (Or.inl rfl) only (by omega)
    (Nat.le_refl _) (Or.inl rfl)
  have second := slot.gains writes (spot.site site.closed_result
    (Token.leads writes.good isBlank)) isBlank (Or.inl rfl) found array
  have cut := spot.cut
  have result : joined front (token.fragment [] []) behind =
      String.ofList (front ++ token.chars ++ behind) := by
    rw [joined, Token.chars_fragment, List.nil_append, List.append_nil]
  rw [result] at second
  have size := byteLength_opening margins.lead
  have parts : before ++ (lead ++ argumentOpening) ++
      (']' :: tail ++ after) = front ++ behind := by
    rw [← cut.parts, joined, String.toList_ofList, argument_chars]
    simp only [List.append_assoc, List.cons_append, List.nil_append]
  obtain ⟨rfl, rfl⟩ := parts_of_byteLength parts (by
    rw [Source.byteLength_append, site.cut.place, size, cut.place])
  have whole := first.behind quiet rfl site.result_eq still second
  simp only [List.append_assoc, List.cons_append] at whole ⊢
  exact whole

end

end PackageLayers.Manifest

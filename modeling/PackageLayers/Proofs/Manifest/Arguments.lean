/-
Purpose: Arguments of calls after an insertion.
Main exports: value_shift, labelLiteral_shift, labelArray_shift,
  argument_shift, argument_unique
-/
import PackageLayers.Manifest.Outline
import PackageLayers.Proofs.Source.Homes

namespace PackageLayers.Manifest

open Source (Span Quoted Insertion isName answersAhead Matched Labelled)

/-!
The value of an argument is what follows the colon of its label.  It moves with
the label, and a colon that was followed by no literal and no bracket still is.
-/

/-- What follows the label of an argument. -/
def value? (source : Source) (parens : Span) (label : String) : Option Nat :=
  (source.label? parens label).bind fun after =>
    source.nextSignificant? after parens.stop

section

variable {source : Source} {parens : Span} {label : String}

theorem labelLiteral_eq : labelLiteral? source parens label =
    (value? source parens label).bind source.literalAt? := by
  simp only [labelLiteral?, value?, Option.bind_eq_bind, Option.bind_assoc]

theorem labelArray_eq : labelArray? source parens label =
    (value? source parens label).bind (arrayAt? source) := by
  simp only [labelArray?, value?, Option.bind_eq_bind, Option.bind_assoc]

/-- A literal that is the value of an argument. -/
theorem literal_of_labelLiteral {quoted : Quoted}
    (found : labelLiteral? source parens label = some quoted) :
    value? source parens label = some quoted.start ∧
      source.literalAt? quoted.start = some quoted ∧
      ∃ literal ∈ source.literals,
        literal.start = quoted.start ∧ literal.stop = quoted.stop := by
  rw [labelLiteral_eq, Option.bind_eq_some_iff] at found
  obtain ⟨value, here, there⟩ := found
  have quotes := there
  rw [Source.literalAt_eq, Option.map_eq_some_iff] at quotes
  obtain ⟨literal, first, rfl⟩ := quotes
  have start := List.find?_some first
  rw [beq_iff_eq] at start
  subst start
  exact ⟨here, there, literal, List.mem_of_find?_eq_some first, rfl, rfl⟩

theorem value_eq_some {value : Nat} (names : label.toList.all Source.isNameChar)
    (found : value? source parens label = some value) :
    ∃ position c colon, position ∈ source.topLevel parens ∧
      source.codeAt? position = some c ∧
      Labelled source parens.stop label.toList position colon ∧
      source.nextSignificant? (colon + 1) parens.stop = some value := by
  obtain ⟨after, here, next⟩ := Option.bind_eq_some_iff.mp found
  obtain ⟨position, c, colon, member, code, labelled, rfl⟩ :=
    Source.label_eq_some names here
  exact ⟨position, c, colon, member, code, labelled, next⟩

/-- A value has one label, in one pair of parentheses. -/
theorem value_unique (regular : Source.Regular source) {parens' : Span}
    {label' : String} {value : Nat} (name : isName label) (name' : isName label')
    (matched : Matched source parens) (matched' : Matched source parens')
    (found : value? source parens label = some value)
    (found' : value? source parens' label' = some value) :
    parens.start = parens'.start ∧ label = label' := by
  obtain ⟨names, filled⟩ := Source.names_of_isName name
  obtain ⟨names', filled'⟩ := Source.names_of_isName name'
  obtain ⟨position, c, colon, member, code, labelled, next⟩ :=
    value_eq_some names found
  obtain ⟨position', c', colon', member', code', labelled', next'⟩ :=
    value_eq_some names' found'
  have here := labelled.colon_code regular names filled code
  have there := labelled'.colon_code regular names' filled' code'
  obtain rfl := Source.eq_of_next
    (Source.isSignificant_of_codeAt here rfl)
    (Source.isSignificant_of_codeAt there rfl) next next'
  obtain ⟨rfl, same⟩ := labelled.unique regular names names' filled filled' code
    code' labelled'
  have around := Source.enclosing_of_topLevel matched member
  rw [Source.enclosing_of_topLevel matched' member'] at around
  exact ⟨(Option.some.inj around).symm, String.toList_inj.mp same⟩

/-- The value of an argument stands directly inside of the parentheses. -/
theorem level_of_value (regular : Source.Regular source) (name : isName label)
    {value : Nat} (found : value? source parens label = some value) :
    parens.start < value ∧ value < parens.stop ∧
      Source.depthThrough 0 (Source.Marked.chars
        (source.codeChars (parens.start + 1) value)) = 0 := by
  obtain ⟨names, filled⟩ := Source.names_of_isName name
  obtain ⟨position, c, colon, member, code, labelled, next⟩ :=
    value_eq_some names found
  obtain ⟨lower, -, level, -⟩ := Source.mem_topLevel.mp member
  obtain ⟨after, -, -, clear⟩ := Source.next_eq_some_iff.mp labelled.next
  obtain ⟨behind, upper, -, clear'⟩ := Source.next_eq_some_iff.mp next
  have word := regular.code_of_stands names code labelled.stands
  refine ⟨by omega, upper, Source.level_extend lower (by omega) level ?_⟩
  intro other d above below code
  rcases Nat.lt_or_ge other (position + label.toList.length) with inside | late
  · obtain ⟨index, rfl⟩ := Nat.exists_eq_add_of_le above
    have here := List.getElem?_eq_getElem
      (by omega : index < label.toList.length)
    rw [word index _ here, Option.some.injEq] at code
    rw [List.all_eq_true] at names
    subst code
    exact Source.no_bracket_of_name (names _ (List.getElem_mem _))
  · rcases Nat.lt_trichotomy other colon with early | rfl | behind
    · exact Source.no_bracket_of_hidden code (clear other late early)
    · have sign := labelled.char
      rw [Source.charAt_of_codeAt code, Option.some.injEq] at sign
      rw [sign]
      rfl
    · exact Source.no_bracket_of_hidden code (clear' other behind below)

theorem arrayAt_eq_some {position : Nat} {brackets : Span}
    (found : arrayAt? source position = some brackets) :
    brackets.start = position ∧ Matched source brackets := by
  unfold arrayAt? at found
  split at found
  · obtain ⟨stop, partner, rfl⟩ := Option.map_eq_some_iff.mp found
    exact ⟨rfl, Source.matched_of_partner partner⟩
  · cases found

theorem labelArray_eq_some {brackets : Span}
    (found : labelArray? source parens label = some brackets) :
    value? source parens label = some brackets.start ∧
      Matched source brackets := by
  rw [labelArray_eq] at found
  obtain ⟨value, here, array⟩ := Option.bind_eq_some_iff.mp found
  obtain ⟨rfl, matched⟩ := arrayAt_eq_some array
  exact ⟨here, matched⟩

theorem opens_of_array {brackets : Span}
    (found : labelArray? source parens label = some brackets) :
    source.charAt? brackets.start = some '[' := by
  rw [labelArray_eq] at found
  obtain ⟨value, -, array⟩ := Option.bind_eq_some_iff.mp found
  rw [(arrayAt_eq_some array).1]
  unfold arrayAt? at array
  split at array
  · assumption
  · cases array

end

/-! ### Arguments move -/

/-- How dependencies are written, after an insertion. -/
def DependencyArgument.moved (insertion : Insertion) :
    DependencyArgument → DependencyArgument
  | .absent => .absent
  | .array brackets => .array (insertion.pair brackets)
  | .expression => .expression

section

variable {insertion : Insertion} {parens : Span} {label : String}

/-- A value moves, or is neither bracket nor literal before or after. -/
theorem value_shift (seam : insertion.Seam) (name : isName label)
    (order : parens.start < parens.stop)
    (keeps : insertion.Keeps parens label) :
    value? insertion.result (insertion.pair parens) label =
        (value? insertion.source parens label).map insertion.shift ∨
      (∃ next d,
        value? insertion.result (insertion.pair parens) label = some next ∧
        insertion.result.codeAt? next = some d ∧ !answersAhead d) ∧
      ∀ next, value? insertion.source parens label = some next →
        ∃ d, insertion.source.codeAt? next = some d ∧ !answersAhead d := by
  obtain ⟨names, filled⟩ := Source.names_of_isName name
  have moved := seam.label_shift name order keeps
  unfold value?
  cases found : insertion.source.label? parens label with
  | none =>
      rw [found] at moved
      rw [moved]
      exact Or.inl rfl
  | some after =>
      rw [found, Option.map_some] at moved
      obtain ⟨position, c, colon, -, code, labelled, rfl⟩ :=
        Source.label_eq_some names found
      have here := labelled.colon_code seam.regular names filled code
      rw [moved, Option.bind_some, Option.bind_some]
      exact seam.next_asked here rfl

theorem arrayAt_shift (seam : insertion.Seam) (position : Nat) :
    arrayAt? insertion.result (insertion.shift position) =
      (arrayAt? insertion.source position).map insertion.pair := by
  unfold arrayAt?
  rw [insertion.charAt_shift, Insertion.partner_shift seam.balanced]
  split
  · cases insertion.source.partner? position <;> rfl
  · rfl

theorem arrayAt_of_quiet {source : Source} {position : Nat} {c : Char}
    (code : source.codeAt? position = some c) (quiet : !answersAhead c) :
    arrayAt? source position = none := by
  rw [arrayAt?, Source.charAt_of_codeAt code, if_neg]
  intro bracket
  exact (Insertion.Seam.not_answersAhead quiet).2.2 (Option.some.inj bracket)

/-- A literal argument moves. -/
theorem labelLiteral_shift (seam : insertion.Seam) (name : isName label)
    (order : parens.start < parens.stop)
    (keeps : insertion.Keeps parens label) :
    labelLiteral? insertion.result (insertion.pair parens) label =
      (labelLiteral? insertion.source parens label).map
        (Quoted.moved insertion) := by
  rw [labelLiteral_eq, labelLiteral_eq]
  rcases value_shift seam name order keeps with
    moved | ⟨⟨next, d, found, code, -⟩, none⟩
  · rw [moved]
    cases value? insertion.source parens label with
    | none => rfl
    | some value => exact seam.literalAt_shift value
  · rw [found, Option.bind_some,
      Source.literalAt_of_codeAt seam.resultRegular code]
    cases here : value? insertion.source parens label with
    | none => rfl
    | some value =>
        obtain ⟨e, code', -⟩ := none value here
        rw [Option.bind_some, Source.literalAt_of_codeAt seam.regular code']
        rfl

/-- The text of a literal argument stays. -/
theorem labelText_shift (seam : insertion.Seam) (name : isName label)
    (order : parens.start < parens.stop)
    (keeps : insertion.Keeps parens label) :
    labelText? insertion.result (insertion.pair parens) label =
      labelText? insertion.source parens label := by
  rw [labelText?, labelText?, labelLiteral_shift seam name order keeps,
    Option.map_map]
  rfl

/-- An array argument moves. -/
theorem labelArray_shift (seam : insertion.Seam) (name : isName label)
    (order : parens.start < parens.stop)
    (keeps : insertion.Keeps parens label) :
    labelArray? insertion.result (insertion.pair parens) label =
      (labelArray? insertion.source parens label).map insertion.pair := by
  rw [labelArray_eq, labelArray_eq]
  rcases value_shift seam name order keeps with
    moved | ⟨⟨next, d, found, code, quiet⟩, none⟩
  · rw [moved]
    cases value? insertion.source parens label with
    | none => rfl
    | some value => exact arrayAt_shift seam value
  · rw [found, Option.bind_some, arrayAt_of_quiet code quiet]
    cases here : value? insertion.source parens label with
    | none => rfl
    | some value =>
        obtain ⟨e, code', quiet'⟩ := none value here
        rw [Option.bind_some, arrayAt_of_quiet code' quiet']
        rfl

theorem dependencyArgument_eq {source : Source} {parens : Span} :
    dependencyArgument source parens =
      match labelArray? source parens "dependencies" with
      | some brackets => .array brackets
      | none =>
          if (source.label? parens "dependencies").isSome then .expression
          else .absent := by
  simp only [dependencyArgument, labelArray?, Option.bind_eq_bind]
  cases source.label? parens "dependencies" with
  | none => rfl
  | some after =>
      cases array : (source.nextSignificant? after parens.stop).bind
          (arrayAt? source) with
      | none => simp [array]
      | some brackets => simp [array]

/-- How dependencies are written stays as it is. -/
theorem argument_shift (seam : insertion.Seam)
    (order : parens.start < parens.stop)
    (keeps : insertion.Keeps parens "dependencies") :
    dependencyArgument insertion.result (insertion.pair parens) =
      (dependencyArgument insertion.source parens).moved insertion := by
  rw [dependencyArgument_eq, dependencyArgument_eq,
    labelArray_shift seam (by decide) order keeps,
    seam.label_shift (by decide) order keeps, Option.isSome_map]
  cases labelArray? insertion.source parens "dependencies" with
  | some brackets => rfl
  | none =>
      simp only [Option.map_none]
      split <;> rfl

theorem array_of_argument {source : Source} {parens brackets : Span}
    (array : dependencyArgument source parens = .array brackets) :
    labelArray? source parens "dependencies" = some brackets := by
  rw [dependencyArgument_eq] at array
  split at array
  · rename_i found
    cases array
    exact found
  · split at array <;> cases array

end

end PackageLayers.Manifest

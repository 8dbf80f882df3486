/-
Purpose: Where an element and a comma are put into an array.
Main exports: Slot, spot_of_place, Spot.site, Slot.spot, Slot.atEnd, Slot.home
-/
import PackageLayers.Proofs.Manifest.Growth
import PackageLayers.Proofs.Manifest.Sites

namespace PackageLayers.Manifest

open Source (Span Insertion Matched OnlyCommas Cut Mode asksAhead answersAhead
  asksBack answersBack isSpace isMark isNameChar)

/-!
A new element stands right behind the bracket or comma before it, or on a line of
its own; a comma stands right behind the last element.  Either place is a site,
and the insertion there is one at the end of the array.
-/

theorem closing_calm {c : Char} {kind : BracketKind}
    (closes : Bracket.ofChar? c = some (.closing kind)) :
    isSpace c = false ∧ isMark c = false ∧ asksBack c = false ∧
      answersAhead c = false ∧ isNameChar c = false ∧ c ≠ '=' := by
  unfold Bracket.ofChar? at closes
  repeat' split at closes
  all_goals first
    | (cases closes; done)
    | (rename_i same; subst same; decide)

theorem opening_calm {c : Char} {kind : BracketKind}
    (opens : Bracket.ofChar? c = some (.opening kind)) :
    c.utf8Size = 1 ∧ c ≠ '/' ∧ isMark c = false ∧ isNameChar c = false ∧
      c ≠ '.' ∧ c ≠ '+' ∧ asksAhead c = false := by
  unfold Bracket.ofChar? at opens
  repeat' split at opens
  all_goals first
    | (cases opens; done)
    | (rename_i same; subst same; decide)

theorem start_calm {c : Char} (starts : c = ',' ∨
      ∃ kind, Bracket.ofChar? c = some (.opening kind)) :
    c.utf8Size = 1 ∧ c ≠ '/' ∧ isMark c = false ∧ isNameChar c = false ∧
      c ≠ '.' ∧ c ≠ '+' ∧ asksAhead c = false := by
  rcases starts with rfl | ⟨kind, opens⟩
  · decide
  · exact opening_calm opens

section

variable {source : Source} {brackets : Span}

/-- A matched pair of brackets ends in code. -/
theorem closing_of_matched (matched : Matched source brackets) :
    ∃ c kind, source.codeAt? brackets.stop = some c ∧
      Bracket.ofChar? c = some (.closing kind) := by
  obtain ⟨kind, -, right, -, stop, -, closes⟩ := matched.kinds
  exact ⟨right, kind, stop, closes⟩

/-- Nothing at the end of an array reaches back to what stands before it. -/
theorem calm_back (matched : Matched source brackets) {place position : Nat}
    {c : Char} (only : OnlyCommas source place brackets.stop)
    (upper : place ≤ brackets.stop) (behind : place ≤ position)
    (code : source.codeAt? position = some c) (asks : asksBack c)
    (clear : ∀ other, place ≤ other → other < position →
      source.isSignificant other = false) : False := by
  obtain ⟨d, kind, stop, closes⟩ := closing_of_matched matched
  have calm := closing_calm closes
  rcases Nat.lt_trichotomy position brackets.stop with inside | equal | outside
  · have significant := Source.isSignificant_of_codeAt code
      (isSpace_of_holds (List.all_iff_forall_prop.mp (by decide)) asks)
    have comma := only position behind inside significant
    rw [code, Option.some.injEq] at comma
    subst comma
    cases asks
  · rw [equal, stop, Option.some.injEq] at code
    subst code
    rw [calm.2.2.1] at asks
    cases asks
  · have hidden := clear brackets.stop upper outside
    rw [Source.isSignificant_of_codeAt stop calm.1] at hidden
    cases hidden

end

/-- A fragment is put at a spot right behind a character of code, or in front of one
if it starts with a line break and breaks off no literal. -/
theorem spot_of_place {text : String} {fragment : Fragment} {place : Nat}
    (closed : ∀ literal ∈ (Source.ofText text).literals, literal.stop = place →
      (Source.ofText text).codeAt? place = some '\n' → literal.closed = true)
    (fit : fragment.Fit) (positive : 0 < place)
    (within : place < (Source.ofText text).size)
    (behind : ∀ {before after : List Char} {middle : Mode},
      Cut text.toList place before after middle →
      (middle = .code ∨ middle = .lineComment ∧ after.head? = some '\n') →
        Source.Apart fragment.chars after)
    (kinds : (∃ previous c, place = previous + 1 ∧
        (Source.ofText text).codeAt? previous = some c ∧ c.utf8Size = 1 ∧
        c ≠ '/' ∧ isMark c = false) ∨
      fragment.chars.head? = some '\n' ∧
        ∃ c, (Source.ofText text).codeAt? place = some c) :
    ∃ before after middle, Spot text fragment place before after middle := by
  rcases kinds with ⟨previous, c, next, code, size, slash, mark⟩ | ⟨head, c, code⟩
  · obtain ⟨before, after, cut⟩ := Source.cut_behind_code code
    rw [size, ← next] at cut
    exact ⟨before ++ [c], after, .code,
      { fit := fit
        cut := cut
        calm := Or.inl rfl
        starts := cut.pos_iff.mp positive
        ends := cut.lt_size_iff.mp within
        apartBefore := by
          intro left last right first
          rw [List.getLast?_concat] at last
          cases last
          simp only [isMark, Bool.or_eq_false_iff, decide_eq_false_iff_not]
            at mark
          simp [Source.clashes, slash, mark]
        apartAfter := behind cut (Or.inl rfl) }⟩
  · obtain ⟨before, after, middle, cut, calm⟩ := Source.cut_before_code
      (fun literal member stop lineBreak =>
        closed literal member stop (lineBreak ▸ code)) code
    have kept : middle = .code ∨ middle = .lineComment ∧
        (c :: after).head? = some '\n' := by
      rcases calm with code | ⟨comment, rfl⟩
      · exact Or.inl code
      · exact Or.inr ⟨comment, rfl⟩
    exact ⟨before, c :: after, middle,
      { fit := fit
        cut := cut
        calm := kept.imp_right fun known => ⟨known.1, head, known.2⟩
        starts := cut.pos_iff.mp positive
        ends := cut.lt_size_iff.mp within
        apartBefore := by
          intro left last right first
          rw [head] at first
          cases first
          simp [Source.clashes]
        apartAfter := behind cut kept }⟩

/-- In a text whose literals are closed, a fragment is put at a site. -/
theorem Spot.site {text : String} {fragment : Fragment} {place : Nat}
    {before after : List Char} {middle : Mode}
    (spot : Spot text fragment place before after middle)
    (closed : Source.AllClosed (Source.ofText text)) (leads : fragment.Leads) :
    Site text fragment place before after middle where
  toSpot := spot
  closed := closed
  leads := fun left _ _ first => leads.apart spot.fit.good first left

/-- A place for a new element of an array: what counts before it is the opening
bracket or a comma, what counts behind it are commas, and either nothing stands
before it or the element starts a line. -/
structure Slot (source : Source) (brackets : Span) (blank : List Char)
    (previous place : Nat) : Prop where
  matched : Matched source brackets
  least : brackets.start ≤ previous
  before : previous < place
  upper : place ≤ brackets.stop
  cut : previous = brackets.start ∨ source.codeAt? previous = some ','
  clear : ∀ position, previous < position → position < place →
    source.isSignificant position = false
  only : OnlyCommas source place brackets.stop
  place : place = previous + 1 ∨ blank.head? = some '\n' ∧
    (place = brackets.stop ∨ source.codeAt? place = some '\n')

namespace Slot

variable {text : String} {brackets : Span} {token : Token}
  {blank tail : List Char} {previous place : Nat}

/-- What stands right before an element, or right behind its place. -/
theorem sides (slot : Slot (Source.ofText text) brackets blank previous place) :
    place = previous + 1 ∧ (∃ c, (Source.ofText text).codeAt? previous =
        some c ∧ (c = ',' ∨ ∃ kind, Bracket.ofChar? c = some (.opening kind))) ∨
      blank.head? = some '\n' ∧ ∃ c, (Source.ofText text).codeAt? place =
        some c ∧ (c = '\n' ∨ ∃ kind, Bracket.ofChar? c = some (.closing kind)) := by
  rcases slot.place with next | ⟨line, here⟩
  · left
    refine ⟨next, ?_⟩
    rcases slot.cut with start | comma
    · obtain ⟨kind, left, -, code, -, opens, -⟩ := slot.matched.kinds
      exact ⟨left, start ▸ code, Or.inr ⟨kind, opens⟩⟩
    · exact ⟨',', comma, Or.inl rfl⟩
  · right
    refine ⟨line, ?_⟩
    rcases here with stop | lineBreak
    · obtain ⟨c, kind, code, closes⟩ := closing_of_matched slot.matched
      exact ⟨c, stop ▸ code, Or.inr ⟨kind, closes⟩⟩
    · exact ⟨'\n', lineBreak, Or.inl rfl⟩

theorem last_chars (good : token.Good) (behind : IsTail tail) :
    ∀ c ∈ (token.fragment blank tail).chars.getLast?, c ≠ '/' := by
  rw [Token.chars_fragment]
  intro c member
  rcases behind with rfl | rfl
  · rw [List.append_nil, List.getLast?_append] at member
    have quoted : (quote token.last).toList.getLast? = some '"' := by
      rw [quote, String.toList_ofList, ← List.cons_append,
        List.getLast?_concat]
    have inner : token.chars.getLast? = token.close.getLast?.or (some '"') := by
      simp [Token.chars, List.getLast?_append, quoted]
    rw [inner, Option.or_assoc] at member
    cases close : token.close.getLast? with
    | none =>
        rw [close] at member
        cases member
        decide
    | some d =>
        rw [close] at member
        cases member
        rintro rfl
        have known := good.plain '/' (List.mem_append_right _
          (List.mem_append_right _ (List.mem_of_getLast? close)))
        cases known
  · rw [List.getLast?_concat] at member
    cases member
    decide

/-- A new element of an array is put at a spot. -/
theorem spot (slot : Slot (Source.ofText text) brackets blank previous place)
    (closed : ∀ literal ∈ (Source.ofText text).literals, literal.stop = place →
      (Source.ofText text).codeAt? place = some '\n' → literal.closed = true)
    (good : token.Good) (isBlank : IsBlank blank) (isTail : IsTail tail) :
    ∃ before after middle,
      Spot text (token.fragment blank tail) place before after middle := by
  obtain ⟨closing, kind, stop, closes⟩ := closing_of_matched slot.matched
  have within : place < (Source.ofText text).size :=
    Nat.lt_of_le_of_lt slot.upper (Source.lt_size_of_codeAt stop)
  have upper : place < brackets.stop ∨ ∃ d,
      (Source.ofText text).codeAt? place = some d ∧ isMark d = false := by
    rcases Nat.lt_or_eq_of_le slot.upper with inside | equal
    · exact Or.inl inside
    · exact Or.inr ⟨closing, equal ▸ stop, (closing_calm closes).2.1⟩
  refine spot_of_place closed (token.fit good isBlank isTail)
    (Nat.zero_lt_of_lt slot.before) within
    (fun cut calm left last right first => ?_) ?_
  · have mark := cut.plain_behind calm slot.only upper right first
    have slash := last_chars good isTail left last
    simp only [isMark, Bool.or_eq_false_iff, decide_eq_false_iff_not] at mark
    simp [Source.clashes, slash, mark]
  · rcases slot.sides with ⟨next, c, code, kinds⟩ | ⟨line, c, code, -⟩
    · have known := start_calm kinds
      exact Or.inl ⟨previous, c, next, code, known.1, known.2.1, known.2.2.1⟩
    · refine Or.inr ⟨?_, c, code⟩
      rw [Token.chars_fragment]
      cases blank with
      | nil => cases line
      | cons d blank =>
          cases line
          rfl

/-- A new element is put at the end of the array. -/
theorem atEnd (slot : Slot (Source.ofText text) brackets blank previous place)
    {before after : List Char} {middle : Mode}
    (spot : Spot text (token.fragment blank tail) place before after middle) :
    spot.insertion.AtEnd brackets where
  matched := slot.matched
  lower := Nat.lt_of_le_of_lt slot.least slot.before
  upper := slot.upper
  only := slot.only

section

variable {before after : List Char} {middle : Mode}
  (slot : Slot (Source.ofText text) brackets blank previous place)

include slot

theorem not_joinsAt : ¬Source.JoinsAt (Source.ofText text) place := by
  rintro ⟨left, right, positive, front, here, joins⟩
  rcases slot.sides with ⟨next, c, code, kinds⟩ | ⟨line, c, code, kinds⟩
  · have char := Source.charAt_of_codeAt code
    rw [next, Nat.add_sub_cancel, char, Option.some.injEq] at front
    subst front
    have known := start_calm kinds
    simp [Source.joins, known] at joins
  · rw [Source.charAt_of_codeAt code, Option.some.injEq] at here
    subst here
    rcases kinds with rfl | ⟨kind, closes⟩
    · simp [Source.joins, isNameChar] at joins
    · have known := closing_calm closes
      simp [Source.joins, known] at joins

/-- Nothing in front of an element looks for what follows. -/
theorem calm_ahead {position : Nat} {c : Char} (order : position < place)
    (code : (Source.ofText text).codeAt? position = some c) (asks : asksAhead c)
    (clear : ∀ other, position < other → other < place →
      (Source.ofText text).isSignificant other = false) : False := by
  have starts : ∃ d, (Source.ofText text).codeAt? previous = some d ∧
      (d = ',' ∨ ∃ kind, Bracket.ofChar? d = some (.opening kind)) := by
    rcases slot.cut with start | comma
    · obtain ⟨kind, left, -, first, -, opens, -⟩ := slot.matched.kinds
      exact ⟨left, start ▸ first, Or.inr ⟨kind, opens⟩⟩
    · exact ⟨',', comma, Or.inl rfl⟩
  obtain ⟨d, first, kinds⟩ := starts
  rcases Nat.lt_trichotomy position previous with early | equal | late
  · have visible : isSpace d = false := by
      rcases kinds with rfl | ⟨kind, opens⟩
      · decide
      · exact Source.isSpace_of_bracket opens
    have hidden := clear previous early slot.before
    rw [Source.isSignificant_of_codeAt first visible] at hidden
    cases hidden
  · rw [equal, first, Option.some.injEq] at code
    subst code
    rw [(start_calm kinds).2.2.2.2.2.2] at asks
    cases asks
  · have hidden := slot.clear position late order
    rw [Source.isSignificant_of_codeAt code
      (isSpace_of_holds (List.all_iff_forall_prop.mp (by decide)) asks)] at hidden
    cases hidden

theorem seam (site : Site text (token.fragment blank tail) place before after
    middle) : site.insertion.Seam :=
  site.seam slot.not_joinsAt
    (fun _ _ order code asks clear =>
      (slot.calm_ahead order code asks clear).elim)
    (fun _ _ behind code asks clear =>
      (calm_back slot.matched slot.only slot.upper behind code asks clear).elim)

theorem home (site : Site text (token.fragment blank tail) place before after
    middle) {block : Block} (member : block ∈ blocksOf (Source.ofText text))
    (argument : block.argument = .array brackets) :
    Home site.insertion block brackets where
  seam := slot.seam site
  member := member
  argument := argument
  atEnd := slot.atEnd site.toSpot

end

end Slot

end PackageLayers.Manifest

/-
Purpose: Reading the arguments of a call that was printed.
Main exports: listed, IsValue, Argument, Printed, Printed.label_eq_none,
  Printed.label_eq_some, Printed.labelText, Printed.labelArray
-/
import PackageLayers.Proofs.Manifest.Pieces

namespace PackageLayers.Manifest

open Source (Span Matched Marked Balanced Labelled depthThrough isName)

/-!
The arguments of a printed call are labels with quoted values or arrays, between
commas.  Directly inside of its parentheses a colon stands behind a label only, so
an argument is found by its label if no argument before it has the same.
-/

/-! ### Lists -/

/-- Items with a comma and a space between them. -/
def listed : List (List Piece) → List Piece
  | [] => []
  | first :: rest =>
      first ++ rest.flatMap fun item => .code ',' :: .code ' ' :: item

/-- Items with a comma and a space behind each. -/
def leading (items : List (List Piece)) : List Piece :=
  items.flatMap fun item => item ++ [.code ',', .code ' ']

/-- Items with a comma and a space in front of each. -/
def trailing (items : List (List Piece)) : List Piece :=
  items.flatMap fun item => .code ',' :: .code ' ' :: item

theorem trailing_cons (item : List Piece) (items : List (List Piece)) :
    trailing (item :: items) =
      .code ',' :: .code ' ' :: (item ++ trailing items) := by
  rw [trailing, List.flatMap_cons]
  rfl

theorem leading_cons (item : List Piece) (items : List (List Piece)) :
    leading (item :: items) =
      item ++ (.code ',' :: .code ' ' :: leading items) := by
  rw [leading, List.flatMap_cons, List.append_assoc]
  rfl

theorem trailing_leading (items : List (List Piece)) :
    trailing items ++ [.code ',', .code ' '] =
      .code ',' :: .code ' ' :: leading items := by
  induction items with
  | nil => rfl
  | cons item items inductionHypothesis =>
      rw [trailing_cons, leading_cons, List.cons_append, List.cons_append,
        List.append_assoc, inductionHypothesis]

/-- A list is its items before one, the one, and those behind it. -/
theorem listed_split (before : List (List Piece)) (item : List Piece)
    (after : List (List Piece)) :
    listed (before ++ item :: after) =
      leading before ++ (item ++ trailing after) := by
  cases before with
  | nil => rfl
  | cons first before =>
      have shift := trailing_leading before
      have joined := congrArg (· ++ (item ++ trailing after)) shift
      simp only [List.append_assoc, List.cons_append, List.nil_append] at joined
      rw [List.cons_append, listed, ← trailing, trailing, List.flatMap_append,
        ← trailing, ← trailing, trailing_cons, leading_cons, List.append_assoc,
        joined]
      rfl

theorem balanced_trailing {items : List (List Piece)}
    (balanced : ∀ item ∈ items, Balanced (codeIn item)) :
    Balanced (codeIn (trailing items)) := by
  induction items with
  | nil => exact .nil
  | cons item items inductionHypothesis =>
      have later := inductionHypothesis fun other member =>
        balanced other (List.mem_cons_of_mem _ member)
      rw [trailing_cons]
      refine .other (by decide) (.other (by decide) ?_)
      rw [← codeIn, codeIn_append]
      exact (balanced item List.mem_cons_self).append later

theorem balanced_leading {items : List (List Piece)}
    (balanced : ∀ item ∈ items, Balanced (codeIn item)) :
    Balanced (codeIn (leading items)) := by
  induction items with
  | nil => exact .nil
  | cons item items inductionHypothesis =>
      have later := inductionHypothesis fun other member =>
        balanced other (List.mem_cons_of_mem _ member)
      rw [leading_cons, codeIn_append]
      exact (balanced item List.mem_cons_self).append
        (.other (by decide) (.other (by decide) later))

theorem balanced_listed {items : List (List Piece)}
    (balanced : ∀ item ∈ items, Balanced (codeIn item)) :
    Balanced (codeIn (listed items)) := by
  cases items with
  | nil => exact .nil
  | cons item items =>
      rw [listed, ← trailing, codeIn_append]
      exact (balanced item List.mem_cons_self).append
        (balanced_trailing fun other member =>
          balanced other (List.mem_cons_of_mem _ member))

/-! ### Arguments -/

/-- What is printed as the value of an argument: a quoted value or an array. -/
inductive IsValue : List Piece → Prop
  | text (value : String) : IsValue [.value value]
  | array {inner : List Piece} (balanced : Balanced (codeIn inner)) :
      IsValue (.code '[' :: (inner ++ [.code ']']))

/-- An argument of a printed call. -/
structure Argument where
  label : String
  value : List Piece

namespace Argument

/-- The text of an argument. -/
def pieces (argument : Argument) : List Piece :=
  plainly argument.label.toList ++
    (.code ':' :: .code ' ' :: argument.value)

/-- The quoted value that an argument is. -/
def text? (argument : Argument) : Option String :=
  match argument.value with
  | [.value text] => some text
  | _ => none

/-- The text of the first of some arguments with a label. -/
def textOf (arguments : List Argument) (label : String) : Option String :=
  (arguments.find? fun argument => argument.label == label).bind text?

/-- Whether an argument is a name with a value. -/
structure Good (argument : Argument) : Prop where
  label : isName argument.label
  value : IsValue argument.value

end Argument

theorem IsValue.balanced {pieces : List Piece} (value : IsValue pieces) :
    Balanced (codeIn pieces) := by
  cases value with
  | text value => exact .nil
  | @array inner balanced =>
      have split : codeIn (.code '[' :: (inner ++ [.code ']'])) =
          '[' :: (codeIn inner ++ ']' :: []) := by
        rw [← List.singleton_append, codeIn_append, codeIn_append]
        rfl
      rw [split]
      exact @Balanced.nested .square '[' ']' _ [] rfl rfl balanced .nil

theorem IsValue.inner {inner : List Piece}
    (value : IsValue (.code '[' :: (inner ++ [.code ']']))) :
    Balanced (codeIn inner) := by
  generalize same : Piece.code '[' :: (inner ++ [.code ']']) = pieces at value
  cases value with
  | text text => cases same
  | array balanced =>
      rw [List.append_cancel_right (List.cons.inj same).2]
      exact balanced

theorem name_plain {label : String} (name : isName label) :
    ∀ c ∈ label.toList, Source.isNameChar c := by
  have names := (Source.names_of_isName name).1
  rwa [List.all_eq_true] at names

theorem Argument.Good.balanced {argument : Argument} (good : argument.Good) :
    Balanced (codeIn argument.pieces) := by
  rw [pieces, codeIn_append, codeIn_plainly]
  refine Balanced.append (Balanced.of_plain fun c member =>
    Source.no_bracket_of_name (name_plain good.label c member)) ?_
  exact .other (by decide) (.other (by decide) good.value.balanced)

section

variable {source : Source} {offset : Nat}

/-- The code of shown pieces leaves the depth as it was. -/
theorem Shows.level {pieces : List Piece} (shows : Shows source offset pieces)
    (balanced : Balanced (codeIn pieces)) :
    depthThrough 0 (Marked.chars
      (source.codeChars offset (offset + lengthOf pieces))) = 0 := by
  rw [shows.chars_codeChars, balanced.depth]

/-- Past shown pieces, the depth is counted from their end. -/
theorem Shows.level_behind {pieces : List Piece}
    (shows : Shows source offset pieces) (balanced : Balanced (codeIn pieces))
    (position : Nat) (behind : offset + lengthOf pieces ≤ position) :
    depthThrough 0 (Marked.chars (source.codeChars offset position)) =
      depthThrough 0 (Marked.chars
        (source.codeChars (offset + lengthOf pieces) position)) := by
  rw [Source.codeChars_append (by omega : offset ≤ offset + lengthOf pieces)
    behind, Marked.chars_append, Source.depthThrough_append,
    shows.level balanced]

/-- Inside of an array the depth is not zero. -/
theorem Shows.deep_inside {inner : List Piece}
    (shows : Shows source offset (.code '[' :: (inner ++ [.code ']'])))
    (balanced : Balanced (codeIn inner)) {position : Nat}
    (lower : offset < position) (upper : position ≤ offset + 1 + lengthOf inner) :
    depthThrough 0 (Marked.chars (source.codeChars offset position)) ≠ 0 := by
  have opens := shows.code
  have inside : Shows source (offset + 1) inner :=
    (@Shows.part source offset inner [.code '['] [.code ']'] shows)
  have whole := inside.chars_codeChars
  rw [Source.codeChars_append lower upper] at whole
  obtain ⟨added, -, depth⟩ := balanced.openBefore_part whole.symm []
  rw [Source.codeChars_cons lower opens, Marked.chars, List.map_cons,
    depthThrough, List.foldl_cons]
  have rises : Source.depthAfter 0 '[' = 1 := rfl
  have deeper := depth 1
  rw [depthThrough, Marked.chars] at deeper
  rw [rises, deeper]
  omega

/-- No colon of a value stands directly inside of the parentheses. -/
theorem IsValue.no_colon {pieces : List Piece} (value : IsValue pieces)
    (shows : Shows source offset pieces) {position : Nat}
    (lower : offset ≤ position) (upper : position < offset + lengthOf pieces)
    (code : source.codeAt? position = some ':') :
    depthThrough 0 (Marked.chars (source.codeChars offset position)) ≠ 0 := by
  obtain ⟨index, rfl⟩ := Nat.exists_eq_add_of_le lower
  cases value with
  | text text =>
      rw [lengthOf_cons, Piece.cells, lengthOf_nil] at upper
      rw [shows.value_code (by omega)] at code
      cases code
  | @array inner balanced =>
      rw [lengthOf_cons_code, lengthOf_append] at upper
      have one : lengthOf [Piece.code ']'] = 1 := rfl
      cases index with
      | zero =>
          rw [Nat.add_zero, shows.code] at code
          cases code
      | succ index =>
          exact shows.deep_inside balanced (by omega) (by omega)

/-- The label of an argument with its colon. -/
def Argument.lead (argument : Argument) : List Piece :=
  plainly (argument.label.toList ++ [':', ' '])

theorem Argument.pieces_eq (argument : Argument) :
    argument.pieces = argument.lead ++ argument.value := by
  rw [pieces, lead, plainly_append, List.append_assoc]
  rfl

theorem Argument.Good.lead_balanced {argument : Argument} (good : argument.Good) :
    Balanced (codeIn argument.lead) := by
  rw [lead, codeIn_plainly]
  exact Balanced.append (Balanced.of_plain fun c member =>
    Source.no_bracket_of_name (name_plain good.label c member))
    (Balanced.of_plain (List.all_iff_forall_prop.mp (by decide)))

theorem Argument.length_lead (argument : Argument) :
    lengthOf argument.lead = argument.label.toList.length + 2 := by
  rw [lead, lengthOf_plainly, List.length_append]
  rfl

/-- Directly inside of the parentheses an argument has no colon but the one
behind its label. -/
theorem Shows.colon_of_argument {argument : Argument}
    (shows : Shows source offset argument.pieces) (good : argument.Good)
    {colon : Nat} (lower : offset ≤ colon)
    (upper : colon < offset + lengthOf argument.pieces)
    (code : source.codeAt? colon = some ':')
    (level : depthThrough 0 (Marked.chars (source.codeChars offset colon)) = 0) :
    colon = offset + argument.label.toList.length := by
  rw [Argument.pieces_eq] at shows upper
  rw [lengthOf_append, argument.length_lead] at upper
  by_cases inside : colon < offset + (argument.label.toList.length + 2)
  · obtain ⟨index, rfl⟩ := Nat.exists_eq_add_of_le lower
    have here := List.getElem?_eq_getElem (by
      rw [List.length_append]
      exact Nat.lt_of_add_lt_add_left inside :
      index < (argument.label.toList ++ [':', ' ']).length)
    rw [shows.plain here, Option.some.injEq] at code
    rcases Nat.lt_trichotomy index argument.label.toList.length with
      early | rfl | late
    · rw [List.getElem_append_left early] at code
      have name := name_plain good.label _ (List.getElem_mem early)
      rw [code] at name
      cases name
    · rfl
    · obtain rfl : index = argument.label.toList.length + 1 := by omega
      rw [List.getElem_append_right (by omega)] at code
      simp at code
  · have behind := shows.back
    rw [argument.length_lead] at behind
    have start := shows.front.level_behind good.lead_balanced colon
      (by rw [argument.length_lead]; omega)
    rw [argument.length_lead, level] at start
    exact absurd start.symm
      (good.value.no_colon behind (by omega) (by omega) code)

/-- Directly inside of the parentheses there is no colon but those behind the
labels of the arguments. -/
theorem Shows.colon_of_trailing {arguments : List Argument}
    (good : ∀ argument ∈ arguments, argument.Good)
    (shows : Shows source offset (trailing (arguments.map Argument.pieces)))
    {colon : Nat} (lower : offset ≤ colon)
    (upper : colon < offset +
      lengthOf (trailing (arguments.map Argument.pieces)))
    (code : source.codeAt? colon = some ':')
    (level : depthThrough 0 (Marked.chars (source.codeChars offset colon)) = 0) :
    ∃ before argument after, arguments = before ++ argument :: after ∧
      colon = offset + lengthOf (trailing (before.map Argument.pieces)) + 2 +
        argument.label.toList.length := by
  induction arguments generalizing offset with
  | nil =>
      rw [List.map_nil, trailing, List.flatMap_nil, lengthOf_nil] at upper
      omega
  | cons argument arguments inductionHypothesis =>
      have known := good argument List.mem_cons_self
      have split : trailing ((argument :: arguments).map Argument.pieces) =
          (plainly [',', ' '] ++ argument.pieces) ++
            trailing (arguments.map Argument.pieces) := by
        rw [List.map_cons, trailing_cons]
        rfl
      rw [split] at shows upper
      have item := @Shows.back source offset argument.pieces (plainly [',', ' '])
        shows.front
      have two : lengthOf (plainly [',', ' ']) = 2 := rfl
      rw [two] at item
      have first : Shows source offset (plainly [',', ' ']) :=
        @Shows.front source offset _ argument.pieces shows.front
      have flat : Balanced (codeIn (plainly [',', ' '])) :=
        Balanced.of_plain (List.all_iff_forall_prop.mp (by decide))
      have length : lengthOf (plainly [',', ' '] ++ argument.pieces) =
          2 + lengthOf argument.pieces := by
        rw [lengthOf_append, two]
      rw [lengthOf_append, length] at upper
      by_cases inside : colon < offset + (2 + lengthOf argument.pieces)
      · refine ⟨[], argument, arguments, rfl, ?_⟩
        by_cases early : colon < offset + 2
        · obtain ⟨index, rfl⟩ := Nat.exists_eq_add_of_le lower
          have here := List.getElem?_eq_getElem
            (by simp only [List.length_cons, List.length_nil]; omega :
              index < [',', ' '].length)
          rw [@Shows.plain source offset _ [] (by rwa [List.append_nil]) _ _
            here, Option.some.injEq] at code
          have member := List.getElem_mem
            (by simp only [List.length_cons, List.length_nil]; omega :
              index < [',', ' '].length)
          rw [code] at member
          simp at member
        · have start := first.level_behind flat colon
            (by rw [two]; omega)
          rw [two, level] at start
          have found := item.colon_of_argument known (by omega) (by omega) code
            start.symm
          rw [List.map_nil, trailing, List.flatMap_nil, lengthOf_nil]
          exact found
      · have balanced : Balanced (codeIn
            (plainly [',', ' '] ++ argument.pieces)) := by
          rw [codeIn_append]
          exact flat.append known.balanced
        have start := shows.front.level_behind balanced colon
          (by rw [length]; omega)
        rw [length, level] at start
        have later := shows.back
        rw [length] at later
        obtain ⟨before, other, after, rfl, same⟩ := inductionHypothesis
          (fun other member => good other (List.mem_cons_of_mem _ member)) later
          (by omega) (by omega) start.symm
        refine ⟨argument :: before, other, after, rfl, ?_⟩
        rw [same, List.map_cons, trailing_cons, lengthOf_cons_code,
          lengthOf_cons_code, lengthOf_append]
        omega

/-! ### Parentheses -/

/-- The parentheses of a call with its arguments. -/
def parenthesized (arguments : List Argument) : List Piece :=
  .code '(' :: (listed (arguments.map Argument.pieces) ++ [.code ')'])

/-- Where the parentheses of a call are. -/
def parensAt (offset : Nat) (arguments : List Argument) : Span :=
  ⟨offset, offset + 1 + lengthOf (listed (arguments.map Argument.pieces))⟩

/-- Where the label of an argument is that has others in front of it. -/
def labelPlace (offset : Nat) (before : List Argument) : Nat :=
  offset + 1 + lengthOf (leading (before.map Argument.pieces))

/-- A text shows the parentheses of a call. -/
structure Printed (source : Source) (offset : Nat) (arguments : List Argument) :
    Prop where
  good : ∀ argument ∈ arguments, argument.Good
  shows : Shows source offset (parenthesized arguments)

/-- What is shown in brackets. -/
theorem Shows.inside {left right : Char} {inner : List Piece}
    (shows : Shows source offset (.code left :: (inner ++ [.code right]))) :
    Shows source (offset + 1) inner :=
  @part source offset _ [.code left] [.code right] shows

/-- Brackets that are shown are a pair. -/
theorem Shows.matched {kind : BracketKind} {left right : Char}
    {inner : List Piece}
    (shows : Shows source offset (.code left :: (inner ++ [.code right])))
    (opens : Bracket.ofChar? left = some (.opening kind))
    (closes : Bracket.ofChar? right = some (.closing kind))
    (balanced : Balanced (codeIn inner)) :
    Matched source ⟨offset, offset + 1 + lengthOf inner⟩ where
  order := by
    simp only
    omega
  kinds := by
    have last := (@back source offset [.code right] (.code left :: inner)
      shows).code
    rw [lengthOf_cons_code, Nat.add_comm _ 1, ← Nat.add_assoc] at last
    exact ⟨kind, left, right, shows.code, last, opens, closes⟩
  balanced := by
    have code := shows.inside.chars_codeChars
    simp only
    rw [code]
    exact balanced

theorem lengthOf_trailing (items : List (List Piece)) :
    lengthOf (trailing items) = lengthOf (leading items) := by
  have same := congrArg lengthOf (trailing_leading items)
  simp only [lengthOf_append, lengthOf_cons_code, lengthOf_nil] at same
  omega

namespace Printed

variable {arguments : List Argument} (printed : Printed source offset arguments)

include printed

theorem balanced_items :
    ∀ item ∈ arguments.map Argument.pieces, Balanced (codeIn item) := by
  intro item member
  obtain ⟨argument, here, rfl⟩ := List.mem_map.mp member
  exact (printed.good argument here).balanced

theorem inside : Shows source (offset + 1)
    (listed (arguments.map Argument.pieces)) := printed.shows.inside

theorem matched : Matched source (parensAt offset arguments) :=
  printed.shows.matched rfl rfl (balanced_listed printed.balanced_items)

/-- What stands before an argument leaves the depth as it was. -/
theorem level_label {before after : List Argument} {argument : Argument}
    (split : arguments = before ++ argument :: after) :
    depthThrough 0 (Marked.chars
      (source.codeChars (offset + 1) (labelPlace offset before))) = 0 := by
  have inside := printed.inside
  rw [split, List.map_append, List.map_cons, listed_split] at inside
  refine inside.front.level (balanced_leading fun item member => ?_)
  obtain ⟨other, here, rfl⟩ := List.mem_map.mp member
  exact (printed.good other
    (by rw [split]; exact List.mem_append_left _ here)).balanced

theorem shows_argument {before after : List Argument} {argument : Argument}
    (split : arguments = before ++ argument :: after) :
    Shows source (labelPlace offset before) argument.pieces := by
  have inside := printed.inside
  rw [split, List.map_append, List.map_cons, listed_split] at inside
  exact inside.part

omit printed in
theorem bound_argument (offset : Nat) {before after : List Argument}
    {argument : Argument}
    (split : arguments = before ++ argument :: after) :
    labelPlace offset before + lengthOf argument.pieces ≤
      (parensAt offset arguments).stop := by
  rw [parensAt, split, List.map_append, List.map_cons, listed_split,
    lengthOf_append, lengthOf_append, labelPlace]
  simp only
  omega

/-- Directly inside of the parentheses, colons stand behind labels only. -/
theorem colon {colon : Nat} (lower : offset < colon)
    (upper : colon < (parensAt offset arguments).stop)
    (code : source.codeAt? colon = some ':')
    (level : depthThrough 0
      (Marked.chars (source.codeChars (offset + 1) colon)) = 0) :
    ∃ before argument after, arguments = before ++ argument :: after ∧
      colon = labelPlace offset before + argument.label.toList.length := by
  have inside := printed.inside
  have good := printed.good
  simp only [parensAt] at upper
  cases kind : arguments with
  | nil =>
      rw [kind, List.map_nil, listed, lengthOf_nil] at upper
      omega
  | cons first rest =>
      rw [kind, List.map_cons, listed, ← trailing] at inside upper
      rw [lengthOf_append] at upper
      rw [kind] at good
      have known := good first List.mem_cons_self
      by_cases early : colon < offset + 1 + lengthOf first.pieces
      · refine ⟨[], first, rest, rfl, ?_⟩
        exact inside.front.colon_of_argument known lower early code level
      · have start := inside.front.level_behind known.balanced
          colon (by omega)
        rw [level] at start
        obtain ⟨before, argument, after, rfl, same⟩ :=
          inside.back.colon_of_trailing
            (fun other member => good other (List.mem_cons_of_mem _ member))
            (by omega) (by omega) code start.symm
        refine ⟨first :: before, argument, after, rfl, ?_⟩
        rw [same, lengthOf_trailing, labelPlace, List.map_cons, leading_cons,
          lengthOf_append, lengthOf_cons_code, lengthOf_cons_code]
        omega

/-- What stands right before a label. -/
theorem before_label {before after : List Argument} {argument : Argument}
    (split : arguments = before ++ argument :: after) :
    source.isNameAt (labelPlace offset before - 1) = false := by
  rcases List.eq_nil_or_concat before with rfl | ⟨front, last, rfl⟩
  · have place : labelPlace offset [] - 1 = offset := by
      rw [labelPlace, List.map_nil, leading, List.flatMap_nil, lengthOf_nil]
      omega
    rw [place, Source.isNameAt, Source.charAt_of_codeAt printed.shows.code]
    rfl
  · have inside := printed.inside
    have leads : leading ((front.concat last).map Argument.pieces) =
        (leading (front.map Argument.pieces) ++ last.pieces ++ [.code ',']) ++
          [.code ' '] := by
      rw [List.concat_eq_append, List.map_append, leading, List.flatMap_append]
      simp only [List.map_cons, List.map_nil, List.flatMap_cons,
        List.flatMap_nil, List.append_nil, leading, List.append_assoc,
        List.cons_append, List.nil_append]
    rw [split, List.map_append, List.map_cons, listed_split, leads] at inside
    have blank := inside.front.back.code
    have place : labelPlace offset (front.concat last) - 1 = offset + 1 +
        lengthOf (leading (front.map Argument.pieces) ++ last.pieces ++
          [.code ',']) := by
      rw [labelPlace, leads, lengthOf_append]
      have one : lengthOf [Piece.code ' '] = 1 := rfl
      omega
    rw [place, Source.isNameAt, Source.charAt_of_codeAt blank]
    rfl

/-- The label of an argument. -/
theorem labelled {before after : List Argument} {argument : Argument}
    (split : arguments = before ++ argument :: after) :
    Labelled source (parensAt offset arguments).stop argument.label.toList
      (labelPlace offset before)
      (labelPlace offset before + argument.label.toList.length) := by
  have shows := printed.shows_argument split
  have bound := bound_argument offset split
  rw [Argument.pieces_eq] at shows bound
  rw [lengthOf_append, argument.length_lead] at bound
  have colon : source.codeAt?
      (labelPlace offset before + argument.label.toList.length) = some ':' := by
    refine shows.plain ?_
    rw [List.getElem?_append_right (Nat.le_refl _), Nat.sub_self]
    rfl
  refine ⟨fun index c here => ?_, printed.before_label split, ?_, ?_,
    Source.charAt_of_codeAt colon⟩
  · refine Source.charAt_of_codeAt (shows.plain ?_)
    rw [List.getElem?_append_left (List.getElem?_eq_some_iff.mp here).1]
    exact here
  · rw [Source.isNameAt, Source.charAt_of_codeAt colon]
    rfl
  · exact Source.next_eq_some_iff.mpr ⟨Nat.le_refl _, by omega,
      Source.isSignificant_of_codeAt colon rfl, fun other lower upper => by
        omega⟩

theorem topLevel_label {before after : List Argument} {argument : Argument}
    (split : arguments = before ++ argument :: after) :
    labelPlace offset before ∈ source.topLevel (parensAt offset arguments) := by
  have shows := printed.shows_argument split
  have bound := bound_argument offset split
  have good := (printed.good argument (by rw [split]; simp)).label
  rw [Argument.pieces_eq] at shows bound
  rw [lengthOf_append, argument.length_lead] at bound
  obtain ⟨c, rest, chars⟩ :=
    List.exists_cons_of_ne_nil (Source.names_of_isName good).2
  have first : source.codeAt? (labelPlace offset before) = some c := by
    refine @Shows.plain _ _ _ _ shows 0 c ?_
    rw [chars]
    rfl
  have name := name_plain good c (by rw [chars]; exact List.mem_cons_self)
  have plain := Source.no_bracket_of_name name
  refine Source.mem_topLevel.mpr ⟨?_, ?_, printed.level_label split, c, first, ?_⟩
  · simp only [parensAt, labelPlace]
    omega
  · omega
  · simp [Source.isClosing, plain]

/-- A label directly inside of the parentheses is that of an argument. -/
theorem argument_of_labelled {label : String} (name : isName label)
    {position colon : Nat}
    (member : position ∈ source.topLevel (parensAt offset arguments))
    (labelled : Labelled source (parensAt offset arguments).stop label.toList
      position colon) :
    ∃ before argument after, arguments = before ++ argument :: after ∧
      argument.label = label ∧ position = labelPlace offset before := by
  obtain ⟨names, filled⟩ := Source.names_of_isName name
  obtain ⟨lower, upper, level, c, code, -⟩ := Source.mem_topLevel.mp member
  have regular := printed.shows.regular
  have sign := labelled.colon_code regular names filled code
  obtain ⟨above, below, -, clear⟩ := Source.next_eq_some_iff.mp labelled.next
  have flat : depthThrough 0 (Marked.chars
      (source.codeChars (offset + 1) colon)) = 0 := by
    refine Source.level_extend lower (by omega) level ?_
    intro other d first last here
    rcases Nat.lt_or_ge other (position + label.toList.length) with early | late
    · obtain ⟨index, rfl⟩ := Nat.exists_eq_add_of_le first
      have known := List.getElem?_eq_getElem
        (by omega : index < label.toList.length)
      have word := regular.code_of_stands names code labelled.stands index _ known
      rw [here, Option.some.injEq] at word
      rw [word]
      exact Source.no_bracket_of_name (name_plain name _ (List.getElem_mem _))
    · exact Source.no_bracket_of_hidden here (clear other late last)
  obtain ⟨before, argument, after, split, same⟩ := printed.colon
    (by simp only [parensAt] at lower; omega) below sign flat
  have known := (printed.good argument (by rw [split]; simp)).label
  obtain ⟨names', filled'⟩ := Source.names_of_isName known
  have own := printed.labelled split
  obtain ⟨-, -, -, e, start, -⟩ :=
    Source.mem_topLevel.mp (printed.topLevel_label split)
  rw [← same] at own
  obtain ⟨here, word⟩ := labelled.unique regular names names' filled filled' code
    start own
  exact ⟨before, argument, after, split, (String.toList_inj.mp word).symm, here⟩

/-- A label that no argument has is not found. -/
theorem label_eq_none {label : String} (name : isName label)
    (absent : ∀ argument ∈ arguments, argument.label ≠ label) :
    source.label? (parensAt offset arguments) label = none := by
  rw [Option.eq_none_iff_forall_ne_some]
  intro after found
  obtain ⟨position, c, colon, member, -, labelled, -⟩ :=
    Source.label_eq_some (Source.names_of_isName name).1 found
  obtain ⟨before, argument, rest, split, same, -⟩ :=
    printed.argument_of_labelled name member labelled
  exact absent argument (by rw [split]; simp) same

/-- The first argument with a label is found. -/
theorem label_eq_some {before after : List Argument} {argument : Argument}
    (split : arguments = before ++ argument :: after)
    (first : ∀ other ∈ before, other.label ≠ argument.label) :
    source.label? (parensAt offset arguments) argument.label =
      some (labelPlace offset before + argument.label.toList.length + 1) := by
  have good := (printed.good argument (by rw [split]; simp)).label
  refine Source.label_of_first good (printed.topLevel_label split)
    (printed.labelled split) fun other member early => ?_
  rw [Option.eq_none_iff_forall_ne_some]
  intro after' found
  have positive : 0 < other := by
    have lower := (Source.mem_topLevel.mp member).1
    omega
  obtain ⟨colon, labelled, -⟩ := (Source.labelAt_eq_some positive).mp found
  obtain ⟨before', other', rest, split', same, rfl⟩ :=
    printed.argument_of_labelled good member labelled
  -- an argument with that label stands in front of the first one
  rw [split] at split'
  rcases List.append_eq_append_iff.mp split' with
    ⟨extra, rfl, later⟩ | ⟨extra, rfl, later⟩
  · simp only [labelPlace, List.map_append, leading, List.flatMap_append] at early
    rw [lengthOf_append] at early
    omega
  · cases extra with
    | nil =>
        rw [List.append_nil] at early
        omega
    | cons head extra =>
        rw [List.cons_append, List.cons.injEq] at later
        refine first other' ?_ same
        rw [later.1]
        simp

/-- Where the value of an argument is. -/
theorem value_eq_some {before after : List Argument} {argument : Argument}
    (split : arguments = before ++ argument :: after)
    (first : ∀ other ∈ before, other.label ≠ argument.label) :
    value? source (parensAt offset arguments) argument.label =
        some (labelPlace offset before + lengthOf argument.lead) ∧
      Shows source (labelPlace offset before + lengthOf argument.lead)
        argument.value := by
  have shows := printed.shows_argument split
  have bound := bound_argument offset split
  rw [Argument.pieces_eq] at shows bound
  rw [lengthOf_append] at bound
  have good := printed.good argument (by rw [split]; simp)
  have value := shows.back
  have length := argument.length_lead
  have blank : source.codeAt? (labelPlace offset before +
      (argument.label.toList.length + 1)) = some ' ' := by
    refine shows.plain ?_
    rw [List.getElem?_append_right (by omega), Nat.add_sub_cancel_left]
    rfl
  have visible : source.isSignificant
      (labelPlace offset before + lengthOf argument.lead) ∧
      0 < lengthOf argument.value := by
    cases kind : argument.value with
    | nil =>
        have none := good.value
        rw [kind] at none
        cases none
    | cons piece rest =>
        have known := good.value
        rw [kind] at known value
        cases known with
        | text text =>
            refine ⟨value.value_significant, ?_⟩
            obtain ⟨inner, cells⟩ := quotedCells_eq text
            rw [lengthOf_cons, Piece.cells, cells, List.length_cons]
            omega
        | array balanced =>
            exact ⟨Source.isSignificant_of_codeAt value.code rfl, by
              rw [lengthOf_cons_code]
              omega⟩
  refine ⟨?_, value⟩
  rw [value?, printed.label_eq_some split first, Option.bind_some]
  refine Source.next_eq_some_iff.mpr ⟨by omega, by omega, visible.1,
    fun other lower upper => ?_⟩
  obtain rfl : other = labelPlace offset before +
      (argument.label.toList.length + 1) := by omega
  rw [isSignificant_eq, Source.codeAt_eq_some blank]
  rfl

/-- The text of the first argument with a label. -/
theorem labelText {before after : List Argument} {argument : Argument}
    {text : String} (split : arguments = before ++ argument :: after)
    (first : ∀ other ∈ before, other.label ≠ argument.label)
    (value : argument.value = [.value text]) :
    labelText? source (parensAt offset arguments) argument.label =
      some text := by
  obtain ⟨found, shows⟩ := printed.value_eq_some split first
  rw [value] at shows
  rw [labelText?, labelLiteral_eq, found, Option.bind_some]
  exact shows.value

theorem labelText_eq_none {label : String} (name : isName label)
    (absent : ∀ argument ∈ arguments, argument.label ≠ label) :
    labelText? source (parensAt offset arguments) label = none := by
  rw [labelText?, labelLiteral?, printed.label_eq_none name absent]
  rfl

/-- The text of an argument is that of the first one with its label. -/
theorem labelText_eq {label : String} (name : isName label) :
    labelText? source (parensAt offset arguments) label =
      Argument.textOf arguments label := by
  rw [Argument.textOf]
  cases found : arguments.find? fun argument => argument.label == label with
  | none =>
      rw [List.find?_eq_none] at found
      exact printed.labelText_eq_none name fun argument member same =>
        found argument member (beq_iff_eq.mpr same)
  | some argument =>
      obtain ⟨same, before, after, split, first⟩ :=
        List.find?_eq_some_iff_append.mp found
      rw [beq_iff_eq] at same
      subst same
      have others : ∀ other ∈ before, other.label ≠ argument.label := by
        intro other member
        simpa using first other member
      have known := (printed.good argument (by rw [split]; simp)).value
      rw [Option.bind_some, Argument.text?]
      cases value : argument.value with
      | nil =>
          rw [value] at known
          cases known
      | cons piece rest =>
          rw [value] at known
          cases known with
          | text text => exact printed.labelText split others value
          | array balanced =>
              obtain ⟨here, shows⟩ := printed.value_eq_some split others
              rw [value] at shows
              rw [labelText?, labelLiteral_eq, here, Option.bind_some,
                Source.literalAt_of_codeAt shows.regular shows.code]
              rfl

/-- The array of the first argument with a label. -/
theorem labelArray {before after : List Argument} {argument : Argument}
    {inner : List Piece} (split : arguments = before ++ argument :: after)
    (first : ∀ other ∈ before, other.label ≠ argument.label)
    (value : argument.value = .code '[' :: (inner ++ [.code ']'])) :
    labelArray? source (parensAt offset arguments) argument.label =
        some ⟨labelPlace offset before + lengthOf argument.lead,
          labelPlace offset before + lengthOf argument.lead + 1 +
            lengthOf inner⟩ ∧
      Shows source (labelPlace offset before + lengthOf argument.lead)
        (.code '[' :: (inner ++ [.code ']'])) := by
  obtain ⟨found, shows⟩ := printed.value_eq_some split first
  have known := (printed.good argument (by rw [split]; simp)).value
  rw [value] at shows known
  have matched := shows.matched rfl rfl known.inner
  refine ⟨?_, shows⟩
  rw [labelArray_eq, found, Option.bind_some, arrayAt?,
    if_pos (Source.charAt_of_codeAt shows.code),
    Source.partner_of_matched matched]
  rfl

theorem labelArray_eq_none {label : String} (name : isName label)
    (absent : ∀ argument ∈ arguments, argument.label ≠ label) :
    labelArray? source (parensAt offset arguments) label = none := by
  rw [labelArray?, printed.label_eq_none name absent]
  rfl

end Printed

end

end PackageLayers.Manifest

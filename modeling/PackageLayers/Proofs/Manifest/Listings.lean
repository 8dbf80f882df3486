/-
Purpose: The items of a printed list with their places.
Main exports: placed, Shows.item, IsElement, Shows.elements, Printed.labelArray
-/
import PackageLayers.Proofs.Manifest.Printing
import PackageLayers.Proofs.Source.Elements

namespace PackageLayers.Manifest

open Source (Span Matched Marked Balanced depthThrough isName)

/-!
A printed list is read item by item: every item is shown at its place, and the
elements of an array that is printed are the ranges of its items.
-/

/-- Items with the places where they are printed in a list. -/
def placed {α : Type} (print : α → List Piece) : (start : Nat) → List α →
    List (Nat × α)
  | _, [] => []
  | start, item :: rest =>
      (start, item) :: placed print (start + lengthOf (print item) + 2) rest

/-- The range of an item. -/
def rangeOf {α : Type} (print : α → List Piece) (entry : Nat × α) : Span :=
  ⟨entry.1, entry.1 + lengthOf (print entry.2)⟩

theorem listed_cons_cons (first second : List Piece) (rest : List (List Piece)) :
    listed (first :: second :: rest) =
      first ++ .code ',' :: .code ' ' :: listed (second :: rest) := by
  simp [listed]

theorem listed_singleton (item : List Piece) : listed [item] = item := by
  simp [listed]

section

variable {α : Type} {print : α → List Piece}

theorem placed_snd (start : Nat) (items : List α) :
    (placed print start items).map Prod.snd = items := by
  induction items generalizing start with
  | nil => rfl
  | cons item rest inductionHypothesis =>
      rw [placed, List.map_cons, inductionHypothesis]

/-- What is read off every item of a list is read off the list. -/
theorem filterMap_placed {β : Type} {read : Nat × α → Option β}
    {value : α → Option β} {start : Nat} {items : List α}
    (same : ∀ entry ∈ placed print start items, read entry = value entry.2) :
    (placed print start items).filterMap read = items.filterMap value := by
  rw [List.filterMap_congr same]
  conv_rhs => rw [← @placed_snd α print start items, List.filterMap_map]
  rfl

theorem length_listed_cons (first second : List Piece)
    (rest : List (List Piece)) :
    lengthOf (listed (first :: second :: rest)) =
      lengthOf first + 2 + lengthOf (listed (second :: rest)) := by
  rw [listed_cons_cons, lengthOf_append, lengthOf_cons_code, lengthOf_cons_code]
  omega

/-- The items before one, the one, and those behind it, with their places. -/
theorem placed_split (start : Nat) (before : List α) (item : α)
    (after : List α) :
    placed print start (before ++ item :: after) =
      placed print start before ++
        (start + lengthOf (leading (before.map print)), item) ::
          placed print (start + lengthOf (leading (before.map print)) +
            lengthOf (print item) + 2) after := by
  induction before generalizing start with
  | nil => rfl
  | cons first before inductionHypothesis =>
      have width : start + lengthOf (leading ((first :: before).map print)) =
          start + lengthOf (print first) + 2 +
            lengthOf (leading (before.map print)) := by
        rw [List.map_cons, leading_cons, lengthOf_append, lengthOf_cons_code,
          lengthOf_cons_code]
        omega
      rw [List.cons_append, placed, inductionHypothesis, width, placed,
        List.cons_append]

variable {source : Source} {offset : Nat} {items : List α}

/-- The first item of a printed list, and the others. -/
theorem Shows.uncons {first : List Piece} {second : List Piece}
    {rest : List (List Piece)}
    (shows : Shows source offset (listed (first :: second :: rest))) :
    Shows source offset first ∧
      source.codeAt? (offset + lengthOf first) = some ',' ∧
      source.codeAt? (offset + lengthOf first + 1) = some ' ' ∧
      Shows source (offset + lengthOf first + 2) (listed (second :: rest)) := by
  rw [listed_cons_cons] at shows
  have comma := shows.back
  have blank := @back _ _ _ [.code ','] comma
  have later := @back _ _ _ [.code ' '] blank
  exact ⟨shows.front, comma.code, blank.code, later⟩

/-- Every item of a printed list is shown at its place. -/
theorem Shows.item (shows : Shows source offset (listed (items.map print)))
    {entry : Nat × α} (member : entry ∈ placed print offset items) :
    Shows source entry.1 (print entry.2) ∧ offset ≤ entry.1 ∧
      entry.1 + lengthOf (print entry.2) ≤
        offset + lengthOf (listed (items.map print)) := by
  induction items generalizing offset with
  | nil => cases member
  | cons first rest inductionHypothesis =>
      cases rest with
      | nil =>
          rw [List.map_singleton, listed_singleton] at shows ⊢
          cases List.mem_singleton.mp member
          exact ⟨shows, Nat.le_refl _, Nat.le_refl _⟩
      | cons second rest =>
          rw [List.map_cons, List.map_cons] at shows
          obtain ⟨here, -, -, later⟩ := shows.uncons
          rw [List.map_cons, List.map_cons, length_listed_cons]
          rcases List.mem_cons.mp member with rfl | inside
          · refine ⟨here, Nat.le_refl _, ?_⟩
            simp only
            omega
          · obtain ⟨shown, lower, upper⟩ := inductionHypothesis later inside
            rw [List.map_cons] at upper
            exact ⟨shown, by omega, by omega⟩

/-- Items are printed one behind the other. -/
theorem placed_apart (items : List α) (start : Nat) :
    (∀ entry ∈ placed print start items, start ≤ entry.1) ∧
      (placed print start items).Pairwise fun first second =>
        first.1 + lengthOf (print first.2) < second.1 := by
  induction items generalizing start with
  | nil => exact ⟨(fun _ member => nomatch member), .nil⟩
  | cons item rest inductionHypothesis =>
      obtain ⟨lower, apart⟩ :=
        inductionHypothesis (start + lengthOf (print item) + 2)
      refine ⟨fun entry member => ?_, List.pairwise_cons.mpr
        ⟨fun entry member => ?_, apart⟩⟩
      · rcases List.mem_cons.mp member with rfl | inside
        · exact Nat.le_refl _
        · have bound := lower entry inside
          omega
      · have bound := lower entry member
        simp only
        omega

/-- What stands in front of an item leaves the depth as it was. -/
theorem Shows.level_item
    (shows : Shows source offset (listed (items.map print)))
    (balanced : ∀ item ∈ items, Balanced (codeIn (print item)))
    {entry : Nat × α} (member : entry ∈ placed print offset items) :
    depthThrough 0 (Marked.chars (source.codeChars offset entry.1)) = 0 := by
  induction items generalizing offset with
  | nil => cases member
  | cons first rest inductionHypothesis =>
      rcases List.mem_cons.mp member with rfl | inside
      · rw [Source.codeChars_of_le (Nat.le_refl _)]
        rfl
      · cases rest with
        | nil => cases inside
        | cons second rest =>
            rw [List.map_cons, List.map_cons] at shows
            obtain ⟨here, comma, blank, later⟩ := shows.uncons
            have flat := inductionHypothesis later
              (fun item known => balanced item (List.mem_cons_of_mem first known))
              inside
            have bound := ((@placed_apart _ print (second :: rest) _).1 entry
              inside)
            have level := here.level (balanced first List.mem_cons_self)
            rw [here.level_behind (balanced first List.mem_cons_self) entry.1
              (by omega), Source.codeChars_cons (by omega) comma,
              Source.codeChars_cons (by omega) blank]
            exact flat

end

/-! ### Elements -/

/-- Whether pieces are one element of an array: they start and end with what
counts and have no comma outside of brackets. -/
structure IsElement (pieces : List Piece) : Prop where
  balanced : Balanced (codeIn pieces)
  single : ∀ before after, codeIn pieces = before ++ ',' :: after →
    depthThrough 0 before ≠ 0
  first : ∃ cell rest, cellsOf pieces = cell :: rest ∧ isVisible cell
  last : ∃ rest cell, cellsOf pieces = rest ++ [cell] ∧ isVisible cell

theorem isElement_value (text : String) : IsElement [.value text] := by
  obtain ⟨inner, cells⟩ := quotedCells_eq text
  have same : cellsOf [.value text] = quotedCells text := by
    rw [cellsOf, List.flatMap_cons, List.flatMap_nil, List.append_nil]
    rfl
  refine
    { balanced := .nil
      single := fun before after split => ?_
      first := ⟨_, _, same.trans cells, by decide⟩
      last := ⟨⟨some '"', .literal⟩ :: inner, _, same.trans cells, by decide⟩ }
  rw [codeIn_cons_value, codeIn_nil] at split
  cases before <;> cases split

/-- Inside of brackets the depth is not zero. -/
theorem depth_inside {front inner before after : List Char}
    (flat : ∀ c ∈ front, Bracket.ofChar? c = none ∧ c ≠ ',')
    (balanced : Balanced inner)
    (split : front ++ '(' :: (inner ++ [')']) = before ++ ',' :: after) :
    depthThrough 0 before ≠ 0 := by
  have level : depthThrough 0 front = 0 :=
    (Balanced.of_plain fun c member => (flat c member).1).depth 0
  rcases List.append_eq_append_iff.mp split with
    ⟨extra, rfl, later⟩ | ⟨extra, rfl, later⟩
  · cases extra with
    | nil => cases later
    | cons c extra =>
        rw [List.cons_append, List.cons.injEq] at later
        obtain ⟨rfl, later⟩ := later
        rcases List.append_eq_append_iff.mp later with
          ⟨extra', rfl, last⟩ | ⟨extra', rfl, -⟩
        · cases extra' with
          | nil => cases last
          | cons d extra' =>
              rw [List.cons_append, List.cons.injEq] at last
              have none := congrArg List.length last.2
              simp at none
        · -- the comma stands behind a part of what is in the brackets
          have part := @Balanced.openBefore_part _ balanced
            (extra.map fun c => (0, c)) (extra'.map fun c => (0, c))
            (by simp [Marked.chars, Function.comp_def]) []
          obtain ⟨added, -, depth⟩ := part
          have chars : Marked.chars (extra.map fun c => (0, c)) = extra := by
            simp [Marked.chars, Function.comp_def]
          rw [chars] at depth
          rw [Source.depthThrough_append, level]
          have opens : depthThrough 0 ('(' :: extra) = depthThrough 1 extra := rfl
          rw [opens, depth]
          omega
  · cases extra with
    | nil => cases later
    | cons c extra =>
        rw [List.cons_append, List.cons.injEq] at later
        exact absurd later.1.symm
          (flat c (List.mem_append_right _ List.mem_cons_self)).2

theorem dotted (name : String) : ("." ++ name).toList = '.' :: name.toList := by
  rw [String.toList_append]
  rfl

theorem plain_of_isNameChar {c : Char} (name : Source.isNameChar c) :
    isPlain c := by
  rw [isPlain, Source.not_isEdge_of_isNameChar name,
    Source.utf8Size_of_isNameChar name]
  rfl

theorem dotted_plain {name : String} (good : isName name) :
    ∀ c ∈ ("." ++ name).toList, isPlain c ∧ Bracket.ofChar? c = none ∧ c ≠ ',' := by
  intro c member
  rw [dotted, List.mem_cons] at member
  rcases member with rfl | inside
  · decide
  · have known := name_plain good c inside
    refine ⟨plain_of_isNameChar known, Source.no_bracket_of_name known, ?_⟩
    rintro rfl
    cases known

theorem isElement_call {name : String} {arguments : List Argument}
    (good : isName name)
    (sound : Balanced (codeIn (listed (arguments.map Argument.pieces)))) :
    IsElement (memberCall name arguments) := by
  have code : codeIn (memberCall name arguments) = ("." ++ name).toList ++
      '(' :: (codeIn (listed (arguments.map Argument.pieces)) ++ [')']) := by
    simp only [memberCall, parenthesized, codeIn_append, codeIn_plainly,
      codeIn_cons_code, codeIn_nil]
  have flat := dotted_plain good
  refine
    { balanced := ?_
      single := fun before after split => ?_
      first := ⟨codeCell '.', cellsOf (plainly name.toList ++
        parenthesized arguments), ?_, by decide⟩
      last := ⟨cellsOf (plainly ("." ++ name).toList ++ .code '(' ::
        listed (arguments.map Argument.pieces)), codeCell ')', ?_, by decide⟩ }
  · rw [code]
    exact (Balanced.of_plain fun c member => (flat c member).2.1).append
      (.nested rfl rfl sound .nil)
  · rw [code] at split
    exact depth_inside (fun c member => (flat c member).2) sound split
  · rw [memberCall, dotted]
    rfl
  · rw [memberCall, parenthesized, ← List.cons_append, ← List.append_assoc,
      cellsOf_append]
    rfl

section

variable {source : Source}

/-- An element that is shown is found between what does not count. -/
theorem Shows.trimmed {pieces : List Piece} {start place : Nat}
    (shows : Shows source place pieces) (element : IsElement pieces)
    (lower : start ≤ place)
    (clear : ∀ position, start ≤ position → position < place →
      source.isSignificant position = false) :
    source.trimmed? ⟨start, place + lengthOf pieces⟩ =
      some ⟨place, place + lengthOf pieces⟩ := by
  obtain ⟨cell, rest, first, visible⟩ := element.first
  obtain ⟨front, final, last, visible'⟩ := element.last
  have length : lengthOf pieces = front.length + 1 := by
    rw [lengthOf, last, List.length_append, List.length_singleton]
  have starts : source.isSignificant place := by
    have here := shows.cells 0 (by omega)
    rw [Nat.add_zero, first] at here
    rw [isSignificant_eq, here]
    exact visible
  have ends : source.isSignificant (place + front.length) := by
    have here := shows.cells front.length (by omega)
    rw [last, List.getElem?_append_right (Nat.le_refl _), Nat.sub_self] at here
    rw [isSignificant_eq, here]
    exact visible'
  refine Source.trimmed_eq_some_iff.mpr ⟨Source.next_eq_some_iff.mpr
    ⟨lower, by simp only; omega, starts, clear⟩, place + front.length,
    Source.last_eq_some_iff.mpr ⟨by simp only; omega, by simp only; omega, ends,
      fun other above below => ?_⟩, by simp only; omega⟩
  simp only at below
  omega

/-- What does not count has no brackets. -/
theorem balanced_clear {start place : Nat}
    (clear : ∀ position, start ≤ position → position < place →
      source.isSignificant position = false) :
    Balanced (Marked.chars (source.codeChars start place)) := by
  refine Balanced.of_plain fun c inside => ?_
  obtain ⟨⟨position, d⟩, entry, rfl⟩ := List.mem_map.mp inside
  obtain ⟨lower, upper, here⟩ := Source.mem_codeChars.mp entry
  exact Source.no_bracket_of_hidden here (clear position lower upper)

/-- An element that is shown has no comma directly in it. -/
theorem Shows.no_commas {pieces : List Piece} {start place : Nat}
    (shows : Shows source place pieces) (element : IsElement pieces)
    (lower : start ≤ place)
    (clear : ∀ position, start ≤ position → position < place →
      source.isSignificant position = false) :
    Source.commas 0 (source.codeChars start (place + lengthOf pieces)) = [] := by
  refine List.eq_nil_iff_forall_not_mem.mpr fun position member => ?_
  obtain ⟨least, upper, code, level⟩ := Source.comma_level member
  rcases Nat.lt_or_ge position place with before | behind
  · have hidden := clear position least before
    rw [Source.isSignificant_of_codeAt code rfl] at hidden
    cases hidden
  · rw [Source.codeChars_append lower behind, Marked.chars_append,
      Source.depthThrough_append, (balanced_clear clear).depth] at level
    refine element.single (Marked.chars (source.codeChars place position))
      (Marked.chars (source.codeChars (position + 1)
        (place + lengthOf pieces))) ?_ level
    rw [← shows.chars_codeChars, Source.codeChars_append behind
      (Nat.le_of_lt upper), Source.codeChars_cons upper code,
      Marked.chars_append]
    rfl

variable {α : Type} {print : α → List Piece}

/-- The elements of a printed list are the ranges of its items. -/
theorem Shows.elementsIn {items : List α} {start place : Nat}
    (shows : Shows source place (listed (items.map print)))
    (element : ∀ item ∈ items, IsElement (print item)) (lower : start ≤ place)
    (clear : ∀ position, start ≤ position → position < place →
      source.isSignificant position = false) :
    source.elementsIn start (place + lengthOf (listed (items.map print))) =
      (placed print place items).map (rangeOf print) := by
  induction items generalizing start place with
  | nil => exact Source.elementsIn_of_clear clear
  | cons first rest inductionHypothesis =>
      have known := element first List.mem_cons_self
      cases rest with
      | nil =>
          rw [List.map_singleton, listed_singleton] at shows ⊢
          rw [Source.elementsIn_of_no_commas (shows.no_commas known lower clear),
            shows.trimmed known lower clear]
          rfl
      | cons second rest =>
          rw [List.map_cons, List.map_cons] at shows
          obtain ⟨here, comma, blank, later⟩ := shows.uncons
          have behind : ∀ position, place + lengthOf (print first) + 1 ≤ position →
              position < place + lengthOf (print first) + 2 →
              source.isSignificant position = false := by
            intro position above below
            obtain rfl : position = place + lengthOf (print first) + 1 := by omega
            rw [isSignificant_eq, Source.codeAt_eq_some blank]
            rfl
          have level : depthThrough 0 (Marked.chars
              (source.codeChars start (place + lengthOf (print first)))) = 0 := by
            rw [Source.codeChars_append lower (Nat.le_add_right _ _),
              Marked.chars_append, Source.depthThrough_append,
              (balanced_clear clear).depth, here.level known.balanced]
          have next := inductionHypothesis later
            (fun item member => element item (List.mem_cons_of_mem first member))
            (Nat.le_succ _) behind
          rw [List.map_cons, List.map_cons, length_listed_cons,
            ← Nat.add_assoc, ← Nat.add_assoc,
            Source.elementsIn_cut (by omega) (by omega) comma level,
            Source.elementsIn_of_no_commas (here.no_commas known lower clear),
            here.trimmed known lower clear, placed, List.map_cons, ← next]
          rfl

end

end PackageLayers.Manifest

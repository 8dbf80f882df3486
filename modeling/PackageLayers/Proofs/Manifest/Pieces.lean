/-
Purpose: What a text shows at a position, piece by piece.
Main exports: Piece, Shows, Shows.part, Shows.code, Shows.value,
  Shows.chars_codeChars, Fragment.shows, Shows.inserted
-/
import PackageLayers.Proofs.Manifest.Sites

namespace PackageLayers.Manifest

open Source (Span Insertion Matched Marked Balanced Regular)

/-!
What is printed is made of characters of code and of quoted values.  That a text
shows such pieces at a position says all that its readers can find there, whether
the pieces are the whole text or stand inside of another one.
-/

/-- A character of code or a quoted value. -/
inductive Piece where
  | code (c : Char)
  | value (text : String)
deriving DecidableEq

/-- The positions of a piece. -/
def Piece.cells : Piece → List Cell
  | .code c => [codeCell c]
  | .value text => quotedCells text

/-- The positions of pieces. -/
def cellsOf (pieces : List Piece) : List Cell := pieces.flatMap Piece.cells

/-- The number of positions of pieces. -/
def lengthOf (pieces : List Piece) : Nat := (cellsOf pieces).length

/-- The code of a piece. -/
def Piece.code? : Piece → Option Char
  | .code c => some c
  | .value _ => none

/-- The code of pieces. -/
def codeIn (pieces : List Piece) : List Char := pieces.filterMap Piece.code?

/-- A text as pieces of code. -/
def plainly (text : List Char) : List Piece := text.map Piece.code

@[simp] theorem lengthOf_nil : lengthOf [] = 0 := rfl

@[simp] theorem lengthOf_cons_code (c : Char) (rest : List Piece) :
    lengthOf (.code c :: rest) = lengthOf rest + 1 := rfl

theorem lengthOf_cons (piece : Piece) (rest : List Piece) :
    lengthOf (piece :: rest) = piece.cells.length + lengthOf rest := by
  rw [lengthOf, cellsOf, List.flatMap_cons, List.length_append]
  rfl

@[simp] theorem lengthOf_append (left right : List Piece) :
    lengthOf (left ++ right) = lengthOf left + lengthOf right := by
  rw [lengthOf, cellsOf, List.flatMap_append, List.length_append]
  rfl

@[simp] theorem lengthOf_plainly (text : List Char) :
    lengthOf (plainly text) = text.length := by
  induction text with
  | nil => rfl
  | cons c text inductionHypothesis =>
      rw [plainly, List.map_cons, lengthOf_cons_code, ← plainly,
        inductionHypothesis, List.length_cons]

@[simp] theorem codeIn_nil : codeIn [] = [] := rfl

@[simp] theorem codeIn_cons_code (c : Char) (rest : List Piece) :
    codeIn (.code c :: rest) = c :: codeIn rest := rfl

@[simp] theorem codeIn_cons_value (text : String) (rest : List Piece) :
    codeIn (.value text :: rest) = codeIn rest := rfl

@[simp] theorem codeIn_append (left right : List Piece) :
    codeIn (left ++ right) = codeIn left ++ codeIn right :=
  List.filterMap_append

@[simp] theorem codeIn_plainly (text : List Char) :
    codeIn (plainly text) = text := by
  induction text with
  | nil => rfl
  | cons c text inductionHypothesis =>
      rw [plainly, List.map_cons, codeIn, List.filterMap_cons]
      exact congrArg (c :: ·) inductionHypothesis

theorem cellsOf_append (left right : List Piece) :
    cellsOf (left ++ right) = cellsOf left ++ cellsOf right :=
  List.flatMap_append

theorem plainly_append (left right : List Char) :
    plainly (left ++ right) = plainly left ++ plainly right := List.map_append

theorem codeOf_cellsOf (pieces : List Piece) :
    (cellsOf pieces).filterMap codeOf = codeIn pieces := by
  induction pieces with
  | nil => rfl
  | cons piece pieces inductionHypothesis =>
      rw [cellsOf, List.flatMap_cons, List.filterMap_append, ← cellsOf,
        inductionHypothesis]
      cases piece with
      | code c => rfl
      | value text =>
          rw [Piece.cells, codeOf_quotedCells]
          rfl

theorem value_positive (text : String) : 0 < (Piece.value text).cells.length := by
  obtain ⟨inner, cells⟩ := quotedCells_eq text
  rw [Piece.cells, cells, List.length_cons]
  omega

/-- A value that lies in a part of some pieces is one of the part. -/
theorem value_of_part {before pieces after early late : List Piece}
    {value : String}
    (split : before ++ (pieces ++ after) = early ++ .value value :: late)
    (lower : lengthOf before ≤ lengthOf early)
    (upper : lengthOf early < lengthOf before + lengthOf pieces) :
    ∃ inner rest, pieces = inner ++ .value value :: rest ∧
      lengthOf early = lengthOf before + lengthOf inner := by
  rcases List.append_eq_append_iff.mp split with
    ⟨extra, rfl, later⟩ | ⟨extra, rfl, later⟩
  · rw [lengthOf_append] at upper
    rcases List.append_eq_append_iff.mp later with
      ⟨extra', rfl, -⟩ | ⟨extra', rfl, behind⟩
    · rw [lengthOf_append] at upper
      omega
    · cases extra' with
      | nil =>
          rw [List.append_nil] at upper
          omega
      | cons piece rest =>
          rw [List.cons_append, List.cons.injEq] at behind
          exact ⟨extra, rest, by rw [behind.1], lengthOf_append before extra⟩
  · cases extra with
    | nil =>
        cases pieces with
        | nil =>
            rw [List.append_nil, lengthOf_nil] at upper
            omega
        | cons piece rest =>
            rw [List.nil_append, List.cons_append, List.cons.injEq] at later
            exact ⟨[], rest, by rw [later.1]; rfl, by
              rw [List.append_nil, lengthOf_nil, Nat.add_zero]⟩
    | cons piece extra =>
        rw [List.cons_append, List.cons.injEq] at later
        have width := value_positive value
        rw [lengthOf_append, lengthOf_cons, ← later.1] at lower
        omega

/-- A text shows pieces at a position: their characters of code are code there,
their values are literals with these values, and no other literals start
there. -/
structure Shows (source : Source) (offset : Nat) (pieces : List Piece) :
    Prop where
  regular : Regular source
  cells : ∀ index, index < lengthOf pieces →
    source.cells[offset + index]? = (cellsOf pieces)[index]?
  values : ∀ before value after, pieces = before ++ .value value :: after →
    (source.literalAt? (offset + lengthOf before)).map Source.Quoted.value =
      some value
  starts : ∀ index, index < lengthOf pieces →
    (source.literalAt? (offset + index)).isSome →
      ∃ before value after, pieces = before ++ .value value :: after ∧
        index = lengthOf before

namespace Shows

variable {source : Source} {offset : Nat} {pieces : List Piece}

/-- What is shown as a part of something is shown. -/
theorem part {before after : List Piece}
    (shows : Shows source offset (before ++ (pieces ++ after))) :
    Shows source (offset + lengthOf before) pieces where
  regular := shows.regular
  cells := by
    intro index inside
    have here := shows.cells (lengthOf before + index) (by
      rw [lengthOf_append, lengthOf_append]
      omega)
    rw [cellsOf_append, List.getElem?_append_right (by rw [lengthOf]; omega),
      lengthOf, Nat.add_sub_cancel_left, cellsOf_append,
      List.getElem?_append_left inside] at here
    rw [Nat.add_assoc]
    exact here
  values := by
    rintro early value late rfl
    have here := shows.values (before ++ early) value (late ++ after)
      (by simp only [List.append_assoc, List.cons_append])
    rw [lengthOf_append] at here
    rw [Nat.add_assoc]
    exact here
  starts := by
    intro index inside literal
    rw [Nat.add_assoc] at literal
    obtain ⟨early, value, late, split, same⟩ := shows.starts _ (by
      rw [lengthOf_append, lengthOf_append]
      omega) literal
    obtain ⟨inner, rest, parts, length⟩ :=
      value_of_part split (by omega) (by omega)
    exact ⟨inner, value, rest, parts, by omega⟩

theorem front {after : List Piece}
    (shows : Shows source offset (pieces ++ after)) :
    Shows source offset pieces :=
  @part source offset pieces [] after shows

theorem back {before : List Piece}
    (shows : Shows source offset (before ++ pieces)) :
    Shows source (offset + lengthOf before) pieces :=
  @part source offset pieces before [] (by rwa [List.append_nil])

theorem code {c : Char} {rest : List Piece}
    (shows : Shows source offset (.code c :: rest)) :
    source.codeAt? offset = some c := by
  have here := shows.cells 0 (by rw [lengthOf_cons_code]; omega)
  rw [codeAt_eq, ← Nat.add_zero offset, here]
  rfl

theorem value {text : String} {rest : List Piece}
    (shows : Shows source offset (.value text :: rest)) :
    (source.literalAt? offset).map Source.Quoted.value = some text :=
  shows.values [] text rest rfl

/-- A quoted value starts with a position that counts. -/
theorem value_significant {text : String} {rest : List Piece}
    (shows : Shows source offset (.value text :: rest)) :
    source.isSignificant offset := by
  obtain ⟨inner, cells⟩ := quotedCells_eq text
  have here := shows.cells 0 (by
    rw [lengthOf_cons, Piece.cells, cells, List.length_cons]
    omega)
  have first : (cellsOf (.value text :: rest))[0]? =
      some ⟨some '"', .literal⟩ := by
    rw [cellsOf, List.flatMap_cons, Piece.cells, cells]
    rfl
  rw [isSignificant_eq, ← Nat.add_zero offset, here, first]
  rfl

/-- A position of shown code. -/
theorem plain {text : List Char} {rest : List Piece}
    (shows : Shows source offset (plainly text ++ rest)) {index : Nat} {c : Char}
    (here : text[index]? = some c) : source.codeAt? (offset + index) = some c := by
  obtain ⟨inside, rfl⟩ := List.getElem?_eq_some_iff.mp here
  have split : plainly text ++ rest = plainly (text.take index) ++
      (.code text[index] :: (plainly (text.drop (index + 1)) ++ rest)) := by
    have parts := List.take_append_drop index text
    rw [List.drop_eq_getElem_cons inside] at parts
    conv_lhs => rw [← parts]
    rw [plainly_append, List.append_assoc]
    rfl
  rw [split] at shows
  have found := shows.back.code
  rwa [lengthOf_plainly, List.length_take, Nat.min_eq_left
    (Nat.le_of_lt inside)] at found

/-- The code of what is shown. -/
theorem chars_codeChars (shows : Shows source offset pieces) :
    Marked.chars (source.codeChars offset (offset + lengthOf pieces)) =
      codeIn pieces := by
  have aligned : ∀ position, offset ≤ position →
      position < offset + lengthOf pieces → source.cells[position]? =
        ((List.replicate offset (codeCell ' ') ++ cellsOf pieces).toArray)[position]? := by
    intro position lower upper
    obtain ⟨index, rfl⟩ := Nat.exists_eq_add_of_le lower
    rw [shows.cells index (by omega), List.getElem?_toArray,
      List.getElem?_append_right (by simp), List.length_replicate,
      Nat.add_sub_cancel_left]
  have alone := @Source.codeChars_congr source
    ⟨(List.replicate offset (codeCell ' ') ++ cellsOf pieces).toArray, []⟩
    offset (offset + lengthOf pieces) aligned
  have read := @PackageLayers.Manifest.chars_codeChars
    ⟨(List.replicate offset (codeCell ' ') ++ cellsOf pieces).toArray, []⟩
    (List.replicate offset (codeCell ' ')) (cellsOf pieces) []
    (by rw [List.append_nil])
  rw [List.length_replicate, codeOf_cellsOf] at read
  rw [alone]
  exact read

/-- What is not in the code of what is shown is not shown. -/
theorem not_code (shows : Shows source offset pieces) {c : Char}
    (lacks : c ∉ codeIn pieces) {position : Nat} (lower : offset ≤ position)
    (upper : position < offset + lengthOf pieces) :
    source.codeAt? position ≠ some c := by
  intro code
  refine lacks ?_
  rw [← shows.chars_codeChars]
  exact List.mem_map.mpr
    ⟨(position, c), Source.mem_codeChars.mpr ⟨lower, upper, code⟩, rfl⟩

/-- Nothing is code inside of a value. -/
theorem value_code {text : String} {rest : List Piece}
    (shows : Shows source offset (.value text :: rest)) {index : Nat}
    (inside : index < (quotedCells text).length) :
    source.codeAt? (offset + index) = none := by
  have here := shows.cells index (by
    rw [lengthOf_cons, Piece.cells]
    omega)
  rw [cellsOf, List.flatMap_cons, Piece.cells, List.getElem?_append_left inside,
    List.getElem?_eq_getElem inside] at here
  have literal := literal_of_mem_quotedCells (List.getElem_mem inside)
  rw [codeAt_eq, here, Option.bind_some, codeOf, if_neg (by rw [literal]; decide)]

end Shows

/-! ### Fragments -/

/-- The pieces of a fragment. -/
def Fragment.pieces (fragment : Fragment) : List Piece :=
  plainly fragment.lead ++
    fragment.rest.flatMap fun part => .value part.1 :: plainly part.2

theorem cellsOf_plainly (text : List Char) :
    cellsOf (plainly text) = text.map codeCell := by
  rw [cellsOf, plainly, List.flatMap_map]
  exact List.flatMap_pure_eq_map codeCell text

namespace Fragment

theorem cellsOf_pieces (fragment : Fragment) :
    cellsOf fragment.pieces = fragment.cells := by
  rw [pieces, PackageLayers.Manifest.cellsOf_append, cellsOf_plainly, cells]
  congr 1
  rw [cellsOf, List.flatMap_assoc]
  refine List.flatMap_congr fun part _ => ?_
  rw [List.flatMap_cons, ← cellsOf, cellsOf_plainly]
  rfl

theorem lengthOf_pieces (fragment : Fragment) :
    lengthOf fragment.pieces = fragment.cells.length := by
  rw [lengthOf, cellsOf_pieces]

/-- A value among the pieces of a fragment is one of its values. -/
theorem split_of_pieces {lead : List Char} {rest : List (String × List Char)}
    {before after : List Piece} {value : String}
    (split : (Fragment.mk lead rest).pieces = before ++ .value value :: after) :
    ∃ left text right, rest = left ++ (value, text) :: right ∧
      before = (Fragment.mk lead left).pieces := by
  induction rest generalizing lead before with
  | nil =>
      rw [pieces, List.flatMap_nil, List.append_nil] at split
      have member : Piece.value value ∈ plainly lead := by
        rw [split]
        simp
      obtain ⟨c, -, same⟩ := List.mem_map.mp member
      cases same
  | cons part rest inductionHypothesis =>
      rw [pieces, List.flatMap_cons, List.cons_append] at split
      rcases List.append_eq_append_iff.mp split with
        ⟨extra, rfl, later⟩ | ⟨extra, early, later⟩
      · cases extra with
        | nil =>
            rw [List.nil_append, List.cons.injEq, Piece.value.injEq] at later
            obtain ⟨rfl, -⟩ := later
            exact ⟨[], part.2, rest, rfl, by
              rw [pieces, List.flatMap_nil]⟩
        | cons piece extra =>
            rw [List.cons_append, List.cons.injEq] at later
            obtain ⟨rfl, later⟩ := later
            obtain ⟨left, text, right, rfl, same⟩ :=
              @inductionHypothesis part.2 extra later
            refine ⟨part :: left, text, right, rfl, ?_⟩
            rw [same, pieces, pieces, List.flatMap_cons, List.cons_append]
      · cases extra with
        | nil =>
            rw [List.nil_append, List.cons.injEq, Piece.value.injEq] at later
            obtain ⟨rfl, -⟩ := later
            refine ⟨[], part.2, rest, rfl, ?_⟩
            rw [pieces, List.flatMap_nil, early, List.append_nil, List.append_nil]
        | cons piece extra =>
            rw [List.cons_append, List.cons.injEq] at later
            have member : Piece.value value ∈ plainly lead := by
              rw [early, ← later.1]
              simp
            obtain ⟨c, -, same⟩ := List.mem_map.mp member
            cases same

/-- A fragment on its own shows its pieces. -/
theorem shows {fragment : Fragment} (good : fragment.Good) :
    Shows fragment.source 0 fragment.pieces where
  regular := Fragment.regular good
  cells := by
    intro index _
    rw [Nat.zero_add, cellsOf_pieces, source_cell good]
  values := by
    intro before value after split
    obtain ⟨left, text, right, rest, rfl⟩ := split_of_pieces split
    rw [Nat.zero_add, Fragment.literalAt good rest (lengthOf_pieces _)]
    rfl
  starts := by
    intro index _ literal
    rw [Nat.zero_add, Source.literalAt_eq, Option.isSome_map,
      List.find?_isSome] at literal
    obtain ⟨found, member, same⟩ := literal
    obtain ⟨left, part, right, rest, start⟩ := value_of_literal good member
    rw [beq_iff_eq] at same
    refine ⟨(Fragment.mk fragment.lead left).pieces, part.1,
      plainly part.2 ++ right.flatMap fun part => .value part.1 :: plainly part.2,
      ?_, by rw [← same, start, lengthOf_pieces]⟩
    rw [pieces, rest, pieces, List.flatMap_append, List.flatMap_cons,
      List.append_assoc]
    rfl

end Fragment

/-- What a fragment shows, a text with the fragment in it shows too. -/
theorem Shows.inserted {insertion : Insertion} (seam : insertion.Seam)
    {offset : Nat} {pieces : List Piece}
    (shows : Shows insertion.fragment offset pieces)
    (inside : offset + lengthOf pieces ≤ insertion.width) :
    Shows insertion.result (insertion.place + offset) pieces where
  regular := seam.resultRegular
  cells := by
    intro index short
    rw [← shows.cells index short, Nat.add_assoc,
      insertion.cells_place (by omega)]
  values := by
    rintro before value after rfl
    have length : lengthOf before < lengthOf (before ++ .value value :: after) := by
      have width := value_positive value
      rw [lengthOf_append, lengthOf_cons]
      omega
    rw [Nat.add_assoc, seam.literalAt_place (by omega)]
    exact shows.values before value after rfl
  starts := by
    intro index short literal
    refine shows.starts index short ?_
    rw [Nat.add_assoc, ← Option.isSome_map (f := Source.Quoted.value),
      seam.literalAt_place (by omega), Option.isSome_map] at literal
    exact literal

end PackageLayers.Manifest

/-
Purpose: The texts of pieces, and that they are read as the pieces.
Main exports: render, Sound, Sound.listed, shows_render
-/
import Mathlib.Data.List.Chain
import PackageLayers.Proofs.Manifest.MemberCalls

namespace PackageLayers.Manifest

open Source (Balanced Marked)

/-!
A printed text is read as it was printed if its code is plain and balanced and no
two quoted values touch: the quotes between them would be read as more.
-/

/-- The text of a piece. -/
def Piece.chars : Piece → List Char
  | .code c => [c]
  | .value text => (quote text).toList

/-- The text of pieces. -/
def render (pieces : List Piece) : String :=
  String.ofList (pieces.flatMap Piece.chars)

/-- Whether two pieces may stand next to each other. -/
def Piece.Apart (first second : Piece) : Prop :=
  first.code?.isSome ∨ second.code?.isSome

/-- Whether pieces are read as they are printed, and are closed in themselves. -/
structure Sound (pieces : List Piece) : Prop where
  plain : ∀ c ∈ codeIn pieces, isPlain c
  balanced : Balanced (codeIn pieces)
  apart : pieces.IsChain Piece.Apart

/-! ### Sound pieces -/

theorem apart_cons_code (c : Char) {rest : List Piece}
    (apart : rest.IsChain Piece.Apart) :
    (Piece.code c :: rest).IsChain Piece.Apart := by
  cases rest with
  | nil => exact .singleton _
  | cons piece rest => exact .cons_cons (Or.inl rfl) apart

theorem apart_append_code {left right : List Piece} (c : Char)
    (first : left.IsChain Piece.Apart) (second : right.IsChain Piece.Apart) :
    (left ++ .code c :: right).IsChain Piece.Apart := by
  refine List.isChain_append.mpr ⟨first, apart_cons_code c second, ?_⟩
  intro last _ head member
  cases member
  exact Or.inr rfl

namespace Sound

theorem nil : Sound [] :=
  ⟨(fun _ member => nomatch member), .nil, .nil⟩

theorem value (text : String) : Sound [.value text] :=
  ⟨(fun _ member => nomatch member), .nil, .singleton _⟩

/-- Code without brackets in front of sound pieces. -/
theorem cons {c : Char} {rest : List Piece} (plain : isPlain c)
    (flat : Bracket.ofChar? c = none) (sound : Sound rest) :
    Sound (.code c :: rest) where
  plain := by
    intro d member
    rcases List.mem_cons.mp member with rfl | later
    · exact plain
    · exact sound.plain d later
  balanced := .other flat sound.balanced
  apart := apart_cons_code c sound.apart

theorem plainly {text : List Char} {rest : List Piece}
    (plain : ∀ c ∈ text, isPlain c ∧ Bracket.ofChar? c = none)
    (sound : Sound rest) : Sound (plainly text ++ rest) := by
  induction text with
  | nil => exact sound
  | cons c text inductionHypothesis =>
      have known := plain c List.mem_cons_self
      exact cons known.1 known.2 (inductionHypothesis fun d member =>
        plain d (List.mem_cons_of_mem c member))

/-- Sound pieces in brackets. -/
theorem bracketed {kind : BracketKind} {left right : Char} {inner : List Piece}
    (opens : Bracket.ofChar? left = some (.opening kind))
    (closes : Bracket.ofChar? right = some (.closing kind))
    (plain : isPlain left ∧ isPlain right) (sound : Sound inner) :
    Sound (.code left :: (inner ++ [.code right])) where
  plain := by
    intro d member
    rw [codeIn_cons_code, codeIn_append, List.mem_cons, List.mem_append] at member
    rcases member with rfl | inside | last
    · exact plain.1
    · exact sound.plain d inside
    · cases List.mem_singleton.mp last
      exact plain.2
  balanced := by
    rw [codeIn_cons_code, codeIn_append]
    exact .nested opens closes sound.balanced .nil
  apart := apart_cons_code left (apart_append_code right sound.apart .nil)

/-- Sound pieces behind others, with code between them. -/
theorem append_code {left right : List Piece} {c : Char} (plain : isPlain c)
    (flat : Bracket.ofChar? c = none) (first : Sound left)
    (second : Sound right) : Sound (left ++ .code c :: right) where
  plain := by
    intro d member
    rw [codeIn_append, List.mem_append] at member
    rcases member with inside | later
    · exact first.plain d inside
    · rcases List.mem_cons.mp later with rfl | inside
      · exact plain
      · exact second.plain d inside
  balanced := by
    rw [codeIn_append]
    exact first.balanced.append (.other flat second.balanced)
  apart := apart_append_code c first.apart second.apart

/-- A list of sound items. -/
theorem listed {items : List (List Piece)} (sound : ∀ item ∈ items, Sound item) :
    Sound (listed items) := by
  induction items with
  | nil => exact nil
  | cons first rest inductionHypothesis =>
      have head := sound first List.mem_cons_self
      have later := inductionHypothesis fun item member =>
        sound item (List.mem_cons_of_mem first member)
      cases rest with
      | nil =>
          rw [PackageLayers.Manifest.listed, List.flatMap_nil, List.append_nil]
          exact head
      | cons second rest =>
          have split : PackageLayers.Manifest.listed (first :: second :: rest) =
              first ++ .code ',' :: .code ' ' ::
                PackageLayers.Manifest.listed (second :: rest) := by
            simp [PackageLayers.Manifest.listed]
          rw [split]
          exact append_code (by decide) (by decide) head
            (cons (by decide) (by decide) later)

end Sound

/-! ### Reading what is printed -/

namespace Fragment

/-- Pieces as a fragment. -/
def ofPieces : List Piece → Fragment
  | [] => ⟨[], []⟩
  | .code c :: rest => ⟨c :: (ofPieces rest).lead, (ofPieces rest).rest⟩
  | .value text :: rest => ⟨[], (text, (ofPieces rest).lead) :: (ofPieces rest).rest⟩

theorem pieces_ofPieces (pieces : List Piece) :
    (ofPieces pieces).pieces = pieces := by
  induction pieces with
  | nil => rfl
  | cons piece rest inductionHypothesis =>
      conv_rhs => rw [← inductionHypothesis]
      cases piece <;> rfl

theorem chars_ofPieces (pieces : List Piece) :
    (ofPieces pieces).chars = pieces.flatMap Piece.chars := by
  induction pieces with
  | nil => rfl
  | cons piece rest inductionHypothesis =>
      rw [List.flatMap_cons, ← inductionHypothesis]
      cases piece <;> simp [ofPieces, chars, Piece.chars]

theorem code_ofPieces (pieces : List Piece) :
    (ofPieces pieces).code = codeIn pieces := by
  induction pieces with
  | nil => rfl
  | cons piece rest inductionHypothesis =>
      cases piece <;> simp [ofPieces, code, ← inductionHypothesis]

/-- The code between two values is not empty. -/
theorem between_ofPieces {pieces : List Piece}
    (apart : pieces.IsChain Piece.Apart) :
    ∀ part ∈ (ofPieces pieces).rest.dropLast, part.2 ≠ [] := by
  induction pieces with
  | nil => exact fun _ member => nomatch member
  | cons piece rest inductionHypothesis =>
      have later := inductionHypothesis apart.tail
      cases piece with
      | code c => exact later
      | value text =>
          intro part member
          rw [ofPieces] at member
          cases rest with
          | nil => cases member
          | cons next rest =>
              cases next with
              | value other =>
                  rcases (List.isChain_cons_cons.mp apart).1 with none | none <;>
                    cases none
              | code c =>
                  cases kept : (ofPieces (.code c :: rest)).rest with
                  | nil =>
                      rw [kept] at member
                      cases member
                  | cons second others =>
                      rw [kept] at member later
                      rcases List.mem_cons.mp member with rfl | inside
                      · exact List.cons_ne_nil _ _
                      · exact later part inside

end Fragment

theorem Sound.fragment {pieces : List Piece} (sound : Sound pieces) :
    (Fragment.ofPieces pieces).Good where
  lead := by
    intro c member
    refine sound.plain c ?_
    rw [← Fragment.code_ofPieces, Fragment.code]
    exact List.mem_append_left _ member
  rest := by
    intro part member c inside
    refine sound.plain c ?_
    rw [← Fragment.code_ofPieces, Fragment.code]
    exact List.mem_append_right _ (List.mem_flatMap_of_mem member inside)
  between := Fragment.between_ofPieces sound.apart

/-- The text of sound pieces shows the pieces. -/
theorem shows_render {pieces : List Piece} (sound : Sound pieces) :
    Shows (Source.ofText (render pieces)) 0 pieces := by
  have shows := Fragment.shows sound.fragment
  rw [Fragment.pieces_ofPieces, Fragment.source, Fragment.chars_ofPieces] at shows
  exact shows

theorem size_render {pieces : List Piece} (sound : Sound pieces) :
    (Source.ofText (render pieces)).size = lengthOf pieces := by
  have size := Fragment.source_size sound.fragment
  rw [← Fragment.lengthOf_pieces, Fragment.pieces_ofPieces, Fragment.source,
    Fragment.chars_ofPieces] at size
  exact size

end PackageLayers.Manifest

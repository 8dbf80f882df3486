/-
Purpose: What edits make of a text, and that a manifest is changed by nothing but
insertions.
Main exports: interleaved, toList_applyEdits, applyEdits_perm, Grown, addDependency_grows,
  addDependency_longer, edits_insert
-/
import Mathlib.Logic.Relation
import PackageLayers.Proofs.Manifest.LocalPatch
import PackageLayers.Proofs.Manifest.Placement

namespace PackageLayers.Manifest

open Source (Between Span IsPair byteLength)

/-!
Edits are made one by one, each in the text that the ones before it left.  Made
from the last position to the first they do not meet, and the result is as if all
of them were made at once.  Edits only insert, and some edit of every insertion has
a text, so a text with changes is longer than it was and contains all that it was.
-/

/-! ### All edits at once -/

/-- The texts of the edits at a position, in the order of their list. -/
def textAt (edits : List Edit) (position : Nat) : List Char :=
  (edits.filter fun edit => edit.position == position).flatMap fun edit =>
    edit.text.toList

/-- Characters from a position on, each behind the texts of the edits at its
place. -/
def interleaved (edits : List Edit) : (position : Nat) → List Char → List Char
  | position, [] => textAt edits position
  | position, c :: rest =>
      textAt edits position ++ c :: interleaved edits (position + c.utf8Size) rest

theorem textAt_eq_nil {edits : List Edit} {position : Nat}
    (none : ∀ edit ∈ edits, edit.position ≠ position) :
    textAt edits position = [] := by
  rw [textAt, List.filter_eq_nil_iff.mpr, List.flatMap_nil]
  exact fun edit member => by simpa using none edit member

theorem textAt_cons_of_ne {edit : Edit} {edits : List Edit} {position : Nat}
    (apart : edit.position ≠ position) :
    textAt (edit :: edits) position = textAt edits position := by
  rw [textAt, List.filter_cons_of_neg (by simpa using apart), ← textAt]

/-- What edits make depends on their texts at each position only. -/
theorem interleaved_congr {edits others : List Edit}
    (same : ∀ position, textAt edits position = textAt others position)
    (position : Nat) (chars : List Char) :
    interleaved edits position chars = interleaved others position chars := by
  induction chars generalizing position with
  | nil => exact same position
  | cons c rest inductionHypothesis =>
      rw [interleaved, interleaved, same, inductionHypothesis]

theorem interleaved_nil (position : Nat) (chars : List Char) :
    interleaved [] position chars = chars := by
  induction chars generalizing position with
  | nil => rfl
  | cons c rest inductionHypothesis =>
      rw [interleaved, inductionHypothesis]
      rfl

/-- Edits behind a part of the text leave that part as it is. -/
theorem interleaved_append {edits : List Edit} {position : Nat}
    {before : List Char}
    (behind : ∀ edit ∈ edits, position + byteLength before ≤ edit.position)
    (after : List Char) :
    interleaved edits position (before ++ after) =
      before ++ interleaved edits (position + byteLength before) after := by
  induction before generalizing position with
  | nil => rfl
  | cons c before inductionHypothesis =>
      rw [byteLength, ← Nat.add_assoc] at behind ⊢
      have width := Source.utf8Size_pos c
      have empty : textAt edits position = [] := by
        refine textAt_eq_nil fun edit member => ?_
        have late := behind edit member
        omega
      rw [List.cons_append, interleaved, empty, inductionHypothesis behind]
      rfl

/-- An edit before a part of the text leaves that part as it is. -/
theorem interleaved_cons_of_lt {edit : Edit} {edits : List Edit} {position : Nat}
    (early : edit.position < position) (chars : List Char) :
    interleaved (edit :: edits) position chars = interleaved edits position chars := by
  induction chars generalizing position with
  | nil => exact textAt_cons_of_ne (Nat.ne_of_lt early)
  | cons c rest inductionHypothesis =>
      rw [interleaved, interleaved, textAt_cons_of_ne (Nat.ne_of_lt early),
        inductionHypothesis (Nat.lt_add_right _ early)]

/-- An edit at the start of a text comes before all others. -/
theorem interleaved_cons_here (edit : Edit) (edits : List Edit)
    (chars : List Char) :
    interleaved (edit :: edits) edit.position chars =
      edit.text.toList ++ interleaved edits edit.position chars := by
  have first : textAt (edit :: edits) edit.position =
      edit.text.toList ++ textAt edits edit.position := by
    rw [textAt, List.filter_cons_of_pos (by simp), List.flatMap_cons, ← textAt]
  cases chars with
  | nil => exact first
  | cons c rest =>
      rw [interleaved, interleaved, first, interleaved_cons_of_lt
        (Nat.lt_add_of_pos_right (Source.utf8Size_pos c)), List.append_assoc]

/-- One edit made where no other was made before it. -/
theorem insertAt_interleaved {edit : Edit} {done : List Edit} {chars : List Char}
    (between : Between chars edit.position)
    (behind : ∀ other ∈ done, edit.position ≤ other.position) :
    insertAt edit.text.toList edit.position (interleaved done 0 chars) =
      interleaved (edit :: done) 0 chars := by
  obtain ⟨before, after, rfl, place⟩ := between
  have all : ∀ other ∈ edit :: done, 0 + byteLength before ≤ other.position := by
    rw [Nat.zero_add, place]
    exact List.forall_mem_cons.mpr ⟨Nat.le_refl _, behind⟩
  rw [interleaved_append all,
    interleaved_append fun other member => all other (List.mem_cons_of_mem _ member),
    Nat.zero_add, place, interleaved_cons_here, ← place, insertAt_append,
    List.append_assoc]

/-- Edits made one by one, from the last position to the first. -/
theorem foldl_insertAt {work done : List Edit} {chars : List Char}
    (between : ∀ edit ∈ work, Between chars edit.position)
    (descends : work.Pairwise fun first second => second.position ≤ first.position)
    (behind : ∀ edit ∈ work, ∀ other ∈ done, edit.position ≤ other.position) :
    work.foldl (fun chars edit => insertAt edit.text.toList edit.position chars)
        (interleaved done 0 chars) =
      interleaved (work.reverse ++ done) 0 chars := by
  induction work generalizing done with
  | nil => rfl
  | cons edit work inductionHypothesis =>
      obtain ⟨first, descends⟩ := List.pairwise_cons.mp descends
      obtain ⟨here, between⟩ := List.forall_mem_cons.mp between
      obtain ⟨low, behind⟩ := List.forall_mem_cons.mp behind
      rw [List.foldl_cons, insertAt_interleaved here low,
        inductionHypothesis between descends, List.reverse_cons, List.append_assoc,
        List.singleton_append]
      exact fun later member => List.forall_mem_cons.mpr
        ⟨first later member, behind later member⟩

theorem inOrderOfWork_descends (edits : List Edit) :
    (inOrderOfWork edits).Pairwise fun first second =>
      second.position ≤ first.position := by
  refine (sortBy_pairwise ?_ ?_ edits.reverse).imp fun order =>
    of_decide_eq_true order
  · intro first second
    simp only [decide_eq_true_eq]
    exact Nat.le_total _ _
  · intro first second third
    simp only [decide_eq_true_eq]
    exact fun order later => Nat.le_trans later order

/-- The order of work keeps edits at one position together, the last one first. -/
theorem textAt_inOrderOfWork (edits : List Edit) (position : Nat) :
    textAt (inOrderOfWork edits).reverse position = textAt edits position := by
  have alike : ∀ first second : Edit, (first.position == position) = true →
      (second.position == position) = true →
      decide (second.position ≤ first.position) = true := by
    simp only [beq_iff_eq, decide_eq_true_eq]
    rintro first second rfl same
    exact Nat.le_of_eq same
  rw [textAt, List.filter_reverse, inOrderOfWork, sortBy_filter alike,
    List.filter_reverse, List.reverse_reverse, textAt]

/-- Edits between the characters of a text are made at once: in front of each
character come the texts of the edits at its position, in the order of their list,
and nothing else is added. -/
theorem toList_applyEdits {text : String} {edits : List Edit}
    (between : ∀ edit ∈ edits, Between text.toList edit.position) :
    (applyEdits text edits).toList = interleaved edits 0 text.toList := by
  have made := @foldl_insertAt (inOrderOfWork edits) [] text.toList
    (fun edit member => between edit (by
      rw [inOrderOfWork, mem_sortBy, List.mem_reverse] at member
      exact member))
    (inOrderOfWork_descends edits) fun _ _ => List.forall_mem_nil _
  rw [interleaved_nil, List.append_nil] at made
  rw [applyEdits, String.toList_ofList, made]
  exact interleaved_congr (textAt_inOrderOfWork edits) 0 text.toList

/-- All characters are there still, in their order. -/
theorem sublist_interleaved (edits : List Edit) (position : Nat)
    (chars : List Char) : chars.Sublist (interleaved edits position chars) := by
  induction chars generalizing position with
  | nil => exact List.nil_sublist _
  | cons c rest inductionHypothesis =>
      exact ((inductionHypothesis _).cons_cons c).trans (List.sublist_append_right _ _)

/-- Whether some edit inserts a text. -/
def Adds (edits : List Edit) : Prop :=
  ∃ edit ∈ edits, edit.text ≠ ""

theorem insertAt_perm (inserted : List Char) (position : Nat) (chars : List Char) :
    (insertAt inserted position chars).Perm (inserted ++ chars) := by
  induction chars generalizing position with
  | nil => cases position <;> simp [insertAt]
  | cons c chars inductionHypothesis =>
      cases position with
      | zero => exact .refl _
      | succ position =>
          exact ((inductionHypothesis _).cons c).trans List.perm_middle.symm

theorem foldl_insertAt_perm (edits : List Edit) (chars : List Char) :
    (edits.foldl (fun chars edit => insertAt edit.text.toList edit.position chars)
      chars).Perm ((edits.flatMap fun edit => edit.text.toList) ++ chars) := by
  induction edits generalizing chars with
  | nil => exact .refl _
  | cons edit edits inductionHypothesis =>
      rw [List.foldl_cons, List.flatMap_cons, List.append_assoc]
      refine (inductionHypothesis _).trans
        (((insertAt_perm _ _ chars).append_left _).trans ?_)
      exact List.perm_append_comm_assoc _ _ _

/-- Edits add their texts, wherever they are made, and nothing else. -/
theorem applyEdits_perm (text : String) (edits : List Edit) :
    (applyEdits text edits).toList.Perm
      ((edits.flatMap fun edit => edit.text.toList) ++ text.toList) := by
  rw [applyEdits, String.toList_ofList]
  refine (foldl_insertAt_perm _ _).trans (.append_right _ ?_)
  exact ((sortBy_perm _).trans (List.reverse_perm edits)).flatMap_right _

theorem length_applyEdits {edits : List Edit} (adds : Adds edits)
    (text : String) :
    text.toList.length < (applyEdits text edits).toList.length := by
  obtain ⟨edit, member, filled⟩ := adds
  have positive : 0 < (edits.flatMap fun edit => edit.text.toList).length := by
    refine List.length_pos_of_ne_nil fun none => filled ?_
    rw [List.flatMap_eq_nil_iff] at none
    exact String.toList_eq_nil_iff.mp (none edit member)
  rw [(applyEdits_perm text edits).length_eq, List.length_append]
  exact Nat.lt_add_of_pos_left positive

/-- Edits between the characters of a text, of which some has a text itself. -/
structure Fills (text : String) (edits : List Edit) : Prop where
  between : ∀ edit ∈ edits, Between text.toList edit.position
  adds : Adds edits

/-- One edit that has a text. -/
theorem fills_one {text inserted : String} {position : Nat}
    (between : Between text.toList position) (filled : inserted ≠ "") :
    Fills text [⟨position, inserted⟩] where
  between := List.forall_mem_cons.mpr ⟨between, List.forall_mem_nil _⟩
  adds := ⟨_, List.mem_cons_self, filled⟩

/-! ### Insertions -/

section

variable {text : String}

theorem le_size_of_between {position : Nat} (between : Between text.toList position) :
    position ≤ (Source.ofText text).size := by
  obtain ⟨before, after, split, rfl⟩ := between
  rw [Source.ofText_size, split, Source.byteLength_append]
  exact Nat.le_add_right _ _

/-- A new line starts between two characters if its anchor ends there, and the limit
is there. -/
theorem lineInsertPoint_between {anchor limit : Nat}
    (behind : Between text.toList (anchor + 1)) (last : Between text.toList limit) :
    Between text.toList (lineInsertPoint (Source.ofText text) anchor limit) := by
  have inside := le_size_of_between last
  rw [lineInsertPoint]
  split
  · rcases Nat.le_total limit ((Source.ofText text).lineEnd anchor) with early | late
    · rwa [Nat.min_eq_right early]
    · rw [Nat.min_eq_left late]
      rcases lineEnd_cases (Source.ofText text) anchor with final | ⟨-, char⟩
      · rwa [final, Nat.le_antisymm (final ▸ late) inside]
      · exact Source.between_of_charAt char
  · exact behind

/-- A comma takes one position. -/
theorem comma_between {position : Nat}
    (char : (Source.ofText text).charAt? position = some ',') :
    Between text.toList (position + 1) :=
  Source.between_of_isBoundary (Source.boundary_behind char rfl)

variable {token : String}

theorem fills_arrayInsertion {brackets : Span} (filled : token ≠ "")
    (pair : IsPair (Source.ofText text) .square brackets) :
    Fills text (arrayInsertion (Source.ofText text) brackets token) := by
  have opened := behind_opening pair
  have closes := closing_between pair
  rw [arrayInsertion]
  split
  · rename_i last found
    have order := (Source.mem_elementsIn_bounds (List.mem_of_getLast? found)).2.1
    obtain ⟨-, stop⟩ : _ ∧ _ := by
      simpa [rangeEnds] using element_between pair (List.mem_of_getLast? found)
    have back : Between text.toList (last.stop - 1 + 1) := by
      rwa [Nat.sub_add_cancel (by omega)]
    have comma {position : Nat} (trailing : trailingComma? (Source.ofText text)
        brackets last = some position) : Between text.toList (position + 1) := by
      have char := (Option.filter_eq_some_iff.mp trailing).2
      exact comma_between (by simpa using char)
    rw [appendInsertion]
    split <;> split
    · rename_i trailing
      exact fills_one (lineInsertPoint_between (comma trailing) closes) (by simp)
    · refine ⟨?_, ⟨_, List.mem_cons_self, by simp⟩⟩
      simp only [List.forall_mem_cons]
      exact ⟨stop, lineInsertPoint_between back closes, List.forall_mem_nil _⟩
    · rename_i trailing
      exact fills_one (comma trailing) (by simp)
    · exact fills_one stop (by simp)
  · rw [emptyArrayInsertion]
    split
    · exact fills_one (lineInsertPoint_between opened closes) (by simp)
    · exact fills_one opened filled

theorem fills_argumentInsertion {block : Block}
    (member : block ∈ blocksOf (Source.ofText text)) :
    Fills text (argumentInsertion (Source.ofText text) block token) := by
  have places := places_of_mem member
  have behind : Between text.toList block.nameLiteral.stop :=
    places _ (by simp [Block.places, rangeEnds])
  have closes : Between text.toList block.parens.stop :=
    places _ (by simp [Block.places, bracketEnds])
  rw [argumentInsertion]
  split
  · exact fills_one behind (by simp)
  · split
    · exact fills_one behind (by simp)
    · split
      · rename_i line
        exact fills_one (lineInsertPoint_between (comma_between line.1) closes)
          (by simp)
      · exact fills_one behind (by simp)

theorem fills_dependencyInsertion {block : Block} {edits : List Edit}
    (filled : token ≠ "") (member : block ∈ blocksOf (Source.ofText text))
    (inserted : dependencyInsertion (Source.ofText text) block token = .ok edits) :
    Fills text edits := by
  rw [dependencyInsertion] at inserted
  split at inserted
  · cases inserted
  · cases argument : block.argument with
    | expression =>
        rw [argument] at inserted
        cases inserted
    | array brackets =>
        rw [argument] at inserted
        cases inserted
        exact fills_arrayInsertion filled
          ((isPlaced_of_mem member).array brackets argument).1
    | absent =>
        rw [argument] at inserted
        cases inserted
        exact fills_argumentInsertion member

theorem newDeclarationArray_ne_empty (source : Source) (label : Nat) :
    newDeclarationArray source label token ≠ "" := by
  rw [newDeclarationArray]
  split <;> simp

theorem fills_declarationInsertion {edits : List Edit} (filled : token ≠ "")
    (inserted : declarationInsertion (Source.ofText text)
      (Outline.ofSource (Source.ofText text)) token = .ok edits) :
    Fills text edits := by
  rw [declarationInsertion] at inserted
  split at inserted
  · rename_i brackets found
    cases inserted
    exact fills_arrayInsertion filled (array_of_outline found).1
  · split at inserted
    · cases inserted
    · split at inserted
      · rename_i label _ found
        cases inserted
        exact fills_one
          (places_of_outline _ (by simp [Outline.places, found]))
          (newDeclarationArray_ne_empty _ _)
      · cases inserted

end

/-! ### Changes -/

theorem quote_ne_empty (value : String) : quote value ≠ "" := by
  intro empty
  have chars := congrArg String.toList empty
  simp [quote] at chars

theorem token_ne_empty {context : ProductContext} {floor : String}
    {token : DeclarationToken} (written : context.token floor = .ok token) :
    token.text ≠ "" := by
  rw [ProductContext.token] at written
  split at written <;> cases written <;> simp

/-- A text made from another by insertions between its characters. -/
def Grown (text changed : String) : Prop :=
  ∃ edits, Fills text edits ∧ changed = applyEdits text edits

theorem Grown.longer {text changed : String} (grown : Grown text changed) :
    text.toList.length < changed.toList.length := by
  obtain ⟨edits, fills, rfl⟩ := grown
  exact length_applyEdits fills.adds text

theorem Grown.sublist {text changed : String} (grown : Grown text changed) :
    text.toList.Sublist changed.toList := by
  obtain ⟨edits, fills, rfl⟩ := grown
  rw [toList_applyEdits fills.between]
  exact sublist_interleaved edits 0 text.toList

/-- Rounds of insertions keep what was there, and add to it. -/
theorem grown_rounds {text changed : String}
    (rounds : Relation.TransGen Grown text changed) :
    text.toList.Sublist changed.toList ∧
      text.toList.length < changed.toList.length := by
  induction rounds with
  | single grown => exact ⟨grown.sublist, grown.longer⟩
  | tail _ grown inductionHypothesis =>
      exact ⟨inductionHypothesis.1.trans grown.sublist,
        Nat.lt_trans inductionHypothesis.2 grown.longer⟩

section

variable {floor text : String} {manifest : Path} {origin destination : String}
  {patch : Patch}

/-- A declaration that is located is one of the text. -/
theorem mem_of_locate {name : String} {block : Block}
    (found : (Reading.ofText text).locate manifest name = .ok block) :
    block ∈ blocksOf (Source.ofText text) := by
  have known := locate_eq_ok found
  rw [Outline.ofText] at known
  obtain ⟨front, rest, split, -⟩ := split_of_block known
  rw [split]
  exact List.mem_append_right _ List.mem_cons_self

theorem addTarget_grows
    (made : addTarget text manifest origin destination = .ok patch) :
    patch.changes = [] ∧ patch.text = text ∨
      patch.changes ≠ [] ∧ Relation.TransGen Grown text patch.text := by
  obtain ⟨block, found, ⟨-, rfl⟩ | ⟨-, edits, inserts, same, change⟩⟩ :=
    addTarget_eq_ok made
  · exact Or.inl ⟨rfl, rfl⟩
  · obtain ⟨front, rest, split, -⟩ := split_of_block found
    have member : block ∈ blocksOf (Source.ofText text) := by
      rw [split]
      exact List.mem_append_right _ List.mem_cons_self
    refine Or.inr ⟨by simp [change], .single ⟨edits, ?_, same⟩⟩
    exact fills_dependencyInsertion (quote_ne_empty _) member inserts

theorem declareOwner_grows {context : ProductContext} {declared : Declared}
    (made : declareOwner floor (Reading.ofText text) manifest context =
      .ok declared) :
    declared.changes = [] ∧ declared.text = text ∨
      declared.changes ≠ [] ∧ Grown text declared.text := by
  rw [declareOwner] at made
  split at made
  · cases made
    exact Or.inl ⟨rfl, rfl⟩
  · simp only [bind, Except.bind] at made
    split at made
    · cases made
    · rename_i token written
      split at made
      · cases made
      · rename_i changed inserted
        cases made
        obtain ⟨edits, inserts, rfl⟩ := edited_eq_ok inserted
        exact Or.inr ⟨List.cons_ne_nil _ _, edits,
          fills_declarationInsertion (token_ne_empty written) inserts, rfl⟩

theorem addProduct_grows {context : ProductContext}
    (made : addProduct floor text manifest origin context = .ok patch) :
    patch.changes = [] ∧ patch.text = text ∨
      patch.changes ≠ [] ∧ Relation.TransGen Grown text patch.text := by
  simp only [addProduct, bind, Except.bind] at made
  split at made
  · cases made
  · split at made
    · cases made
    · rename_i declared owner
      have first := declareOwner_grows owner
      split at made
      · cases made
      · rename_i block found
        split at made
        · cases made
          exact first.imp_right fun grown => ⟨grown.1, .single grown.2⟩
        · split at made
          · cases made
          · rename_i changed inserted
            cases made
            obtain ⟨edits, inserts, rfl⟩ := edited_eq_ok inserted
            have second : Grown declared.text (applyEdits declared.text edits) :=
              ⟨edits, fills_dependencyInsertion (by simp) (mem_of_locate found)
                inserts, rfl⟩
            refine Or.inr ⟨by simp, ?_⟩
            rcases first with ⟨-, same⟩ | ⟨-, grown⟩
            · rw [← same]
              exact .single second
            · exact .tail (.single grown) second

/-- A request leaves a text as it is, and then there are no changes, or makes
insertions between its characters, in one round or in two. -/
theorem addDependency_grows {context : Option ProductContext}
    (made : addDependency floor text manifest origin destination context =
      .ok patch) :
    patch.changes = [] ∧ patch.text = text ∨
      patch.changes ≠ [] ∧ Relation.TransGen Grown text patch.text := by
  cases context with
  | none => exact addTarget_grows made
  | some context => exact addProduct_grows made

/-- What is changed gets longer. -/
theorem addDependency_longer {context : Option ProductContext}
    (made : addDependency floor text manifest origin destination context =
      .ok patch) (some : patch.changes ≠ []) :
    text.toList.length < patch.text.toList.length := by
  rcases addDependency_grows made with ⟨none, -⟩ | ⟨-, rounds⟩
  · exact absurd none some
  · exact (grown_rounds rounds).2

end

/-- Edits only insert.  All edits of a list are made at once; and a request that
succeeds leaves every character of the text there, in its order, with the text as
it was exactly if there are no changes. -/
theorem edits_insert :
    (∀ (text : String) (edits : List Edit),
      (∀ edit ∈ edits, Between text.toList edit.position) →
        (applyEdits text edits).toList = interleaved edits 0 text.toList) ∧
    ∀ (floor text : String) (manifest : Path) (origin destination : String)
      (context : Option ProductContext) (patch : Patch),
      addDependency floor text manifest origin destination context = .ok patch →
        text.toList.Sublist patch.text.toList ∧
          (patch.changes = [] ↔ patch.text = text) := by
  refine ⟨fun text edits between => toList_applyEdits between,
    fun floor text manifest origin destination context patch made => ?_⟩
  rcases addDependency_grows made with ⟨none, same⟩ | ⟨some, rounds⟩
  · exact ⟨by rw [same], iff_of_true none same⟩
  · obtain ⟨kept, longer⟩ := grown_rounds rounds
    refine ⟨kept, iff_of_false some fun same => ?_⟩
    rw [same] at longer
    exact Nat.lt_irrefl _ longer

/-- Two insertions at one place, and a target that gets its first dependency. -/
theorem edits_insert_example :
    (applyEdits "ac" [⟨1, "b"⟩, ⟨2, "d"⟩, ⟨1, "B"⟩]).toList =
        ['a', 'b', 'B', 'c', 'd'] ∧
      "Package(targets: [.target(name: \"A\")])".toList.Sublist
        "Package(targets: [.target(name: \"A\", dependencies: [\"B\"])])".toList := by
  refine ⟨edits_insert.1 "ac" [⟨1, "b"⟩, ⟨2, "d"⟩, ⟨1, "B"⟩] ?_,
    (edits_insert.2 "1.0.0" "Package(targets: [.target(name: \"A\")])"
      ⟨"/Package.swift"⟩ "A" "B" none
      { text := "Package(targets: [.target(name: \"A\", dependencies: [\"B\"])])"
        changes := [.targetDependency "A" "B" "/Package.swift"] }
      (by decide +kernel)).1⟩
  simp only [List.forall_mem_cons]
  exact ⟨⟨['a'], ['c'], rfl, rfl⟩, ⟨['a', 'c'], [], rfl, rfl⟩, ⟨['a'], ['c'], rfl, rfl⟩,
    List.forall_mem_nil _⟩

end PackageLayers.Manifest

/-
Purpose: The dots of a printed text, and the calls of members behind them.
Main exports: dotsAt, Shows.mem_dots, memberCalls_dots, candidates_dots
-/
import Mathlib.Data.List.Perm.Basic
import PackageLayers.Proofs.Manifest.Canonical
import PackageLayers.Proofs.Manifest.Targets

namespace PackageLayers.Manifest

open Source (Span MemberCall CodeAt isWord isName)

/-!
Every call of a member starts with a dot, and in a printed text the dots are known
from the pieces.  So the calls of a text are read off its dots, one by one.
-/

/-- The places of the dots in the code of pieces. -/
def dotsAt : (offset : Nat) → List Piece → List Nat
  | _, [] => []
  | offset, piece :: rest =>
      if piece = .code '.' then offset :: dotsAt (offset + 1) rest
      else dotsAt (offset + piece.cells.length) rest

theorem dotsAt_append (offset : Nat) (left right : List Piece) :
    dotsAt offset (left ++ right) =
      dotsAt offset left ++ dotsAt (offset + lengthOf left) right := by
  induction left generalizing offset with
  | nil => rfl
  | cons piece left inductionHypothesis =>
      rw [List.cons_append, dotsAt, dotsAt, lengthOf_cons]
      split
      · rename_i dot
        have one : piece.cells.length = 1 := by
          rw [dot]
          rfl
        rw [inductionHypothesis, List.cons_append, one, Nat.add_assoc]
      · rw [inductionHypothesis, Nat.add_assoc]

theorem dotsAt_of_lacks (offset : Nat) {pieces : List Piece}
    (lacks : '.' ∉ codeIn pieces) : dotsAt offset pieces = [] := by
  induction pieces generalizing offset with
  | nil => rfl
  | cons piece pieces inductionHypothesis =>
      cases piece with
      | code c =>
          rw [codeIn_cons_code, List.mem_cons, not_or] at lacks
          rw [dotsAt, if_neg fun same => lacks.1 (Piece.code.inj same).symm]
          exact inductionHypothesis _ lacks.2
      | value text =>
          rw [dotsAt, if_neg fun same => nomatch same]
          exact inductionHypothesis _ lacks

theorem dotsAt_cons (offset : Nat) {c : Char} (other : c ≠ '.')
    (rest : List Piece) :
    dotsAt offset (.code c :: rest) = dotsAt (offset + 1) rest := by
  rw [dotsAt, if_neg fun same => other (Piece.code.inj same)]
  rfl

/-- The dots behind a name are those of the arguments. -/
theorem dotsAt_behind (offset : Nat) {word : List Char} (plain : '.' ∉ word)
    (arguments : List Argument) :
    dotsAt offset (plainly word ++ parenthesized arguments) =
      dotsAt (offset + word.length + 1)
        (listed (arguments.map Argument.pieces)) := by
  have names : '.' ∉ codeIn (plainly word) := by rwa [codeIn_plainly]
  have last : '.' ∉ codeIn [.code ')'] := by decide
  rw [dotsAt_append, dotsAt_of_lacks _ names, List.nil_append, parenthesized,
    dotsAt_cons _ (by decide), dotsAt_append, dotsAt_of_lacks _ last,
    List.append_nil, lengthOf_plainly]

/-- The dots of a call are its own and those of its arguments. -/
theorem dotsAt_call (offset : Nat) {name : String} (good : isName name)
    (arguments : List Argument) :
    dotsAt offset (memberCall name arguments) = offset ::
      dotsAt (parenAt offset name + 1)
        (listed (arguments.map Argument.pieces)) := by
  have names : '.' ∉ name.toList := by
    intro member
    cases name_plain good '.' member
  have first : memberCall name arguments =
      .code '.' :: (plainly name.toList ++ parenthesized arguments) := by
    rw [memberCall, dotted]
    rfl
  have paren : offset + 1 + name.toList.length = parenAt offset name := by
    rw [parenAt, dotted, List.length_cons]
    omega
  rw [first, dotsAt, if_pos rfl, dotsAt_behind _ names, paren]

/-- The dots of a list are those of its items. -/
theorem dotsAt_listed {α : Type} (print : α → List Piece) (offset : Nat)
    (items : List α) :
    dotsAt offset (listed (items.map print)) =
      (placed print offset items).flatMap fun entry =>
        dotsAt entry.1 (print entry.2) := by
  induction items generalizing offset with
  | nil => rfl
  | cons first rest inductionHypothesis =>
      cases rest with
      | nil =>
          rw [List.map_singleton, listed_singleton, placed, placed,
            List.flatMap_cons, List.flatMap_nil, List.append_nil]
      | cons second rest =>
          have later := inductionHypothesis (offset + lengthOf (print first) + 2)
          rw [List.map_cons] at later
          rw [List.map_cons, List.map_cons, listed_cons_cons, dotsAt_append,
            dotsAt_cons _ (by decide), dotsAt_cons _ (by decide), placed,
            List.flatMap_cons, ← later]

theorem dotsAt_argument (offset : Nat) {argument : Argument}
    (name : isName argument.label) :
    dotsAt offset argument.pieces =
      dotsAt (offset + lengthOf argument.lead) argument.value := by
  rw [Argument.pieces_eq, dotsAt_append, dotsAt_of_lacks, List.nil_append]
  rw [Argument.lead, codeIn_plainly, List.mem_append]
  rintro (inside | behind)
  · cases name_plain name '.' inside
  · revert behind
    decide

theorem dotsAt_text (offset : Nat) {label : String} (name : isName label)
    (value : String) : dotsAt offset (textArgument label value).pieces = [] := by
  rw [dotsAt_argument _ name]
  exact dotsAt_of_lacks _ (fun member => nomatch member)

theorem dotsAt_array (offset : Nat) {label : String} (name : isName label)
    (items : List (List Piece)) :
    dotsAt offset (arrayArgument label items).pieces =
      dotsAt (offset + lengthOf (arrayArgument label items).lead + 1)
        (listed items) := by
  have last : '.' ∉ codeIn [.code ']'] := by decide
  rw [dotsAt_argument _ name, arrayArgument, bracketed, dotsAt_cons _ (by decide),
    dotsAt_append, dotsAt_of_lacks _ last, List.append_nil]

/-! ### Dots in a text -/

section

variable {source : Source} {offset : Nat} {pieces : List Piece}

/-- The dots of pieces that are shown are the dots of the code there. -/
theorem Shows.mem_dots (shows : Shows source offset pieces) {position : Nat} :
    position ∈ dotsAt offset pieces ↔ offset ≤ position ∧
      position < offset + lengthOf pieces ∧
        source.codeAt? position = some '.' := by
  induction pieces generalizing offset with
  | nil =>
      rw [lengthOf_nil]
      constructor
      · intro none
        cases none
      · rintro ⟨lower, upper, -⟩
        omega
  | cons piece pieces inductionHypothesis =>
      have later := inductionHypothesis (@Shows.back _ _ pieces [piece] shows)
      have width : lengthOf [piece] = piece.cells.length := by
        rw [lengthOf_cons, lengthOf_nil, Nat.add_zero]
      rw [width] at later
      cases piece with
      | code c =>
          have one : (Piece.code c).cells.length = 1 := rfl
          have here := shows.code
          rw [one] at later
          rw [dotsAt, lengthOf_cons_code]
          split
          · rename_i dot
            cases dot
            rw [List.mem_cons, later]
            constructor
            · rintro (rfl | ⟨lower, upper, code⟩)
              · exact ⟨Nat.le_refl _, by omega, here⟩
              · exact ⟨by omega, by omega, code⟩
            · rintro ⟨lower, upper, code⟩
              rcases Nat.eq_or_lt_of_le lower with same | behind
              · exact Or.inl same.symm
              · exact Or.inr ⟨by omega, by omega, code⟩
          · rename_i other
            rw [one, later]
            constructor
            · rintro ⟨lower, upper, code⟩
              exact ⟨by omega, by omega, code⟩
            · rintro ⟨lower, upper, code⟩
              rcases Nat.eq_or_lt_of_le lower with rfl | behind
              · rw [here] at code
                exact absurd (congrArg Piece.code (Option.some.inj code)) other
              · exact ⟨by omega, by omega, code⟩
      | value text =>
          rw [dotsAt, if_neg (fun same => nomatch same), lengthOf_cons, later]
          constructor
          · rintro ⟨lower, upper, code⟩
            exact ⟨by omega, by omega, code⟩
          · rintro ⟨lower, upper, code⟩
            rcases Nat.lt_or_ge position
                (offset + (Piece.value text).cells.length) with inside | behind
            · obtain ⟨index, rfl⟩ := Nat.exists_eq_add_of_le lower
              have none := shows.value_code (show index <
                (quotedCells text).length by rw [Piece.cells] at inside; omega)
              rw [none] at code
              cases code
            · exact ⟨behind, by omega, code⟩

theorem dotsAt_lower {position : Nat} (member : position ∈ dotsAt offset pieces) :
    offset ≤ position := by
  induction pieces generalizing offset with
  | nil => cases member
  | cons piece pieces inductionHypothesis =>
      rw [dotsAt] at member
      split at member
      · rcases List.mem_cons.mp member with rfl | later
        · exact Nat.le_refl _
        · have bound := inductionHypothesis later
          omega
      · have bound := inductionHypothesis member
        omega

theorem dotsAt_ascend : (dotsAt offset pieces).Pairwise (· < ·) := by
  induction pieces generalizing offset with
  | nil => exact .nil
  | cons piece pieces inductionHypothesis =>
      rw [dotsAt]
      split
      · exact List.pairwise_cons.mpr
          ⟨fun _ member => dotsAt_lower member, inductionHypothesis⟩
      · exact inductionHypothesis

/-- The call of a member with a name whose dot is at a position. -/
def callOf (source : Source) (name : String) (dot : Nat) : Option MemberCall :=
  (leadingCall? source name ⟨dot, source.size⟩).map (MemberCall.mk dot)

theorem callOf_eq_some {name : String} (good : isWord ("." ++ name).toList)
    {dot : Nat} {call : MemberCall} :
    callOf source name dot = some call ↔
      dot ∈ source.occurrences ("." ++ name) source.whole ∧
        source.callAt? ("." ++ name).toList.length dot = some call := by
  rw [callOf, Option.map_eq_some_iff]
  constructor
  · rintro ⟨paren, found, rfl⟩
    obtain ⟨code, upper, made⟩ := (leadingCall_eq_some good).mp found
    exact ⟨(Source.mem_occurrences good).mpr ⟨Nat.zero_le _, upper, code⟩, made⟩
  · rintro ⟨member, made⟩
    obtain ⟨-, upper, code⟩ := (Source.mem_occurrences good).mp member
    have dot := (Source.callAt_eq_some made).1
    refine ⟨call.paren, (leadingCall_eq_some good).mpr ⟨code, upper, ?_⟩, ?_⟩
    · rw [made, ← dot]
    · rw [← dot]

/-- The calls of a member in a printed text, by their dots. -/
theorem memberCalls_dots (shows : Shows source 0 pieces)
    (size : source.size = lengthOf pieces) {name : String}
    (good : isWord ("." ++ name).toList) :
    source.memberCalls name source.whole =
      (dotsAt 0 pieces).filterMap (callOf source name) := by
  have first : ("." ++ name).toList[0]? = some '.' := by rw [dotted]; rfl
  have dots : source.occurrences ("." ++ name) source.whole =
      (dotsAt 0 pieces).filter fun dot =>
        dot ∈ source.occurrences ("." ++ name) source.whole := by
    refine List.Pairwise.eq_of_mem_iff (Source.occurrences_ascend good _)
      (dotsAt_ascend.filter _) fun dot => ?_
    rw [List.mem_filter, decide_eq_true_eq, shows.mem_dots]
    constructor
    · intro member
      have code := ((Source.mem_occurrences good).mp member).2.2 0 '.' first
      rw [Nat.add_zero] at code
      have upper := Source.lt_size_of_codeAt code
      exact ⟨⟨Nat.zero_le _, by omega, code⟩, member⟩
    · exact fun both => both.2
  rw [Source.memberCalls_eq good, dots, List.filterMap_filter]
  refine List.filterMap_congr fun dot _ => Option.ext fun call => ?_
  rw [callOf_eq_some good]
  by_cases member : dot ∈ source.occurrences ("." ++ name) source.whole
  · simp [member]
  · simp [member]

end

/-! ### Constructors of targets -/

/-- If at most one key picks something, all that is picked is the first. -/
theorem filterMap_eq_findSome {κ β : Type} {pick : κ → Option β} {keys : List κ}
    (single : keys.Pairwise fun first second =>
      pick first = none ∨ pick second = none) :
    keys.filterMap pick = (keys.findSome? pick).toList := by
  induction keys with
  | nil => rfl
  | cons key keys inductionHypothesis =>
      obtain ⟨front, later⟩ := List.pairwise_cons.mp single
      rw [List.filterMap_cons, List.findSome?_cons]
      cases picked : pick key with
      | none => exact inductionHypothesis later
      | some found =>
          have none : keys.filterMap pick = [] :=
            List.filterMap_eq_nil_iff.mpr fun other member =>
              (front other member).resolve_left (by simp [picked])
          rw [none]
          rfl

/-- What is picked for some keys and items, by the keys or by the items, if at
most one key picks something for an item. -/
theorem flatMap_filterMap_perm {κ α β : Type} {pick : κ → α → Option β}
    {keys : List κ} (items : List α)
    (single : ∀ item, keys.Pairwise fun first second =>
      pick first item = none ∨ pick second item = none) :
    (keys.flatMap fun key => items.filterMap (pick key)).Perm
      (items.filterMap fun item => keys.findSome? (pick · item)) := by
  induction items with
  | nil =>
      have empty : (keys.flatMap fun key => ([] : List α).filterMap (pick key)) =
          [] := by simp
      rw [empty]
      exact .refl _
  | cons item items inductionHypothesis =>
      have split : (keys.flatMap fun key => (item :: items).filterMap (pick key)) =
          keys.flatMap fun key =>
            (pick key item).toList ++ items.filterMap (pick key) := by
        refine List.flatMap_congr fun key _ => ?_
        rw [List.filterMap_cons]
        cases pick key item <;> rfl
      have head : (keys.flatMap fun key => (pick key item).toList) =
          keys.filterMap (pick · item) := by
        rw [List.filterMap_eq_flatMap_toList]
      rw [split]
      refine (List.flatMap_append_perm keys _ _).symm.trans ?_
      rw [head, filterMap_eq_findSome (single item), List.filterMap_cons]
      cases keys.findSome? (pick · item) with
      | none => exact inductionHypothesis
      | some found => exact inductionHypothesis.cons found

/-- The constructor of a target whose dot is at a position. -/
def candidateOf? (source : Source) (dot : Nat) : Option Candidate :=
  TargetKind.constructors.findSome? fun made =>
    (callOf source made.1 dot).map (candidateOf made.2)

theorem dot_of_candidateOf {source : Source} {dot : Nat} {candidate : Candidate}
    (found : candidateOf? source dot = some candidate) : candidate.dot = dot := by
  obtain ⟨made, -, here⟩ := List.exists_of_findSome?_eq_some found
  obtain ⟨call, called, rfl⟩ := Option.map_eq_some_iff.mp here
  obtain ⟨paren, -, rfl⟩ := Option.map_eq_some_iff.mp called
  rfl

/-- The constructors of targets in a printed text, by their dots. -/
theorem candidates_dots {source : Source} {pieces : List Piece}
    (shows : Shows source 0 pieces) (size : source.size = lengthOf pieces) :
    candidates source = (dotsAt 0 pieces).filterMap (candidateOf? source) := by
  have sought (made : String × TargetKind)
      (member : made ∈ TargetKind.constructors) :
      isWord ("." ++ made.1).toList :=
    isWord_of_sought (List.mem_append_left _ (List.mem_map_of_mem member))
  -- The constructors by their names, which is how they are looked for.
  have named : candidates source =
      sortBy precedes (TargetKind.constructors.flatMap fun made =>
        (dotsAt 0 pieces).filterMap fun dot =>
          (callOf source made.1 dot).map (candidateOf made.2)) := by
    rw [candidates_eq]
    congr 1
    refine List.flatMap_congr fun made member => ?_
    rw [memberCalls_dots shows size (sought made member), List.map_filterMap]
  have distinct : TargetKind.constructors.Pairwise fun first second =>
      first ∈ TargetKind.constructors ∧ second ∈ TargetKind.constructors ∧
        first.1 ≠ second.1 := by decide
  have single (dot : Nat) : TargetKind.constructors.Pairwise fun first second =>
      (callOf source first.1 dot).map (candidateOf first.2) = none ∨
        (callOf source second.1 dot).map (candidateOf second.2) = none := by
    refine distinct.imp fun {first second} apart => ?_
    obtain ⟨here, there, apart⟩ := apart
    simp only [callOf, Option.map_eq_none_iff]
    by_contra both
    rw [not_or] at both
    obtain ⟨paren, found⟩ := Option.ne_none_iff_exists'.mp both.1
    obtain ⟨paren', found'⟩ := Option.ne_none_iff_exists'.mp both.2
    exact apart (leadingCall_unique (sought first here) (sought second there)
      rfl found found')
  have perm : (candidates source).Perm
      ((dotsAt 0 pieces).filterMap (candidateOf? source)) := by
    rw [named]
    exact (sortBy_perm _).trans (flatMap_filterMap_perm (dotsAt 0 pieces) single)
  have sorted : (candidates source).Pairwise fun first second =>
      precedes first second := by
    rw [named]
    refine sortBy_pairwise ?_ ?_ _
    · intro first second
      simp only [precedes, decide_eq_true_eq]
      exact Nat.le_total _ _
    · intro first second third before behind
      simp only [precedes, decide_eq_true_eq] at before behind ⊢
      exact Nat.le_trans before behind
  have ascending : ((dotsAt 0 pieces).filterMap (candidateOf? source)).Pairwise
      fun first second => first.dot < second.dot := by
    rw [List.pairwise_filterMap]
    refine dotsAt_ascend.imp fun {first second} order candidate found other
      found' => ?_
    rw [dot_of_candidateOf found, dot_of_candidateOf found']
    exact order
  refine List.Perm.eq_of_pairwise (fun first second here there before behind => ?_)
    sorted (ascending.imp fun order => ?_) perm
  · simp only [precedes, decide_eq_true_eq] at before behind
    obtain ⟨dot, -, found⟩ := List.mem_filterMap.mp (perm.mem_iff.mp here)
    obtain ⟨dot', -, found'⟩ := List.mem_filterMap.mp there
    have same : dot = dot' := by
      rw [← dot_of_candidateOf found, ← dot_of_candidateOf found']
      exact Nat.le_antisymm before behind
    rw [same, found'] at found
    exact (Option.some.inj found).symm
  · simp only [precedes, decide_eq_true_eq]
    exact Nat.le_of_lt order

end PackageLayers.Manifest

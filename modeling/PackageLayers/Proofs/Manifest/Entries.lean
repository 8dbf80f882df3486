/-
Purpose: The entries of arrays after an insertion.
Main exports: Quiet, leadingCall_eq_some, dependencyIn_shift,
  textElements_shift, entriesIn_shift
-/
import PackageLayers.Proofs.Manifest.Arguments

namespace PackageLayers.Manifest

open Source (Span Quoted Insertion isName isWord Matched CodeAt
  findSome_congr)

/-!
An entry is read from its start: a literal there, or a call whose dot is there.
So an insertion inside of an entry that leaves its start and the arguments of its
call alone does not change what it writes.
-/

/-- The calls that the outline of a manifest is made from, but for those that
declare packages. -/
def soughtCalls : List String :=
  TargetKind.constructors.map Prod.fst ++ ["library", "executable"]

/-- The labels that the outline of a manifest is made from, but for the one of the
dependencies. -/
def soughtLabels : List String :=
  ["name", "url", "path", "id", "package", "products", "targets", "sources",
    "capability"]

theorem isName_of_sought {label : String} (sought : label ∈ soughtLabels) :
    isName label := by
  have all : ∀ label ∈ soughtLabels, isName label := by decide
  exact all label sought

/-- Whether a separator stands before the place of an insertion. -/
def FollowsSpace (insertion : Insertion) : Prop :=
  ∃ c, insertion.source.charAt? (insertion.place - 1) = some c ∧ Source.isSpace c

/-- Whether every element of an array starts with a character that is no white
space, of any kind. -/
def StartsVisibly (source : Source) (brackets : Span) : Prop :=
  ∀ range ∈ source.elements brackets, ∃ c,
    source.charAt? range.start = some c ∧ Text.isBlank c = false

/-- An insertion with harmless seams that adds nothing an outline is made from,
but perhaps declarations of packages. -/
structure Quiet (insertion : Insertion) : Prop extends insertion.Seam where
  calls : ∀ name ∈ soughtCalls,
    insertion.fragment.occurrences ("." ++ name) insertion.fragment.whole = []
  package : insertion.fragment.occurrences "Package"
    insertion.fragment.whole = []
  labels : ∀ span, Matched insertion.source span →
    insertion.source.charAt? span.start = some '(' →
    ∀ label ∈ soughtLabels, insertion.Keeps span label
  arrays : ∀ span label brackets, Matched insertion.source span →
    label ∈ soughtLabels →
    labelArray? insertion.source span label = some brackets →
      insertion.Spares brackets
  products : ∀ call brackets, packageCall? insertion.source = some call →
    Matched insertion.source call →
    labelArray? insertion.source call "products" = some brackets →
      insertion.Deep brackets ∨
        StartsVisibly insertion.source brackets ∧ FollowsSpace insertion

/-- An insertion that lies deep in every array that an outline is made from. -/
theorem Quiet.of_deep {insertion : Insertion} (seam : insertion.Seam)
    (calls : ∀ name ∈ soughtCalls,
      insertion.fragment.occurrences ("." ++ name) insertion.fragment.whole = [])
    (package : insertion.fragment.occurrences "Package"
      insertion.fragment.whole = [])
    (labels : ∀ span, Matched insertion.source span →
      insertion.source.charAt? span.start = some '(' →
      ∀ label ∈ soughtLabels, insertion.Keeps span label)
    (deep : ∀ span label brackets, Matched insertion.source span →
      label ∈ soughtLabels →
      labelArray? insertion.source span label = some brackets →
        insertion.Deep brackets) : Quiet insertion where
  toSeam := seam
  calls := calls
  package := package
  labels := labels
  arrays := fun span label brackets matched sought array =>
    Or.inl (deep span label brackets matched sought array)
  products := fun call brackets _ matched array =>
    Or.inl (deep call "products" brackets matched (by decide) array)

/-- The parenthesis of a call of a member that starts a range. -/
def leadingCall? (source : Source) (name : String) (range : Span) : Option Nat :=
  match source.memberCalls name range with
  | call :: _ => if call.dot = range.start then some call.paren else none
  | [] => none

theorem leadingCall_eq_some {source : Source} {name : String} {range : Span}
    {paren : Nat} (good : isWord ("." ++ name).toList) :
    leadingCall? source name range = some paren ↔
      CodeAt source ("." ++ name).toList range.start ∧
        range.start + ("." ++ name).toList.length ≤ range.stop ∧
        source.callAt? ("." ++ name).toList.length range.start =
          some ⟨range.start, paren⟩ := by
  have ascends := @Source.occurrences_ascend source _ good range
  rw [leadingCall?, Source.memberCalls_eq good]
  constructor
  · intro found
    split at found
    · rename_i call rest calls
      split at found
      · rename_i dot
        cases found
        have member : call ∈ (source.occurrences ("." ++ name) range).filterMap
            (source.callAt? ("." ++ name).toList.length) := by
          rw [calls]
          exact List.mem_cons_self
        obtain ⟨position, here, made⟩ := List.mem_filterMap.mp member
        have same := (Source.callAt_eq_some made).1
        rw [← same, dot] at here made
        obtain ⟨-, upper, code⟩ := (Source.mem_occurrences good).mp here
        exact ⟨code, upper, by rw [made, ← dot]⟩
      · cases found
    · cases found
  · rintro ⟨code, upper, made⟩
    have member : range.start ∈ source.occurrences ("." ++ name) range :=
      (Source.mem_occurrences good).mpr ⟨Nat.le_refl _, upper, code⟩
    have lower : ∀ position ∈ source.occurrences ("." ++ name) range,
        range.start ≤ position := fun position here =>
      ((Source.mem_occurrences good).mp here).1
    cases found : source.occurrences ("." ++ name) range with
    | nil =>
        rw [found] at member
        cases member
    | cons first rest =>
        rw [found] at member lower ascends
        obtain rfl : range.start = first := by
          rcases List.mem_cons.mp member with same | later
          · exact same
          · have above := (List.pairwise_cons.mp ascends).1 _ later
            have below := lower first List.mem_cons_self
            omega
        rw [List.filterMap_cons, made]
        simp

theorem dependencyIn_eq {source : Source} {range : Span} :
    dependencyIn? source range =
      match source.literalAt? range.start with
      | some literal => some (.bare literal.value)
      | none =>
          (["target", "byName", "product"].findSome? fun name =>
            (leadingCall? source name range).map fun paren => (name, paren)).bind
            fun call => calledDependency? source call.1 call.2 := by
  unfold dependencyIn?
  cases source.literalAt? range.start with
  | some literal => rfl
  | none =>
      simp only
      rw [findSome_congr (g := fun name =>
        (leadingCall? source name range).map fun paren => (name, paren))]
      · split
        · rename_i name paren found
          rw [found]
          rfl
        · rename_i found
          rw [found]
          rfl
      · intro name _
        rw [leadingCall?]
        cases source.memberCalls name range with
        | nil => rfl
        | cons call rest =>
            simp only
            split <;> rfl

section

variable {insertion : Insertion}

/-- A call that starts a range moves with it. -/
theorem leadingCall_shift (seam : insertion.Seam) {name : String} {range : Span}
    (good : isWord ("." ++ name).toList) (order : range.start < range.stop) :
    leadingCall? insertion.result name (insertion.range range) =
      (leadingCall? insertion.source name range).map insertion.shift := by
  have filled := Source.Words.filled good
  have run := Source.Words.isRun good
  have length := List.length_pos_of_ne_nil filled
  have bounds (code : CodeAt insertion.source ("." ++ name).toList range.start) :
      insertion.shift range.start + ("." ++ name).toList.length ≤
          insertion.after range.stop ↔
        range.start + ("." ++ name).toList.length ≤ range.stop := by
    have apart := seam.apart_of_stands run
      (Insertion.Seam.standsAt_of_codeAt code)
    rw [Insertion.Seam.shift_end filled apart, Insertion.after,
      Nat.add_le_add_iff_right, insertion.shift_le_iff]
    omega
  refine Option.ext fun paren => ?_
  rw [leadingCall_eq_some good, Option.map_eq_some_iff]
  simp only [Insertion.range, seam.codeAt_shift_iff run,
    leadingCall_eq_some good]
  constructor
  · rintro ⟨code, upper, call⟩
    rw [seam.callAt_shift good code, Option.map_eq_some_iff] at call
    obtain ⟨old, made, same⟩ := call
    have dot := (Source.callAt_eq_some made).1
    refine ⟨old.paren, ⟨code, (bounds code).mp upper, ?_⟩, ?_⟩
    · rw [made, ← dot]
    · exact congrArg Source.MemberCall.paren same
  · rintro ⟨old, ⟨code, upper, call⟩, rfl⟩
    refine ⟨code, (bounds code).mpr upper, ?_⟩
    rw [seam.callAt_shift good code, call]
    rfl

/-- What a call writes stays. -/
theorem calledDependency_shift (quiet : Quiet insertion) (name : String)
    {paren : Nat} (opens : insertion.source.charAt? paren = some '(') :
    calledDependency? insertion.result name (insertion.shift paren) =
      calledDependency? insertion.source name paren := by
  simp only [calledDependency?, Option.bind_eq_bind,
    Insertion.partner_shift quiet.balanced]
  cases found : insertion.source.partner? paren with
  | none => rw [Option.map_none, Option.bind_none, Option.bind_none]
  | some stop =>
      have matched := Source.matched_of_partner found
      have keeps := quiet.labels ⟨paren, stop⟩ matched opens
      have text (label : String) (sought : label ∈ soughtLabels) :
          labelText? insertion.result
              ⟨insertion.shift paren, insertion.shift stop⟩ label =
            labelText? insertion.source ⟨paren, stop⟩ label :=
        @labelText_shift _ ⟨paren, stop⟩ _ quiet.toSeam
            (isName_of_sought sought) matched.order (keeps label sought)
      simp only [Option.map_some, Option.bind_some,
        text "name" (by decide), text "package" (by decide)]

/-- What an entry writes stays. -/
theorem dependencyIn_shift (quiet : Quiet insertion) {range : Span}
    (order : range.start < range.stop) :
    dependencyIn? insertion.result (insertion.range range) =
      dependencyIn? insertion.source range := by
  have call (name : String) (good : isWord ("." ++ name).toList) :=
    leadingCall_shift quiet.toSeam good order
  have start : (insertion.range range).start = insertion.shift range.start := rfl
  rw [dependencyIn_eq, dependencyIn_eq, start, quiet.toSeam.literalAt_shift]
  cases insertion.source.literalAt? range.start with
  | some literal => rfl
  | none =>
      simp only [Option.map_none, List.findSome?_cons, List.findSome?_nil,
        call "target" (by decide), call "byName" (by decide),
        call "product" (by decide)]
      have called {name : String} (good : isWord ("." ++ name).toList)
          {paren : Nat}
          (found : leadingCall? insertion.source name range = some paren) :
          calledDependency? insertion.result name (insertion.shift paren) =
            calledDependency? insertion.source name paren := by
        have made := ((leadingCall_eq_some good).mp found).2.2
        exact calledDependency_shift quiet name
          (Source.callAt_eq_some made).2.2.2
      cases target : leadingCall? insertion.source "target" range with
      | some paren =>
          simp only [Option.map_some, Option.bind_some]
          exact called (by decide) target
      | none =>
          cases byName : leadingCall? insertion.source "byName" range with
          | some paren =>
              simp only [Option.map_none, Option.map_some, Option.bind_some]
              exact called (by decide) byName
          | none =>
              cases product : leadingCall? insertion.source "product" range with
              | some paren =>
                  simp only [Option.map_none, Option.map_some, Option.bind_some]
                  exact called (by decide) product
              | none => simp only [Option.map_none, Option.bind_none]

end

/-! ### Elements -/

/-- An element is not empty and lies in its range. -/
theorem trimmed_eq_some {source : Source} {range found : Span}
    (trimmed : source.trimmed? range = some found) :
    range.start ≤ found.start ∧ found.start < found.stop ∧
      found.stop ≤ range.stop := by
  simp only [Source.trimmed?, Option.bind_eq_bind, Option.bind_eq_some_iff] at trimmed
  obtain ⟨first, next, last, before, same⟩ := trimmed
  cases same
  obtain ⟨lower, -⟩ := Source.next_eq_some_iff.mp next
  obtain ⟨above, below, -⟩ := Source.last_eq_some_iff.mp before
  exact ⟨lower, Nat.lt_succ_of_le above, below⟩

theorem mem_elements_order {source : Source} {span range : Span}
    (member : range ∈ source.elements span) : range.start < range.stop := by
  obtain ⟨slot, -, trimmed⟩ := List.mem_filterMap.mp member
  exact (trimmed_eq_some trimmed).2.1

/-- An entry after an insertion. -/
def Entry.moved (insertion : Insertion) (entry : Entry) : Entry :=
  { entry with range := insertion.range entry.range }

section

variable {insertion : Insertion} {brackets : Span}

theorem entryIn_shift (quiet : Quiet insertion) {ranges : List Span}
    (order : ∀ range ∈ ranges, range.start < range.stop) :
    (ranges.map insertion.range).map (fun range =>
        ({ range := range
           dependency := dependencyIn? insertion.result range } : Entry)) =
      (ranges.map fun range =>
        ({ range := range
           dependency := dependencyIn? insertion.source range } : Entry)).map
        (Entry.moved insertion) := by
  rw [List.map_map, List.map_map]
  refine List.map_congr_left fun range member => ?_
  simp only [Function.comp_apply, Entry.moved,
    dependencyIn_shift quiet (order range member)]

/-- The entries of an array move if the fragment is no part of it. -/
theorem entriesIn_shift (quiet : Quiet insertion)
    (matched : Matched insertion.source brackets)
    (spares : insertion.Spares brackets) :
    entriesIn insertion.result (insertion.pair brackets) =
      (entriesIn insertion.source brackets).map (Entry.moved insertion) := by
  rw [entriesIn, entriesIn,
    Insertion.elements_shift matched quiet.balanced spares]
  exact entryIn_shift quiet fun range member => mem_elements_order member

/-- The texts of an array stay if the fragment is no part of it. -/
theorem textElements_shift (seam : insertion.Seam)
    (matched : Matched insertion.source brackets)
    (spares : insertion.Spares brackets) :
    textElements insertion.result (insertion.pair brackets) =
      textElements insertion.source brackets := by
  rw [textElements, textElements,
    Insertion.elements_shift matched seam.balanced spares, List.filterMap_map]
  refine List.filterMap_congr fun range member => ?_
  simp only [Function.comp_apply, Insertion.range, seam.literalAt_shift,
    Option.map_map]
  rfl

end

end PackageLayers.Manifest

/-
Purpose: What an insertion at the end of the dependencies of a target changes.
Main exports: Lodge, Lodge.quiet, Lodge.still_other, Home, Home.moved_target,
  Home.entries_item, Home.entries_commas
-/
import PackageLayers.Proofs.Manifest.Targets
import PackageLayers.Proofs.Source.Items

namespace PackageLayers.Manifest

open Source (Span Insertion Matched IsItem OnlyCommas)

/-!
An insertion at the end of an array of dependencies is deep inside of everything
else, so all that it can change is the entries of that array.
-/

/-- An insertion at the end of an array that is the argument `dependencies` of a
call. -/
structure Lodge (insertion : Insertion) (parens brackets : Span) : Prop where
  seam : insertion.Seam
  matched : Matched insertion.source parens
  array : labelArray? insertion.source parens "dependencies" = some brackets
  atEnd : insertion.AtEnd brackets

/-- An insertion at the end of the array of dependencies of a target. -/
structure Home (insertion : Insertion) (block : Block) (brackets : Span) :
    Prop where
  seam : insertion.Seam
  member : block ∈ blocksOf insertion.source
  argument : block.argument = .array brackets
  atEnd : insertion.AtEnd brackets

/-- A target with more dependencies behind its own. -/
def Target.grown (added : List Dependency) (target : Target) : Target :=
  { target with dependencies := target.dependencies ++ added }

theorem Target.grown_nil (target : Target) : target.grown [] = target := by
  rw [Target.grown, List.append_nil]

/-- A target with more dependencies if it is the one at a place. -/
def grownAt (start : Nat) (added : List Dependency) (block : Block) : Target :=
  if block.parens.start = start then block.target.grown added else block.target

/-- A target stays as it is if the insertion is no part of its dependencies. -/
theorem still_target {insertion : Insertion} (quiet : Quiet insertion)
    {block : Block} (written : Written insertion.source block)
    (keeps : insertion.Keeps block.parens "dependencies")
    (array : ∀ brackets, block.argument = .array brackets →
      insertion.Spares brackets) :
    (block.moved insertion).target = block.target := by
  have moved := argument_shift quiet.toSeam written.matched.order keeps
  have target : (block.moved insertion).target =
      { block.target with
        dependencies := (((dependencyArgument insertion.source
          block.parens).moved insertion).entries insertion.result).filterMap
            Entry.dependency } := by
    rw [← moved]
    rfl
  have old : block.target.dependencies =
      ((dependencyArgument insertion.source block.parens).entries
        insertion.source).filterMap Entry.dependency := by
    rw [written.dependencies, written.entries, written.argument]
  rw [target]
  cases kind : dependencyArgument insertion.source block.parens with
  | array brackets =>
      have known := written.argument.trans kind
      have matched := (labelArray_eq_some (array_of_argument kind)).2
      rw [kind] at old
      simp only [DependencyArgument.moved, DependencyArgument.entries,
        entriesIn_shift quiet matched (array brackets known),
        List.filterMap_map]
      exact congrArg (fun dependencies => { block.target with dependencies })
        old.symm
  | _ =>
      rw [kind] at old
      exact congrArg (fun dependencies => { block.target with dependencies })
        old.symm

namespace Lodge

variable {insertion : Insertion} {parens brackets : Span}
  (lodge : Lodge insertion parens brackets)

include lodge

/-- Every other pair of brackets has the insertion deep inside or outside. -/
theorem deep {span : Span} (matched : Matched insertion.source span)
    (other : span.start ≠ brackets.start) : insertion.Deep span :=
  Insertion.deep_of_enclosing lodge.atEnd.enclosing matched other

theorem deep_parens {span : Span} (matched : Matched insertion.source span)
    (opens : insertion.source.charAt? span.start = some '(') :
    insertion.Deep span := by
  refine lodge.deep matched fun same => ?_
  rw [same, opens_of_array lodge.array] at opens
  cases opens

/-- The array belongs to one label of one call. -/
theorem unique {span : Span} {label : String} {other : Span}
    (matched : Matched insertion.source span) (name : Source.isName label)
    (array : labelArray? insertion.source span label = some other)
    (same : other.start = brackets.start) :
    span.start = parens.start ∧ label = "dependencies" := by
  have first := (labelArray_eq_some array).1
  have second := (labelArray_eq_some lodge.array).1
  rw [same] at first
  exact value_unique lodge.seam.regular name (by decide) matched lodge.matched
    first second

theorem quiet
    (calls : ∀ name ∈ soughtCalls, insertion.fragment.occurrences ("." ++ name)
      insertion.fragment.whole = [])
    (package : insertion.fragment.occurrences "Package"
      insertion.fragment.whole = []) : Quiet insertion := by
  refine .of_deep lodge.seam calls package
    (fun _ matched opens _ _ => Or.inl (lodge.deep_parens matched opens)) ?_
  intro span label other matched sought array
  refine lodge.deep (labelArray_eq_some array).2 fun same => ?_
  have known := (lodge.unique matched (isName_of_sought sought) array same).2
  subst known
  exact absurd sought (by decide)

/-- A target whose arguments are not those of the call stays as it is. -/
theorem still_other (quiet : Quiet insertion) {block : Block}
    (written : Written insertion.source block)
    (other : block.parens.start ≠ parens.start) :
    (block.moved insertion).target = block.target := by
  refine still_target quiet written
    (Or.inl (lodge.deep_parens written.matched written.opens))
    fun inner argument => Or.inl ?_
  have array := array_of_argument (written.argument.symm.trans argument)
  refine lodge.deep (labelArray_eq_some array).2 fun same => other ?_
  exact (lodge.unique written.matched (by decide) array same).1

end Lodge

namespace Home

variable {insertion : Insertion} {block : Block} {brackets : Span}
  (home : Home insertion block brackets)

include home

theorem written : Written insertion.source block := written_of_mem home.member

theorem lodge : Lodge insertion block.parens brackets where
  seam := home.seam
  matched := home.written.matched
  array := array_of_argument (home.written.argument.symm.trans home.argument)
  atEnd := home.atEnd

/-- All targets stay as they are but the one with the array, which has the
entries that the array has now. -/
theorem moved_target (quiet : Quiet insertion) {more : List Entry}
    (entries : entriesIn insertion.result (insertion.pair brackets) =
      entriesIn insertion.source brackets ++ more)
    {other : Block} (member : other ∈ blocksOf insertion.source) :
    (other.moved insertion).target = grownAt block.parens.start
      (more.filterMap Entry.dependency) other := by
  have written := written_of_mem member
  by_cases same : other.parens.start = block.parens.start
  · obtain rfl := eq_of_start member home.member same
    have moved := argument_shift home.seam written.matched.order
      (Or.inl (home.lodge.deep_parens written.matched written.opens))
    have known := written.argument.symm.trans home.argument
    rw [known] at moved
    rw [grownAt, if_pos rfl, Target.grown, written.dependencies,
      written.entries, home.argument]
    simp only [Block.moved, moved, DependencyArgument.moved,
      DependencyArgument.entries, entries, List.filterMap_append]
  · rw [grownAt, if_neg same]
    exact home.lodge.still_other quiet written same

/-- Commas at the end of the array leave its entries alone. -/
theorem entries_commas (quiet : Quiet insertion)
    (commas : OnlyCommas insertion.fragment 0 insertion.width) :
    entriesIn insertion.result (insertion.pair brackets) =
      entriesIn insertion.source brackets := by
  rw [entriesIn, entriesIn, home.atEnd.elements_commas commas]
  refine List.map_congr_left fun range member => ?_
  have same := dependencyIn_shift quiet (mem_elements_order member)
  rw [home.atEnd.range_eq member] at same
  rw [same]

/-- One element at the end of the array is one more entry. -/
theorem entries_item (quiet : Quiet insertion) {previous first stop : Nat}
    (item : IsItem insertion.fragment first stop)
    (least : brackets.start ≤ previous) (before : previous < insertion.place)
    (cut : previous = brackets.start ∨
      insertion.source.codeAt? previous = some ',')
    (clear : ∀ position, previous < position → position < insertion.place →
      insertion.source.isSignificant position = false) :
    entriesIn insertion.result (insertion.pair brackets) =
      entriesIn insertion.source brackets ++
        [⟨⟨insertion.place + first, insertion.place + stop⟩,
          dependencyIn? insertion.result
            ⟨insertion.place + first, insertion.place + stop⟩⟩] := by
  rw [entriesIn, entriesIn, home.atEnd.elements_item item home.seam.balanced least
    before cut clear, List.map_append]
  refine congrArg (· ++ _) (List.map_congr_left fun range member => ?_)
  have same := dependencyIn_shift quiet (mem_elements_order member)
  rw [home.atEnd.range_eq member] at same
  rw [same]

end Home

end PackageLayers.Manifest

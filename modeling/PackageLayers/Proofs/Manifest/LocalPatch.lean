/-
Purpose: What adding a target of the same package to a target changes.
Main exports: dependencyInsertion_gains, Firstly, addTarget_gains,
  addTarget_again, addDependency_local
-/
import PackageLayers.Proofs.Manifest.ArgumentPlaces

namespace PackageLayers.Manifest

open Source (Span)

/-!
Adding a target changes one entry of the list of targets that a manifest
declares: the first target with the name has one more dependency at its end.  All
else that an outline says stays, but for the requirements of packages, which the
reader of declarations takes from any literal that is left over.
-/

/-- The edits that add an entry to a target add one dependency to it. -/
theorem dependencyInsertion_gains {text : String} {block : Block} {token : Token}
    {dependency : Dependency} (writes : Writes token dependency)
    (closed : Source.AllClosed (Source.ofText text))
    (member : block ∈ blocksOf (Source.ofText text)) {written : String}
    (same : written.toList = token.chars) {edits : List Edit}
    (inserts : dependencyInsertion (Source.ofText text) block written =
      .ok edits) :
    Gains text (applyEdits text edits) block [dependency] := by
  rw [dependencyInsertion] at inserts
  split at inserts
  · cases inserts
  · cases argument : block.argument with
    | absent =>
        rw [argument] at inserts
        cases inserts
        exact argument_gains writes closed member argument same
    | array brackets =>
        rw [argument] at inserts
        cases inserts
        have array := array_of_argument
          ((written_of_mem member).argument.symm.trans argument)
        exact (appends_array writes.good closed (labelArray_eq_some array).2
          same).gains writes closed member argument
    | expression =>
        rw [argument] at inserts
        cases inserts

/-! ### The first target with a name -/

/-- A list of targets with the first one of a name in it. -/
structure Firstly (targets : List Target) (name : String) (front : List Target)
    (target : Target) (rest : List Target) : Prop where
  split : targets = front ++ target :: rest
  named : target.name = name
  first : ∀ other ∈ front, other.name ≠ name

/-- The first declaration with a name, among all declarations. -/
theorem split_of_block {source : Source} {name : String} {block : Block}
    (found : (Outline.ofSource source).block? name = some block) :
    ∃ front rest, blocksOf source = front ++ block :: rest ∧
      block.target.name = name ∧ ∀ other ∈ front, other.target.name ≠ name := by
  rw [Outline.block?, ofSource_blocks, List.find?_eq_some_iff_append] at found
  obtain ⟨named, front, rest, split, first⟩ := found
  refine ⟨front, rest, split, by simpa using named, fun other member => ?_⟩
  simpa using first other member

theorem firstly_of_split {source : Source} {name : String} {block : Block}
    {front rest : List Block} (split : blocksOf source = front ++ block :: rest)
    (named : block.target.name = name)
    (first : ∀ other ∈ front, other.target.name ≠ name) :
    Firstly (Outline.ofSource source).package.targets name
      (front.map Block.target) block.target (rest.map Block.target) where
  split := by rw [ofSource_targets, split, List.map_append, List.map_cons]
  named := named
  first := by
    intro other member
    obtain ⟨here, inside, rfl⟩ := List.mem_map.mp member
    exact first here inside

/-- What the first declaration with a name declares is the first target with the
name. -/
theorem target_of_block (text name : String) :
    ((Outline.ofText text).block? name).map Block.target =
      (Outline.ofText text).package.targets.find? (·.name == name) := by
  rw [Outline.block?, Outline.ofText, ofSource_blocks, ofSource_targets,
    List.find?_map]
  rfl

/-- The first declaration with a name, among declarations with known targets. -/
theorem block_of_firstly {text : String} {name : String}
    {front rest : List Target} {target : Target}
    (firstly : Firstly (Outline.ofText text).package.targets name front target
      rest) :
    ∃ block, (Outline.ofText text).block? name = some block ∧
      block.target = target := by
  have first : (Outline.ofText text).package.targets.find? (·.name == name) =
      some target := by
    rw [List.find?_eq_some_iff_append]
    exact ⟨by simpa using firstly.named, front, rest, firstly.split,
      fun other member => by simpa using firstly.first other member⟩
  rw [← target_of_block, Option.map_eq_some_iff] at first
  exact first

/-- What one declaration gains, its target gains among all targets. -/
theorem map_grownAt {source : Source} {front rest : List Block} {block : Block}
    (split : blocksOf source = front ++ block :: rest)
    (added : List Dependency) :
    (blocksOf source).map (grownAt block.parens.start added) =
      front.map Block.target ++ block.target.grown added ::
        rest.map Block.target := by
  have apart := @blocks_apart source
  rw [split, List.pairwise_append, List.pairwise_cons] at apart
  have before : ∀ other ∈ front,
      grownAt block.parens.start added other = other.target := by
    intro other member
    have order := apart.2.2 other member block List.mem_cons_self
    exact if_neg (Nat.ne_of_lt order)
  have behind : ∀ other ∈ rest,
      grownAt block.parens.start added other = other.target := by
    intro other member
    have order := apart.2.1.1 other member
    exact if_neg (Nat.ne_of_gt order)
  rw [split, List.map_append, List.map_cons, List.map_congr_left before,
    List.map_congr_left behind, grownAt, if_pos rfl]

/-! ### Adding a target -/

/-- A target lists a name as one of its package if it has an entry that may be
read so. -/
theorem listsTarget_iff {target : Target} {name : String} :
    listsTarget target name = true ↔
      ∃ dependency ∈ target.dependencies, dependency = .bare name ∨
        dependency = .target name ∨ dependency = .byName name := by
  rw [listsTarget, List.any_eq_true]
  refine exists_congr fun dependency => and_congr_right fun _ => ?_
  cases dependency <;>
    simp [Dependency.mayBeLocal, Dependency.package?, Dependency.name]

/-- A declaration that is located is the first one with its name. -/
theorem locate_eq_ok {text : String} {manifest : Path} {name : String}
    {block : Block}
    (found : (Reading.ofText text).locate manifest name = .ok block) :
    (Outline.ofText text).block? name = some block := by
  have outline : (Reading.ofText text).outline = Outline.ofText text := rfl
  rw [Reading.locate, outline] at found
  split at found
  · rename_i known
    cases found
    exact known
  · split at found <;> cases found

/-- The first declaration with a name is located. -/
theorem locate_of_block {text origin : String} {block : Block}
    (found : (Outline.ofText text).block? origin = some block) (manifest : Path) :
    (Reading.ofText text).locate manifest origin = .ok block := by
  have outline : (Reading.ofText text).outline = Outline.ofText text := rfl
  rw [Reading.locate, outline, found]

theorem edited_eq_ok {manifest : Path} {text changed : String}
    {edits : Except EditFault (List Edit)}
    (made : edited manifest text edits = .ok changed) :
    ∃ made, edits = .ok made ∧ changed = applyEdits text made := by
  cases edits with
  | ok made =>
      cases made
      exact ⟨_, rfl, rfl⟩
  | error fault => cases made

/-- What `addTarget` does if it succeeds: nothing, or one insertion at the first
declaration with the name. -/
theorem addTarget_eq_ok {text : String} {manifest : Path}
    {origin destination : String} {patch : Patch}
    (added : addTarget text manifest origin destination = .ok patch) :
    ∃ block, (Outline.ofText text).block? origin = some block ∧
      (listsTarget block.target destination = true ∧
          patch = { text := text, changes := [] } ∨
        listsTarget block.target destination = false ∧ ∃ edits,
          dependencyInsertion (Source.ofText text) block (quote destination) =
            .ok edits ∧
          patch.text = applyEdits text edits ∧
          patch.changes =
            [.targetDependency origin destination manifest.storedText]) := by
  simp only [addTarget, bind, Except.bind] at added
  cases located : (Reading.ofText text).locate manifest origin with
  | error failure =>
      rw [located] at added
      cases added
  | ok block =>
      rw [located] at added
      refine ⟨block, locate_eq_ok located, ?_⟩
      simp only at added
      split at added
      · rename_i listed
        cases added
        exact Or.inl ⟨listed, rfl⟩
      · rename_i fresh
        cases made : edited manifest text (dependencyInsertion
            (Reading.ofText text).source block (quote destination)) with
        | error failure =>
            rw [made] at added
            cases added
        | ok changed =>
            rw [made] at added
            cases added
            obtain ⟨edits, inserts, rfl⟩ := edited_eq_ok made
            exact Or.inr ⟨by simpa using fresh, edits, inserts, rfl, rfl⟩

/-- What is added to a manifest that changes: one dependency of the first target
with the name, and nothing else. -/
theorem addTarget_gains {text : String} {manifest : Path}
    {origin destination : String} {patch : Patch}
    (closed : Source.AllClosed (Source.ofText text))
    (added : addTarget text manifest origin destination = .ok patch)
    (changes : patch.changes ≠ []) :
    Source.AllClosed (Source.ofText patch.text) ∧
      Unmoved (Outline.ofText text).package (Outline.ofText patch.text).package ∧
      ∃ front target rest,
        Firstly (Outline.ofText text).package.targets origin front target rest ∧
        (Outline.ofText patch.text).package.targets =
          front ++ target.grown [.bare destination] :: rest := by
  obtain ⟨block, found, ⟨-, rfl⟩ | ⟨-, edits, inserts, same, -⟩⟩ :=
    addTarget_eq_ok added
  · exact absurd rfl changes
  · obtain ⟨front, rest, split, named, first⟩ := split_of_block found
    have member : block ∈ blocksOf (Source.ofText text) := by
      rw [split]
      simp
    have token : (quote destination).toList = (Token.bare destination).chars := by
      simp [Token.chars, Token.bare]
    have gains := dependencyInsertion_gains (writes_bare destination) closed
      member token inserts
    rw [← same] at gains
    refine ⟨gains.closed, gains.unmoved, _, _, _,
      firstly_of_split split named first, ?_⟩
    rw [gains.targets, map_grownAt split]

/-- A target that was added is not added again. -/
theorem addTarget_again {text : String} {manifest : Path}
    {origin destination : String} {patch : Patch}
    (closed : Source.AllClosed (Source.ofText text))
    (added : addTarget text manifest origin destination = .ok patch) :
    Source.AllClosed (Source.ofText patch.text) ∧
      addTarget patch.text manifest origin destination =
        .ok { text := patch.text, changes := [] } := by
  by_cases changes : patch.changes = []
  · obtain ⟨block, -, ⟨-, rfl⟩ | ⟨-, edits, -, -, more⟩⟩ := addTarget_eq_ok added
    · exact ⟨closed, added⟩
    · rw [changes] at more
      cases more
  · obtain ⟨closed', -, front, target, rest, firstly, targets⟩ :=
      addTarget_gains closed added changes
    have now : Firstly (Outline.ofText patch.text).package.targets origin front
        (target.grown [.bare destination]) rest :=
      ⟨targets, firstly.named, firstly.first⟩
    obtain ⟨block, found, same⟩ := block_of_firstly now
    have listed : listsTarget block.target destination := by
      rw [same, listsTarget_iff]
      exact ⟨.bare destination, by simp [Target.grown], Or.inl rfl⟩
    refine ⟨closed', ?_⟩
    simp only [addTarget, bind, Except.bind, locate_of_block found manifest,
      listed, if_true]
    rfl

/-- A manifest in which a target was added to another one declares what it
declared, with one more dependency of that target behind its others; a target
that is listed already is not added again. -/
theorem addDependency_local {floor text : String} {manifest : Path}
    {origin destination : String} {patch : Patch}
    (closed : Source.AllClosed (Source.ofText text))
    (added : addDependency floor text manifest origin destination none =
      .ok patch) :
    Unmoved (Outline.ofText text).package (Outline.ofText patch.text).package ∧
      ∃ front target rest,
        Firstly (Outline.ofText text).package.targets origin front target rest ∧
        ((∃ dependency ∈ target.dependencies, dependency = .bare destination ∨
            dependency = .target destination ∨
            dependency = .byName destination) →
          patch = { text := text, changes := [] }) ∧
        ((¬∃ dependency ∈ target.dependencies, dependency = .bare destination ∨
            dependency = .target destination ∨
            dependency = .byName destination) →
          (Outline.ofText patch.text).package.targets =
            front ++ target.grown [.bare destination] :: rest) := by
  obtain ⟨block, found, kinds⟩ := addTarget_eq_ok added
  obtain ⟨front, rest, split, named, first⟩ := split_of_block found
  have firstly := firstly_of_split split named first
  simp only [← listsTarget_iff]
  rcases kinds with ⟨listed, rfl⟩ | ⟨fresh, edits, inserts, same, -⟩
  · exact ⟨⟨rfl, rfl, rfl⟩, _, block.target, _, firstly, fun _ => rfl,
      fun none => absurd listed none⟩
  · have member : block ∈ blocksOf (Source.ofText text) := by
      rw [split]
      simp
    have token : (quote destination).toList = (Token.bare destination).chars := by
      simp [Token.chars, Token.bare]
    have gains := dependencyInsertion_gains (writes_bare destination) closed
      member token inserts
    rw [← same] at gains
    refine ⟨gains.unmoved, _, block.target, _, firstly,
      fun listed => absurd (fresh.symm.trans listed) (by decide), fun _ => ?_⟩
    rw [gains.targets, map_grownAt split]

/-- A target without dependencies gets its first one. -/
theorem addDependency_local_first :
    Unmoved
      (Outline.ofText "Package(targets: [.target(name: \"A\")])").package
      (Outline.ofText "Package(targets: [.target(name: \"A\", dependencies: [\"B\"])])").package :=
  (@addDependency_local "1.0.0" _ ⟨"/Package.swift"⟩ "A" "B"
    { text := "Package(targets: [.target(name: \"A\", dependencies: [\"B\"])])"
      changes := [.targetDependency "A" "B" "/Package.swift"] }
    (by decide +kernel) (by decide +kernel)).1

end PackageLayers.Manifest

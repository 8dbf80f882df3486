/-
Purpose: What one more target in a manifest does to its graph.
Main exports: Graph.IsAcyclic, Graph.Extends, Graph.ofFile_of_addTarget,
  Graph.extends_of_grown, Graph.acyclic_of_grown
-/
import PackageLayers.Proofs.Graph.AllowedEdges
import PackageLayers.Proofs.Graph.Transparency
import PackageLayers.Proofs.Manifest.LocalPatch

namespace PackageLayers

open Manifest (Dependency Firstly Outline Package Patch Reader Target addTarget)
open Relation (TransGen)

/-!
The edit of a manifest changes the first declaration with a name, and that is the
one which the graph keeps when a name is declared twice.  So the graph of the new
text is the old one with one more dependency, as far as searches can tell: they
see the targets by their names and nothing else.
-/

/-! ### What is edited -/

/-- Which target is found by its name, among targets of which one is the first
with another. -/
theorem Manifest.find_first {front : List Target} (target : Target)
    (rest : List Target) {origin : String} (named : target.name = origin)
    (first : ∀ other ∈ front, other.name ≠ origin) (name : String) :
    (front ++ target :: rest).find? (·.name == name) =
      if name = origin then some target
      else (front ++ rest).find? (·.name == name) := by
  rw [List.find?_append]
  split
  · rename_i same
    subst same
    have none : front.find? (·.name == name) = none :=
      List.find?_eq_none.mpr fun other member => by simpa using first other member
    rw [none, Option.none_or, List.find?_cons_of_pos (by simpa using named)]
  · rename_i other
    have away : ¬(target.name == name) = true := by
      rw [beq_iff_eq, named]
      exact fun same => other same.symm
    rw [List.find?_cons_of_neg (by exact away), List.find?_append]

namespace Graph

variable {graph later : Graph} {origin destination name next : String}
  {dependency : Dependency}

/-! ### Graphs with the same targets -/

/-- Whether two graphs know the same targets by the same names. -/
def SameTargets (graph later : Graph) : Prop :=
  ∀ name, later.targets.get? name = graph.targets.get? name

namespace SameTargets

theorem hasTarget (same : graph.SameTargets later) (name : String) :
    later.hasTarget name = graph.hasTarget name := by
  rw [Graph.hasTarget, Graph.hasTarget, Dict.contains, Dict.contains, same name]

theorem edge (same : graph.SameTargets later) : later.Edge = graph.Edge := by
  funext name next
  rw [eq_iff_iff, edge_iff, edge_iff, same.hasTarget, dependenciesOf,
    dependenciesOf, same name]

end SameTargets

/-- The graph of a package whose first target with a name has one more
dependency. -/
theorem sameTargets_ofPackage {package grown : Package}
    {front rest : List Target} {target : Target}
    (firstly : Firstly package.targets origin front target rest)
    (targets : grown.targets = front ++ target.grown [dependency] :: rest)
    (manifest : Path) (modified modifiedLater : Nat) :
    ((ofPackage package manifest modified).withDependency origin
      dependency).SameTargets (ofPackage grown manifest modifiedLater) := by
  intro name
  have before (name : String) := Manifest.find_first target rest firstly.named
    firstly.first name
  have after := Manifest.find_first (target.grown [dependency]) rest
    firstly.named firstly.first name
  have found : (ofPackage package manifest modified).targets.get? origin =
      some target := by
    rw [get?_ofPackage, firstly.split, before, if_pos rfl]
  rw [withDependency, found, get?_ofPackage, targets, after]
  simp only [Dict.get?_insert]
  split
  · rfl
  · rename_i other
    rw [get?_ofPackage, firstly.split, before, if_neg other]

/-- What is built from a file with a text is the graph of the package that the text
declares. -/
theorem eq_of_ofFile {path : Path} {file : File} {text : String}
    (built : ofFile? path file = some graph) (holds : file.content = .text text) :
    graph = ofPackage (Reader.named path (Outline.ofText text).package) path
      (dateOf file) := by
  rw [ofFile?, holds, Content.text?, Option.bind_some, Option.bind_eq_some_iff]
    at built
  obtain ⟨package, known, built⟩ := built
  rw [Package.ofText?] at known
  split at known
  · cases known
  · rw [Option.some.injEq] at known
    subst known
    split at built
    · cases built
    · exact (Option.some.inj built).symm

/-- The graph of a manifest knows the first target of every name that its text
declares. -/
theorem target_of_ofFile {path : Path} {file : File} {text : String}
    (built : ofFile? path file = some graph) (holds : file.content = .text text)
    (name : String) :
    graph.targets.get? name =
      (Outline.ofText text).package.targets.find? (·.name == name) := by
  rw [eq_of_ofFile built holds]
  generalize (Outline.ofText text).package = package
  exact get?_ofPackage (Reader.named path package) path (dateOf file) name

/-- A file whose text declares targets has a graph. -/
theorem ofFile_of_declares {path : Path} {file : File} {text : String}
    (holds : file.content = .text text)
    (declares : (Outline.ofText text).package.targets ≠ []) :
    ofFile? path file = some (ofPackage (Reader.named path (Outline.ofText text).package)
      path (dateOf file)) := by
  have declared : Package.ofText? text = some (Outline.ofText text).package := by
    rw [Package.ofText?]
    simp [declares]
  generalize (Outline.ofText text).package = package at declares declared
  rw [ofFile?, holds, Content.text?, Option.bind_some, declared, Option.bind_some,
    if_neg (by simpa using declares)]

/-- What the graph of a manifest becomes when a target is added to another in
its text. -/
theorem ofFile_of_addTarget {path manifest : Path} {file fileLater : File}
    {text : String} {patch : Patch}
    (built : ofFile? path file = some graph) (holds : file.content = .text text)
    (closed : Source.AllClosed (Source.ofText text))
    (added : addTarget text manifest origin destination = .ok patch)
    (changes : patch.changes ≠ [])
    (written : fileLater.content = .text patch.text) :
    ∃ later, ofFile? path fileLater = some later ∧
      (graph.withDependency origin (.bare destination)).SameTargets later := by
  obtain ⟨-, -, front, target, rest, firstly, targets⟩ :=
    Manifest.addTarget_gains closed added changes
  refine ⟨_, ofFile_of_declares written (by rw [targets]; simp), ?_⟩
  generalize (Outline.ofText patch.text).package = grown at targets
  rw [eq_of_ofFile built holds]
  generalize (Outline.ofText text).package = package at firstly
  exact @sameTargets_ofPackage origin _ (Reader.named path package)
    (Reader.named path grown) front rest target firstly targets path _ _

/-! ### Acyclic graphs -/

/-- Whether no target leads back to itself. -/
def IsAcyclic (graph : Graph) : Prop := ∀ name, ¬TransGen graph.Edge name name

/-- Whether a graph has the targets of another, and its edges and at most one
more. -/
structure Extends (graph later : Graph) (origin destination : String) : Prop where
  targets : ∀ name, later.hasTarget name = graph.hasTarget name
  keeps : ∀ name next, graph.Edge name next → later.Edge name next
  adds : ∀ name next, later.Edge name next →
    graph.Edge name next ∨ name = origin ∧ next = destination

theorem Extends.refl : graph.Extends graph origin destination where
  targets _ := rfl
  keeps _ _ step := step
  adds _ _ step := Or.inl step

/-- One more entry for a target of the package is one more edge. -/
theorem edge_of_sameTargets
    (same : (graph.withDependency origin (.bare destination)).SameTargets later)
    (hasOrigin : graph.hasTarget origin)
    (hasDestination : graph.hasTarget destination) :
    later.Edge name next ↔
      graph.Edge name next ∨ name = origin ∧ next = destination := by
  rw [same.edge]
  exact @edge_withDependency graph origin name next (.bare destination) hasOrigin
    rfl hasDestination

theorem extends_of_sameTargets
    (same : (graph.withDependency origin (.bare destination)).SameTargets later)
    (hasOrigin : graph.hasTarget origin)
    (hasDestination : graph.hasTarget destination) :
    graph.Extends later origin destination where
  targets name := by rw [same.hasTarget, hasTarget_withDependency]
  keeps _ _ step :=
    (edge_of_sameTargets same hasOrigin hasDestination).mpr (Or.inl step)
  adds _ _ := (edge_of_sameTargets same hasOrigin hasDestination).mp

/-- An edge that is allowed leaves a graph acyclic. -/
theorem acyclic_of_allowed {analysis : Analysis} {decision : Decision}
    (acyclic : graph.IsAcyclic)
    (same : (graph.withDependency origin (.bare destination)).SameTargets later)
    (hasOrigin : graph.hasTarget origin)
    (hasDestination : graph.hasTarget destination)
    (judged : graph.evaluate analysis origin destination = .judged decision)
    (allowed : decision.blocked = false) : later.IsAcyclic := by
  have widened : Widened graph.Edge later.Edge origin destination :=
    { edges := fun _ _ => edge_of_sameTargets same hasOrigin hasDestination
      apart := (allowed_of_evaluate judged allowed).2.1 }
  exact fun name cycle => acyclic name (widened.cycle_iff.mp cycle)

end Graph

end PackageLayers

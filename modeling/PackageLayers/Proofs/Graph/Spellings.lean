/-
Purpose: Graphs do not depend on how a reference to a target is spelled.
Main exports: Graph.SpelledAlike, Graph.spelledAlike_withCalls,
  Graph.SpelledAlike.analyze_eq, Graph.graphs_of_dump
-/
import PackageLayers.Graph.Level
import PackageLayers.Proofs.Graph.Layers
import PackageLayers.Proofs.Manifest.Dumps
import PackageLayers.Proofs.Project.Rules

namespace PackageLayers

open Manifest (Dependency DumpStyle Package Target)

/-!
A bare string and a call of `byName` may name the same targets.  A graph whose
entries are all calls has the same edges as before, and searches and levels look
at edges, at the order of the targets and at names, and at nothing else.
-/

/-! ### References as calls -/

namespace Manifest

@[simp] theorem Dependency.name_asCall (dependency : Dependency) :
    dependency.asCall.name = dependency.name := by
  cases dependency <;> rfl

@[simp] theorem Dependency.mayBeLocal_asCall (dependency : Dependency) :
    dependency.asCall.mayBeLocal = dependency.mayBeLocal := by
  cases dependency <;> rfl

@[simp] theorem Dependency.isUnqualified_asCall (dependency : Dependency) :
    dependency.asCall.isUnqualified = dependency.isUnqualified := by
  cases dependency <;> rfl

end Manifest

namespace Graph

variable {graph other : Graph}

/-- Whether a graph has the targets of another in the same order, and for each the
same dependencies as calls. -/
structure SpelledAlike (graph other : Graph) : Prop where
  order : other.order = graph.order
  names : other.targets.keys = graph.targets.keys
  dependencies : ∀ name,
    other.dependenciesOf name = (graph.dependenciesOf name).map Dependency.asCall

theorem firstOfEachName_withCalls (seen : List String) (targets : List Target) :
    firstOfEachName seen (targets.map Target.withCalls) =
      (firstOfEachName seen targets).map Target.withCalls := by
  induction targets generalizing seen with
  | nil => rfl
  | cons target targets inductionHypothesis =>
      rw [List.map_cons, firstOfEachName, firstOfEachName, inductionHypothesis,
        inductionHypothesis]
      show (if seen.contains target.name then _ else _) = _
      split <;> rfl

theorem get?_withCalls (package : Package) (manifest : Path) (modified : Nat)
    (name : String) :
    (ofPackage package.withCalls manifest modified).targets.get? name =
      ((ofPackage package manifest modified).targets.get? name).map
        Target.withCalls := by
  rw [get?_ofPackage, get?_ofPackage, Package.withCalls, List.find?_map]
  rfl

/-- The graph of a package whose references are written as calls. -/
theorem spelledAlike_withCalls (package : Package) (manifest : Path)
    (modified : Nat) :
    SpelledAlike (ofPackage package manifest modified)
      (ofPackage package.withCalls manifest modified) where
  order := by
    rw [order_ofPackage, order_ofPackage, Package.withCalls,
      firstOfEachName_withCalls, List.map_map]
    rfl
  names := by
    have targets : (ofPackage package.withCalls manifest modified).targets =
        (ofPackage package manifest modified).targets.map Target.withCalls :=
      Dict.ext_get fun name => by rw [get?_withCalls, Dict.get?_map]
    rw [targets, Dict.keys, Dict.keys, Dict.map, List.map_map]
    rfl
  dependencies name := by
    rw [dependenciesOf, dependenciesOf, get?_withCalls]
    cases (ofPackage package manifest modified).targets.get? name <;> rfl

namespace SpelledAlike

variable (alike : SpelledAlike graph other)

include alike

theorem hasTarget_eq (name : String) :
    other.hasTarget name = graph.hasTarget name := by
  rw [Bool.eq_iff_iff, hasTarget, hasTarget, ← Dict.mem_keys_iff,
    ← Dict.mem_keys_iff, alike.names]

theorem localDependencies_eq (name : String) :
    other.localDependencies name = graph.localDependencies name := by
  rw [localDependencies, localDependencies, alike.dependencies, List.filter_map,
    List.map_map]
  simp only [Function.comp_def, Dependency.name_asCall,
    Dependency.mayBeLocal_asCall, alike.hasTarget_eq]

theorem hasEdge_eq (origin destination : String) :
    other.hasEdge origin destination = graph.hasEdge origin destination := by
  rw [hasEdge, hasEdge, alike.localDependencies_eq]

/-- The same names are left unresolved, spelled as calls. -/
theorem unresolved_eq (name : String) :
    other.unresolved name = (graph.unresolved name).map Dependency.asCall := by
  rw [unresolved, unresolved, alike.dependencies, List.filter_map]
  simp only [Function.comp_def, Dependency.name_asCall,
    Dependency.isUnqualified_asCall, alike.hasTarget_eq]

theorem edges_eq : other.edges = graph.edges := by
  simp only [edges, alike.names, alike.localDependencies_eq]

theorem shortestPath_eq (origin destination : String) :
    other.shortestPath? origin destination =
      graph.shortestPath? origin destination := by
  rw [shortestPath?, shortestPath?, alike.edges_eq]

theorem reaches_eq (origin destination : String) :
    other.reaches origin destination = graph.reaches origin destination := by
  rw [reaches, reaches, alike.shortestPath_eq]

/-! ### Levels -/

theorem dependents_eq : other.dependents = graph.dependents := by
  funext name
  simp only [Graph.dependents_eq, alike.order, alike.hasEdge_eq]

theorem layering_eq : other.layering = graph.layering := by
  have waiting : other.waiting = graph.waiting := by
    simp only [Graph.waiting, alike.order, alike.localDependencies_eq]
  simp only [layering, unsettled, leaves, waiting, alike.order,
    alike.dependents_eq]

/-- Levels, order and platform modules are the same. -/
theorem analyze_eq (known : List String) :
    other.analyze known = graph.analyze known := by
  have hasTarget : other.hasTarget = graph.hasTarget :=
    funext alike.hasTarget_eq
  have names (name : String) :
      (other.dependenciesOf name).map Dependency.name =
        (graph.dependenciesOf name).map Dependency.name := by
    rw [alike.dependencies, List.map_map]
    simp only [Function.comp_def, Dependency.name_asCall]
  simp only [analyze, systemModulesIn, alike.layering_eq, alike.order, names,
    hasTarget]

end SpelledAlike

end Graph

/-! ### Packages that are dumped -/

namespace Manifest

/-- A dump is read as the package with its references as calls, and the graphs of
both have the same edges, levels, ways and unresolved names. -/
theorem Package.ofDump_toDump (style : DumpStyle) (package : Package)
    (onePlace : ∀ declaration ∈ package.declarations, declaration.namesOnePlace) :
    ofDump (package.toDump style).canonical = .ok package.withCalls ∧
      ∀ (manifest : Path) (modified : Nat),
        let written := Graph.ofPackage package manifest modified
        let dumped := Graph.ofPackage package.withCalls manifest modified
        (∀ name, dumped.localDependencies name = written.localDependencies name) ∧
          (∀ known, dumped.analyze known = written.analyze known) ∧
          (∀ origin destination, dumped.reaches origin destination =
            written.reaches origin destination) ∧
          ∀ name, (dumped.unresolved name).map Dependency.name =
            (written.unresolved name).map Dependency.name := by
  refine ⟨read_toDump style onePlace, fun manifest modified => ?_⟩
  have alike := Graph.spelledAlike_withCalls package manifest modified
  refine ⟨alike.localDependencies_eq, alike.analyze_eq, alike.reaches_eq,
    fun name => ?_⟩
  rw [alike.unresolved_eq, List.map_map]
  simp only [Function.comp_def, Dependency.name_asCall]

/-- Every kind of dependency and of declaration once. -/
def sampleDumped : Package :=
  { name := some "P"
    targets :=
      [{ name := "App", kind := .executable, sources := some []
         dependencies := [.bare "Core", .target "Core", .byName "Gone",
           .product "Logging" "swift-log", .bare "\"é\""] },
        { name := "Core", path := some "null" }]
    declarations :=
      [{ name := some "", url := some "https://example.com/log.git",
         requirement := some "1.5.0" }, { path := some "../.." },
        { id := some "org.core" }]
    products := [{ name := "Tool", kind := "executable", targets := ["App"] }] }

def sampleStyle : DumpStyle where
  writesNull := true
  requirement := fun _ => .range "2.0.0"
  productType := fun _ => .null

theorem Package.ofDump_toDump_sample :
    (∀ declaration ∈ sampleDumped.declarations, declaration.namesOnePlace) ∧
      ofDump (sampleDumped.toDump sampleStyle).canonical =
        .ok sampleDumped.withCalls ∧
      ((Graph.ofPackage sampleDumped.withCalls ⟨"/p/Package.swift"⟩ 0).unresolved
        "App").map Dependency.name = ["Gone", "\"é\""] := by
  have onePlace : ∀ declaration ∈ sampleDumped.declarations,
      declaration.namesOnePlace := by decide
  obtain ⟨read, graphs⟩ := ofDump_toDump sampleStyle sampleDumped onePlace
  have unresolved := (graphs ⟨"/p/Package.swift"⟩ 0).2.2.2 "App"
  exact ⟨onePlace, read, unresolved.trans (by decide +kernel)⟩

end Manifest

end PackageLayers

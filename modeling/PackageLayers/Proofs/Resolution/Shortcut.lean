/-
Purpose: What is still to be done for a product that is listed already.
Main exports: listsProduct_ofFile, judgement_productListed,
  addDependency_of_productListed, addDependency_unchanged_iff
-/
import PackageLayers.Proofs.Graph.Growing
import PackageLayers.Proofs.Manifest.ProductPatch
import PackageLayers.Resolution.Judgement

namespace PackageLayers.Resolution

/-!
An edge to a product that its target lists already is satisfied, whether or not the
manifest declares the owner.  To add that product all the same never adds it again:
all that is left to do is to declare the owner.  So such an edge needs no change
exactly if the manifest declares the owner already.
-/

open Manifest (Outline ProductContext Reading addDependency addProduct declareOwner)

/-! ### Judgements -/

/-- When a judgement says that a product is listed: the destination is the name of
a product of another package, and the origin lists that product. -/
theorem judgement_productListed {files : Files} {map : Project.ProjectMap}
    {known : List String} {graph : Graph} {origin destination : String}
    {source product package : String}
    (judged : judgeEdge files map known graph origin destination =
      .error (.satisfied (.productListed source product package))) :
    source = origin ∧ map.owner? destination = some ⟨package, product⟩ ∧
      Text.sameFolded package (packageOf map graph) = false ∧
      listsProduct graph origin product package := by
  rw [judgeEdge] at judged
  split at judged
  · rw [missingTarget] at judged
    split at judged <;> cases judged
  · split at judged
    · cases judged
    · split at judged
      · rw [judgeInside] at judged
        split at judged
        · cases judged
        · cases judged
        · split at judged <;> cases judged
      · split at judged
        · cases judged
        · rename_i owner owned
          rw [judgeAcross] at judged
          split at judged
          · cases judged
          · rename_i apart
            split at judged
            · rename_i listed
              cases judged
              exact ⟨rfl, owned, by simpa using apart, listed⟩
            · split at judged
              · cases judged
              · split at judged <;> cases judged

/-! ### Targets -/

/-- What the graph of a manifest says of a target is what the declaration says that
an edit of its text would change. -/
theorem listsProduct_ofFile {path : Path} {file : File} {graph : Graph}
    {text origin product package : String}
    (built : Graph.ofFile? path file = some graph) (holds : file.content = .text text)
    (listed : listsProduct graph origin product package) :
    ∃ block, (Outline.ofText text).block? origin = some block ∧
      ∀ owner, Manifest.listsProduct block.target product owner package := by
  rw [listsProduct, Graph.dependenciesOf, Graph.target_of_ofFile built holds,
    ← Manifest.target_of_block] at listed
  cases found : (Outline.ofText text).block? origin with
  | none =>
      rw [found] at listed
      cases listed
  | some block =>
      rw [found, Option.map_some, Option.map_some, Option.getD_some,
        List.any_eq_true] at listed
      obtain ⟨dependency, member, same⟩ := listed
      refine ⟨block, rfl, fun owner => Manifest.listsProduct_iff.mpr ?_⟩
      cases dependency with
      | product name other =>
          simp only [Bool.and_eq_true, beq_iff_eq] at same
          obtain ⟨rfl, folded⟩ := same
          exact ⟨other, member, Or.inr folded⟩
      | _ => cases same

/-! ### Additions -/

/-- To add a product that the first declaration of its target lists is to declare
its owner. -/
theorem addProduct_of_listed {floor text origin : String} {manifest : Path}
    {context : ProductContext} {block : Manifest.Block}
    (closed : Source.AllClosed (Source.ofText text))
    (possible : (Outline.ofText text).declarationArray.isSome ∨
      (context.declarationFor? (Outline.ofText text).package).isSome)
    (found : (Outline.ofText text).block? origin = some block)
    (listed : ∀ owner,
      Manifest.listsProduct block.target context.product owner context.package) :
    addProduct floor text manifest origin context =
      (declareOwner floor (Reading.ofText text) manifest context).map
        fun declared => { text := declared.text, changes := declared.changes } := by
  have before := Manifest.locate_of_block found manifest
  simp only [addProduct, bind, Except.bind, before]
  cases declares : declareOwner floor (Reading.ofText text) manifest context with
  | error failure => rfl
  | ok declared =>
      -- the declaration of the owner leaves the targets
      have owned := (Manifest.declareOwner_eq_ok closed possible declares).1
      obtain ⟨front, rest, split, named, first⟩ := Manifest.split_of_block found
      have firstly := Manifest.firstly_of_split split named first
      change Manifest.Firstly (Outline.ofText text).package.targets _ _ _ _ at firstly
      rw [← owned.targets] at firstly
      obtain ⟨later, here, same⟩ := Manifest.block_of_firstly firstly
      have after := Manifest.locate_of_block here manifest
      simp only [after, same, listed, if_true]
      rfl

/-- An owner is declared without a change exactly if it is declared already. -/
theorem declareOwner_unchanged_iff {floor text : String} {manifest : Path}
    {context : ProductContext} :
    (∃ declared, declareOwner floor (Reading.ofText text) manifest context =
        .ok declared ∧ declared.changes = []) ↔
      (context.declarationFor? (Outline.ofText text).package).isSome := by
  have outline : (Reading.ofText text).outline = Outline.ofText text := rfl
  rw [declareOwner, outline]
  cases context.declarationFor? (Outline.ofText text).package with
  | some declaration => exact ⟨fun _ => rfl, fun _ => ⟨_, rfl, rfl⟩⟩
  | none =>
      refine ⟨?_, fun known => by cases known⟩
      rintro ⟨declared, made, none⟩
      simp only [bind, Except.bind] at made
      split at made
      · cases made
      · split at made
        · cases made
        · cases made
          cases none

section

variable {files : Files} {map : Project.ProjectMap} {known : List String}
  {path : Path} {file : File} {graph : Graph} {text origin destination : String}
  {source product package : String} (floor : String)
  (built : Graph.ofFile? path file = some graph) (holds : file.content = .text text)
  (closed : Source.AllClosed (Source.ofText text))
  (judged : judgeEdge files map known graph origin destination =
    .error (.satisfied (.productListed source product package)))

include built holds closed judged

/-- If a request for an edge ends since the product is listed, the addition that
another request would ask for declares the owner, unless the manifest does, and adds
nothing else. -/
theorem addDependency_of_productListed :
    let context : ProductContext :=
      ⟨package, product, map.provenance package graph.manifest⟩
    (Outline.ofText text).declarationArray.isSome ∨
        (context.declarationFor? (Outline.ofText text).package).isSome →
      addDependency floor text graph.manifest origin destination (some context) =
        (declareOwner floor (Reading.ofText text) graph.manifest context).map
          fun declared => { text := declared.text, changes := declared.changes } := by
  intro context possible
  obtain ⟨-, -, -, listed⟩ := judgement_productListed judged
  obtain ⟨block, found, lists⟩ := listsProduct_ofFile built holds listed
  exact addProduct_of_listed closed possible found lists

/-- The addition changes nothing exactly if the manifest declares the owner. -/
theorem addDependency_unchanged_iff :
    let context : ProductContext :=
      ⟨package, product, map.provenance package graph.manifest⟩
    (Outline.ofText text).declarationArray.isSome ∨
        (context.declarationFor? (Outline.ofText text).package).isSome →
      ((∃ patch, addDependency floor text graph.manifest origin destination
            (some context) = .ok patch ∧ patch.changes = []) ↔
        (context.declarationFor? (Outline.ofText text).package).isSome) := by
  intro context possible
  have adds := addDependency_of_productListed floor built holds closed judged possible
  rw [adds, ← @declareOwner_unchanged_iff floor text graph.manifest context]
  cases declareOwner floor (Reading.ofText text) graph.manifest context with
  | error failure => simp [Except.map]
  | ok declared => simp [Except.map]

end

/-- The graph of a manifest that uses a product and declares no package. -/
def undeclaredOwner : Graph :=
  .ofPackage
    { targets := [{ name := "T", dependencies := [.product "U" "B"] }] } ⟨"/p"⟩ 0

/-- A project in which the owner is known. -/
def knownOwner : Project.ProjectMap where
  products := Dict.ofList
    [("U", { kind := "library", name := "U", package := "B" })]

/-- An edge may be satisfied although the owner is not declared. -/
example :
    judgeEdge Files.empty knownOwner [] undeclaredOwner "T" "U" =
        .error (.satisfied (.productListed "T" "U" "B")) ∧
      undeclaredOwner.declarations = [] := by
  decide +kernel

end PackageLayers.Resolution

/-
Purpose: Adding a dependency to a target of a manifest text.
Main exports: Change, Patch, addDependency
-/
import PackageLayers.Manifest.Insertion
import PackageLayers.Manifest.Provenance

namespace PackageLayers.Manifest

/-!
`addDependency` computes the text of a manifest with one more dependency.  A
target of the same package is added as a bare string.  A product of another
package is added with the name of its owner, and the owner is declared first if
the manifest does not declare it.  A dependency that is there already is not
added again; then the text stays as it is and there are no changes.
-/

/-- One thing that was added to a manifest. -/
inductive Change where
  | targetDependency (origin destination file : String)
  | packageDeclaration (package declaration file : String)
  | productDependency (origin product package file : String)
deriving Repr, Inhabited, DecidableEq

/-- A change as a document. -/
def Change.toJson : Change → Json
  | .targetDependency origin destination file =>
      .obj
        [("type", .str "targetDependency"), ("fromTarget", .str origin),
          ("toTarget", .str destination), ("file", .str file)]
  | .packageDeclaration package declaration file =>
      .obj
        [("type", .str "packageDeclaration"), ("packageName", .str package),
          ("packageRef", .str declaration), ("file", .str file)]
  | .productDependency origin product package file =>
      .obj
        [("type", .str "productDependency"), ("fromTarget", .str origin),
          ("toTarget", .str product), ("packageName", .str package),
          ("file", .str file)]

/-- The text of a manifest after all changes, and the changes. -/
structure Patch where
  text : String
  changes : List Change
deriving Repr, Inhabited, DecidableEq

/-- A classified text with its outline. -/
structure Reading where
  text : String
  source : Source
  outline : Outline

/-- Read a manifest text. -/
def Reading.ofText (text : String) : Reading :=
  let source := Source.ofText text
  { text := text, source := source, outline := Outline.ofSource source }

/-- The balanced declaration of a target. -/
def Reading.locate (reading : Reading) (manifest : Path) (target : String) :
    Except Failure Block :=
  match reading.outline.block? target with
  | some block => .ok block
  | none =>
      if reading.outline.isSkipped target then
        .error (.manifestMalformed manifest (.unbalancedTarget target))
      else .error (.targetNotFound target manifest)

/-- A text with edits made, unless there is a fault. -/
def edited (manifest : Path) (text : String) :
    Except EditFault (List Edit) → Except Failure String
  | .ok edits => .ok (applyEdits text edits)
  | .error fault => .error (.manifestMalformed manifest fault)

/-- Whether a target lists a name as a target of its package. -/
def listsTarget (target : Target) (name : String) : Bool :=
  target.dependencies.any fun dependency =>
    dependency.mayBeLocal && dependency.name == name

/-- Whether a target lists a product under one of two names of its owner. -/
def listsProduct (target : Target) (product owner other : String) : Bool :=
  target.dependencies.any fun dependency =>
    match dependency with
    | .product name package =>
        name == product &&
          (Text.sameFolded package owner || Text.sameFolded package other)
    | _ => false

/-- Add a target of the same package to the dependencies of `origin`. -/
def addTarget (text : String) (manifest : Path) (origin destination : String) :
    Except Failure Patch := do
  let reading := Reading.ofText text
  let block ← reading.locate manifest origin
  if listsTarget block.target destination then
    return { text := text, changes := [] }
  let changed ← edited manifest text
    (dependencyInsertion reading.source block (quote destination))
  return {
    text := changed
    changes := [.targetDependency origin destination manifest.storedText] }

/-- A manifest text that declares the owner of a product, the name under which
it does, and what was added for it. -/
structure Declared where
  text : String
  owner : String
  changes : List Change

/-- Declare the owner of a product, unless the manifest does. -/
def declareOwner (floor : String) (reading : Reading) (manifest : Path)
    (context : ProductContext) : Except Failure Declared :=
  match context.declarationFor? reading.outline.package with
  | some declaration =>
      .ok
        { text := reading.text
          owner := declaration.identity?.getD context.package
          changes := [] }
  | none => do
      let token ← context.token floor
      let changed ← edited manifest reading.text
        (declarationInsertion reading.source reading.outline token.text)
      return {
        text := changed
        owner := token.identity
        changes :=
          [.packageDeclaration token.identity token.text manifest.storedText] }

/-- Add a product to the dependencies of `origin`. -/
def addProduct (floor : String) (text : String) (manifest : Path)
    (origin : String) (context : ProductContext) : Except Failure Patch := do
  let reading := Reading.ofText text
  let _ ← reading.locate manifest origin
  let declared ← declareOwner floor reading manifest context
  let reading := Reading.ofText declared.text
  let block ← reading.locate manifest origin
  if listsProduct block.target context.product declared.owner context.package then
    return { text := declared.text, changes := declared.changes }
  let token :=
    ".product(name: " ++ quote context.product ++ ", package: " ++
      quote declared.owner ++ ")"
  let changed ← edited manifest declared.text
    (dependencyInsertion reading.source block token)
  return {
    text := changed
    changes := declared.changes ++
      [.productDependency origin context.product declared.owner
        manifest.storedText] }

/-- Add a dependency to `origin`: the product of a context if there is one, else
the target `destination`.  URL packages without a known version are declared
from the version `floor`. -/
def addDependency (floor : String) (text : String) (manifest : Path)
    (origin destination : String) (context : Option ProductContext) :
    Except Failure Patch :=
  match context with
  | some context => addProduct floor text manifest origin context
  | none => addTarget text manifest origin destination

end PackageLayers.Manifest

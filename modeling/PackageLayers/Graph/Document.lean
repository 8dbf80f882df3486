/-
Purpose: Graphs as JSON documents.
Main exports: Graph.toJson, Graph.ofJson?
-/
import PackageLayers.Graph.Basic
import PackageLayers.Manifest.Document

namespace PackageLayers.Graph

open Manifest (Declaration Dependency Product Target)

/-!
Graphs are kept on disk between runs.  Unlike in the document of a package, the
path and the sources of a target are always written, as null where there are
none.
-/

/-- A target of a graph as a document. -/
def targetJson (target : Target) : Json :=
  .obj
    [("name", .str target.name), ("kind", .str target.kind.label),
      ("path", Json.ofOption target.path),
      ("sources", (target.sources.map Json.ofTexts).getD .null),
      ("dependencies", .arr (target.dependencies.map Dependency.toJson))]

/-- A graph as a document. -/
def toJson (graph : Graph) : Json :=
  .obj
    [("schemaVersion", Json.ofNat graph.schemaVersion),
      ("packagePath", .str graph.manifest.text),
      ("packageDir", .str graph.directory.text),
      ("mtimeMs", Json.ofNat graph.modified),
      ("packageName", .str graph.packageName),
      ("targets", Json.ofDict targetJson graph.targets),
      ("targetsList", Json.ofTexts graph.order),
      ("packageDecls", .arr (graph.declarations.map Declaration.toJson)),
      ("products", .arr (graph.products.map Product.toJson))]

/-- The fields of a graph's document. -/
def fieldNames : List String :=
  ["schemaVersion", "packagePath", "packageDir", "mtimeMs", "packageName",
    "targets", "targetsList", "packageDecls", "products"]

/-- The graph that a document writes. -/
def ofJson? (value : Json) : Option Graph := do
  let record ← value.record? fieldNames
  let schemaVersion ← record.required "schemaVersion" Json.word32?
  let manifest ← record.required "packagePath" Json.str?
  let directory ← record.required "packageDir" Json.str?
  let modified ← record.required "mtimeMs" Json.word64?
  let packageName ← record.required "packageName" Json.str?
  let targets ← record.required "targets" (Json.dict? Target.ofJson?)
  let order ← record.required "targetsList" Json.texts?
  let declarations ←
    record.defaulted "packageDecls" [] (Json.list? Declaration.ofJson?)
  let products ← record.defaulted "products" [] (Json.list? Product.ofJson?)
  pure
    { schemaVersion := schemaVersion
      manifest := ⟨manifest⟩
      directory := ⟨directory⟩
      modified := modified
      packageName := packageName
      targets := targets
      order := order
      declarations := declarations
      products := products }

end PackageLayers.Graph

/-
Purpose: Maps of projects as JSON documents.
Main exports: ProjectMap.toJson, ProjectMap.ofJson?
-/
import PackageLayers.Json.Record
import PackageLayers.Project.Basic

namespace PackageLayers.Project

/-!
The map is kept as one document between runs.  All tables may be missing when it
is read, so a map can be started by hand with as little as a version.
-/

namespace PackageEntry

/-- A package as a document. -/
def toJson (entry : PackageEntry) : Json :=
  .obj
    ([("packageDir", .str entry.directory),
      ("packageSwiftPath", .str entry.manifest)] ++
      Json.memberIfSome "targets" Json.ofTexts entry.targets)

/-- The package that a document writes. -/
def ofJson? (value : Json) : Option PackageEntry := do
  let record ← value.record? ["packageDir", "packageSwiftPath", "targets"]
  let directory ← record.required "packageDir" Json.str?
  let manifest ← record.required "packageSwiftPath" Json.str?
  let targets ← record.defaulted "targets" none (Json.nullable Json.texts?)
  pure { directory := directory, manifest := manifest, targets := targets }

end PackageEntry

namespace ProductEntry

/-- A product as a document. -/
def toJson (entry : ProductEntry) : Json :=
  .obj
    ([("kind", .str entry.kind), ("name", .str entry.name),
      ("package", .str entry.package)] ++
      if entry.targets.isEmpty then []
      else [("targets", Json.ofTexts entry.targets)])

/-- The product that a document writes. -/
def ofJson? (value : Json) : Option ProductEntry := do
  let record ← value.record? ["kind", "name", "package", "targets"]
  let kind ← record.required "kind" Json.str?
  let name ← record.required "name" Json.str?
  let package ← record.required "package" Json.str?
  let targets ← record.defaulted "targets" [] Json.texts?
  pure { kind := kind, name := name, package := package, targets := targets }

end ProductEntry

namespace Origin

/-- An origin as a document. -/
def toJson (origin : Origin) : Json :=
  .obj
    (Json.memberIfSome "url" .str origin.url ++
      Json.memberIfSome "path" .str origin.path ++
      Json.memberIfSome "requirement" .str origin.requirement)

/-- The origin that a document writes. -/
def ofJson? (value : Json) : Option Origin := do
  let record ← value.record? ["url", "path", "requirement"]
  let url ← record.defaulted "url" none (Json.nullable Json.str?)
  let path ← record.defaulted "path" none (Json.nullable Json.str?)
  let requirement ←
    record.defaulted "requirement" none (Json.nullable Json.str?)
  pure { url := url, path := path, requirement := requirement }

end Origin

namespace MapPolicy

/-- A policy as a document. -/
def toJson (policy : MapPolicy) : Json :=
  .obj [("enforcement", .str policy.enforcement), ("rule", .str policy.rule)]

/-- The policy that a document writes. -/
def ofJson? (value : Json) : Option MapPolicy := do
  let record ← value.record? ["enforcement", "rule"]
  let enforcement ← record.required "enforcement" Json.str?
  let rule ← record.required "rule" Json.str?
  pure { enforcement := enforcement, rule := rule }

end MapPolicy

namespace PackageNode

/-- A node as a document. -/
def toJson (node : PackageNode) : Json :=
  .obj
    [("packageDir", .str node.directory), ("manifestPath", .str node.manifest),
      ("targets", Json.ofTexts node.targets)]

/-- The node that a document writes. -/
def ofJson? (value : Json) : Option PackageNode := do
  let record ← value.record? ["packageDir", "manifestPath", "targets"]
  let directory ← record.required "packageDir" Json.str?
  let manifest ← record.required "manifestPath" Json.str?
  let targets ← record.required "targets" Json.texts?
  pure { directory := directory, manifest := manifest, targets := targets }

end PackageNode

/-- The moment that a document writes. -/
def timestamp? (value : Json) : Option Timestamp :=
  value.str?.bind Timestamp.ofText?

namespace PackageGraph

/-- A graph as a document. -/
def toJson (graph : PackageGraph) : Json :=
  .obj
    ([("packages", Json.ofDict PackageNode.toJson graph.packages),
      ("edges", Json.ofDict Json.ofTexts graph.edges),
      ("pathDecls", Json.ofDict (Json.ofDict .str) graph.pathDeclarations)] ++
      Json.memberIfSome "generatedAt"
        (fun moment : Timestamp => .str moment.text) graph.generatedAt ++
      [("projectRoot", .str graph.root)])

/-- The graph that a document writes. -/
def ofJson? (value : Json) : Option PackageGraph := do
  let record ←
    value.record?
      ["packages", "edges", "pathDecls", "generatedAt", "projectRoot"]
  let packages ← record.required "packages" (Json.dict? PackageNode.ofJson?)
  let edges ← record.required "edges" (Json.dict? Json.texts?)
  let pathDeclarations ←
    record.required "pathDecls" (Json.dict? (Json.dict? Json.str?))
  let generatedAt ←
    record.defaulted "generatedAt" none (Json.nullable timestamp?)
  let root ← record.defaulted "projectRoot" "" Json.str?
  pure
    { packages := packages
      edges := edges
      pathDeclarations := pathDeclarations
      generatedAt := generatedAt
      root := root }

end PackageGraph

namespace ProjectMap

/-- A map as a document. -/
def toJson (map : ProjectMap) : Json :=
  .obj
    [("schemaVersion", Json.ofNat map.schemaVersion),
      ("packages", Json.ofDict PackageEntry.toJson map.packages),
      ("products", Json.ofDict ProductEntry.toJson map.products),
      ("packageSources", Json.ofDict Origin.toJson map.origins),
      ("policy", map.policy.toJson),
      ("graph", map.graph.toJson)]

/-- The fields of a map's document. -/
def fieldNames : List String :=
  ["schemaVersion", "packages", "products", "packageSources", "policy", "graph"]

/-- The map that a document writes. -/
def ofJson? (value : Json) : Option ProjectMap := do
  let record ← value.record? fieldNames
  let schemaVersion ← record.required "schemaVersion" Json.word32?
  let packages ←
    record.defaulted "packages" Dict.empty (Json.dict? PackageEntry.ofJson?)
  let products ←
    record.defaulted "products" Dict.empty (Json.dict? ProductEntry.ofJson?)
  let origins ←
    record.defaulted "packageSources" Dict.empty (Json.dict? Origin.ofJson?)
  let policy ← record.defaulted "policy" {} MapPolicy.ofJson?
  let graph ← record.defaulted "graph" {} PackageGraph.ofJson?
  pure
    { schemaVersion := schemaVersion
      packages := packages
      products := products
      origins := origins
      policy := policy
      graph := graph }

end ProjectMap

end PackageLayers.Project

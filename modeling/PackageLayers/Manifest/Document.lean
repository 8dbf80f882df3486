/-
Purpose: Packages as JSON documents.
Main exports: Package.toJson, Package.ofJson?, Dependency.toJson, Dependency.ofJson?
-/
import PackageLayers.Json.Record
import PackageLayers.Manifest.Basic

namespace PackageLayers.Manifest

/-!
Packages are exchanged with other programs and kept on disk as JSON.  A
dependency is an object whose member `kind` says which other members there are.
What is not given in a declaration is not written; when read, it may be missing
or null.
-/

namespace Dependency

/-- The names of the kinds of dependencies in documents. -/
def labels : List String := ["string", "target", "product", "byName"]

/-- A dependency as a document. -/
def toJson : Dependency → Json
  | .bare name => .obj [("kind", .str "string"), ("name", .str name)]
  | .target name => .obj [("kind", .str "target"), ("name", .str name)]
  | .product name package =>
      .obj
        [("kind", .str "product"), ("name", .str name),
          ("package", .str package)]
  | .byName name => .obj [("kind", .str "byName"), ("name", .str name)]

/-- The dependency that a document of the kind `label` writes. -/
def ofFields? (label : String) (fields : Json) : Option Dependency :=
  match label with
  | "product" => do
      let record ← fields.record? ["name", "package"]
      let name ← record.required "name" Json.str?
      let package ← record.required "package" Json.str?
      pure (.product name package)
  | _ => do
      let record ← fields.record? ["name"]
      let name ← record.required "name" Json.str?
      match label with
      | "string" => pure (.bare name)
      | "target" => pure (.target name)
      | "byName" => pure (.byName name)
      | _ => none

/-- The dependency that a document writes. -/
def ofJson? (value : Json) : Option Dependency := do
  let (label, fields) ← value.tagged? "kind" labels
  ofFields? label fields

end Dependency

namespace TargetKind

/-- The kind that a document names. -/
def ofJson? (value : Json) : Option TargetKind :=
  value.tag?.bind ofLabel?

end TargetKind

namespace Target

/-- A target as a document. -/
def toJson (target : Target) : Json :=
  .obj
    ([("name", .str target.name), ("kind", .str target.kind.label)] ++
      Json.memberIfSome "path" .str target.path ++
      Json.memberIfSome "sources" Json.ofTexts target.sources ++
      [("dependencies", .arr (target.dependencies.map Dependency.toJson))])

/-- The target that a document writes. -/
def ofJson? (value : Json) : Option Target := do
  let record ← value.record? ["name", "kind", "path", "sources", "dependencies"]
  let name ← record.required "name" Json.str?
  let kind ← record.defaulted "kind" .regular TargetKind.ofJson?
  let path ← record.defaulted "path" none (Json.nullable Json.str?)
  let sources ← record.defaulted "sources" none (Json.nullable Json.texts?)
  let dependencies ←
    record.defaulted "dependencies" [] (Json.list? Dependency.ofJson?)
  pure
    { name := name
      kind := kind
      path := path
      sources := sources
      dependencies := dependencies }

end Target

namespace Declaration

/-- A declaration as a document. -/
def toJson (declaration : Declaration) : Json :=
  .obj
    (Json.memberIfSome "name" .str declaration.name ++
      Json.memberIfSome "url" .str declaration.url ++
      Json.memberIfSome "path" .str declaration.path ++
      Json.memberIfSome "id" .str declaration.id ++
      Json.memberIfSome "requirement" .str declaration.requirement)

/-- The declaration that a document writes. -/
def ofJson? (value : Json) : Option Declaration := do
  let record ← value.record? ["name", "url", "path", "id", "requirement"]
  let field := fun name =>
    record.defaulted name none (Json.nullable Json.str?)
  let name ← field "name"
  let url ← field "url"
  let path ← field "path"
  let id ← field "id"
  let requirement ← field "requirement"
  pure
    { name := name
      url := url
      path := path
      id := id
      requirement := requirement }

end Declaration

namespace Product

/-- A product as a document. -/
def toJson (product : Product) : Json :=
  .obj
    [("name", .str product.name), ("kind", .str product.kind),
      ("targets", Json.ofTexts product.targets)]

/-- The product that a document writes. -/
def ofJson? (value : Json) : Option Product := do
  let record ← value.record? ["name", "kind", "targets"]
  let name ← record.required "name" Json.str?
  let kind ← record.required "kind" Json.str?
  let targets ← record.defaulted "targets" [] Json.texts?
  pure { name := name, kind := kind, targets := targets }

end Product

namespace Package

/-- A package as a document. -/
def toJson (package : Package) : Json :=
  .obj
    (Json.memberIfSome "name" .str package.name ++
      [("targets", .arr (package.targets.map Target.toJson)),
        ("packageDecls", .arr (package.declarations.map Declaration.toJson)),
        ("products", .arr (package.products.map Product.toJson))])

/-- The package that a document writes. -/
def ofJson? (value : Json) : Option Package := do
  let record ← value.record? ["name", "targets", "packageDecls", "products"]
  let name ← record.defaulted "name" none (Json.nullable Json.str?)
  let targets ← record.defaulted "targets" [] (Json.list? Target.ofJson?)
  let declarations ←
    record.defaulted "packageDecls" [] (Json.list? Declaration.ofJson?)
  let products ← record.defaulted "products" [] (Json.list? Product.ofJson?)
  pure
    { name := name
      targets := targets
      declarations := declarations
      products := products }

end Package

end PackageLayers.Manifest

/-
Purpose: Where the owner of a product comes from, and how to declare it.
Main exports: Provenance, ProductContext, ProductContext.declarationFor?,
  ProductContext.token
-/
import PackageLayers.Failure
import PackageLayers.Json.Record
import PackageLayers.Manifest.Basic
import PackageLayers.Manifest.Edit
import PackageLayers.Version

namespace PackageLayers.Manifest

/-!
To use a product of another package a manifest must declare that package.  A
declaration that is there already is recognised by the package's name or by its
location; otherwise one is written from what is known of its origin.
-/

/-- What is known of a package's origin. -/
inductive Provenance where
  | remote (url : String) (requirement : Option String)
  | relative (path : String)
  | unknown
deriving Repr, Inhabited, DecidableEq

namespace Provenance

/-- An origin as a document. -/
def toJson : Provenance → Json
  | .remote url requirement =>
      .obj
        ([("kind", .str "url"), ("url", .str url)] ++
          Json.memberIfSome "requirement" .str requirement)
  | .relative path => .obj [("kind", .str "path"), ("relative", .str path)]
  | .unknown => .obj [("kind", .str "unknown")]

/-- The origin that a document writes. -/
def ofJson? (value : Json) : Option Provenance := do
  let (label, fields) ← value.tagged? "kind" ["url", "path", "unknown"]
  match label with
  | "url" => do
      let record ← fields.record? ["url", "requirement"]
      let url ← record.required "url" Json.str?
      let requirement ←
        record.defaulted "requirement" none (Json.nullable Json.str?)
      pure (.remote url requirement)
  | "path" => do
      let record ← fields.record? ["relative"]
      (record.required "relative" Json.str?).map .relative
  | _ => pure .unknown

end Provenance

/-- A product of another package, its owner, and the owner's origin. -/
structure ProductContext where
  package : String
  product : String
  provenance : Provenance
deriving Repr, Inhabited, DecidableEq

/-- The text of a declaration and the identity that it introduces. -/
structure DeclarationToken where
  text : String
  identity : String
deriving Repr, Inhabited, DecidableEq

namespace ProductContext

/-- Whether a declaration is of the owner: by name, or by location. -/
def isDeclaredBy (context : ProductContext) (declaration : Declaration) : Bool :=
  declaration.refersTo context.package ||
    match context.provenance with
    | .remote url _ =>
        declaration.url.any fun other =>
          normalLocation other == normalLocation url
    | .relative path =>
        declaration.path.any fun other =>
          normalLocation other == normalLocation path
    | .unknown => false

/-- The first declaration of the owner. -/
def declarationFor? (context : ProductContext) (package : Package) :
    Option Declaration :=
  package.declarations.find? context.isDeclaredBy

/-- The declaration to write for the owner.  A requirement that is no version is
replaced by `floor`. -/
def token (context : ProductContext) (floor : String) :
    Except Failure DeclarationToken :=
  match context.provenance with
  | .remote url requirement =>
      let version :=
        (requirement.filter fun written => Version.isVersion written).getD floor
      .ok
        { text := ".package(url: " ++ quote url ++ ", from: " ++
            quote version ++ ")"
          identity := (baseName? url).getD context.package }
  | .relative path =>
      .ok
        { text := ".package(path: " ++ quote path ++ ")"
          identity := (baseName? path).getD context.package }
  | .unknown => .error (.missingProvenance context.package)

end ProductContext

end PackageLayers.Manifest

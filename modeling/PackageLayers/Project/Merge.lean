/-
Purpose: Adding discoveries to the tables of a map.
Main exports: MergeOptions, ProjectMap.collect
-/
import PackageLayers.Path.Clean
import PackageLayers.Project.Basic
import PackageLayers.Project.Discovery

namespace PackageLayers.Project

open Manifest (Declaration isLocalPath)

/-!
The first finding for a name stays: a later one that contradicts it is dropped,
unless conflicts are to be overridden.  What agrees with the recorded finding may
add to it.  So corrections by hand outlive later updates.

All packages are added before all declared products, and these before what is
seen only where it is used.
-/

/-- Whether unnamed declarations get the name that their location implies, and
whether a finding replaces one that contradicts it. -/
structure MergeOptions where
  aggressive : Bool := false
  overrideConflicts : Bool := false
deriving Repr, Inhabited, DecidableEq

namespace ProjectMap

/-- The entry of a discovery's package. -/
def packageEntry (discovery : Discovery) : PackageEntry :=
  { directory := discovery.directory.storedText
    manifest := discovery.manifest.storedText
    targets := some discovery.targets }

/-- Add the package of a discovery; one with the same manifest gets its targets
anew. -/
def addPackage (options : MergeOptions) (map : ProjectMap)
    (discovery : Discovery) : ProjectMap :=
  let entry := packageEntry discovery
  let put := fun entry =>
    { map with packages := map.packages.insert discovery.name entry }
  match map.packages.get? discovery.name with
  | none => put entry
  | some recorded =>
      if recorded.manifest = entry.manifest then
        put { recorded with targets := entry.targets }
      else if options.overrideConflicts then put entry
      else map

/-- Add a product; one of the same package gets targets if it has none. -/
def addProduct (options : MergeOptions) (map : ProjectMap)
    (entry : ProductEntry) : ProjectMap :=
  let put := fun entry : ProductEntry =>
    { map with products := map.products.insert entry.name entry }
  match map.products.get? entry.name with
  | none => put entry
  | some recorded =>
      if Text.sameFolded recorded.package entry.package then
        if recorded.targets.isEmpty && !entry.targets.isEmpty then
          { map with
            products :=
              map.products.insert entry.name
                { recorded with targets := entry.targets } }
        else map
      else if options.overrideConflicts then put entry
      else map

/-- A product of a package. -/
def productEntry (name package : String) (targets : List String) :
    ProductEntry :=
  { kind := "product", name := name, package := package, targets := targets }

/-- The origin that a declaration in a directory gives, if it gives one. -/
def originOf? (directory : Path) (declaration : Declaration) : Option Origin :=
  let path :=
    (declaration.path.filter isLocalPath).map fun path =>
      (directory.join ⟨path⟩).clean.storedText
  if declaration.url.isNone && path.isNone then none
  else
    some
      { url := declaration.url
        path := path
        requirement := declaration.requirement }

/-- The name under which the origin of a declaration is recorded, and whether it
is only implied. -/
def nameOf? (options : MergeOptions) (declaration : Declaration) :
    Option (String × Bool) :=
  match declaration.name with
  | some name => some (name, false)
  | none =>
      if options.aggressive then
        declaration.inferredName?.map fun name => (name, true)
      else none

/-- Record an origin under a name; an implied name never replaces a record. -/
def addOrigin (options : MergeOptions) (map : ProjectMap) (name : String)
    (implied : Bool) (origin : Origin) : ProjectMap :=
  let put := { map with origins := map.origins.insert name origin }
  match map.origins.get? name with
  | none => put
  | some recorded =>
      if recorded.samePlace origin || implied || !options.overrideConflicts then
        map
      else put

/-- Record the origin that a declaration in a directory gives. -/
def addDeclaration (options : MergeOptions) (directory : Path)
    (map : ProjectMap) (declaration : Declaration) : ProjectMap :=
  match nameOf? options declaration, originOf? directory declaration with
  | some (name, implied), some origin => addOrigin options map name implied origin
  | _, _ => map

/-- Add the products that a discovery declares. -/
def addProducts (options : MergeOptions) (map : ProjectMap)
    (discovery : Discovery) : ProjectMap :=
  discovery.package.products.foldl
    (fun map product =>
      map.addProduct options
        (productEntry product.name discovery.name product.targets))
    map

/-- Add the products that a discovery uses and the origins that it declares. -/
def addUses (options : MergeOptions) (map : ProjectMap)
    (discovery : Discovery) : ProjectMap :=
  let used :=
    discovery.package.productUsages.foldl
      (fun map usage =>
        map.addProduct options (productEntry usage.1 usage.2 []))
      map
  discovery.package.declarations.foldl
    (addDeclaration options discovery.directory) used

/-- Add all discoveries to the tables of a map. -/
def collect (options : MergeOptions) (discoveries : List Discovery)
    (map : ProjectMap) : ProjectMap :=
  let packages := discoveries.foldl (addPackage options) map
  let products := discoveries.foldl (addProducts options) packages
  discoveries.foldl (addUses options) products

end ProjectMap

end PackageLayers.Project

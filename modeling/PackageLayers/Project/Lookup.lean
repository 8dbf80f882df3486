/-
Purpose: What the map of a project says about names.
Main exports: Owner, ProjectMap.owner?, ProjectMap.provenance
-/
import PackageLayers.Manifest.Provenance
import PackageLayers.Path.Relative
import PackageLayers.Project.Basic

namespace PackageLayers.Project

open Manifest (Provenance)

/-!
A name that is no target of a package may be a product of another, or a target
of another that is in one of its products.  A package of the project is declared
by the path that leads to it, any other by the origin recorded for it.  Names of
packages are compared without regard to letter case.
-/

/-- The package that provides a name, and the product to depend on. -/
structure Owner where
  package : String
  product : String
deriving Repr, Inhabited, DecidableEq

namespace ProjectMap

/-- The first product of a package that a target is in. -/
def productWith? (map : ProjectMap) (package target : String) :
    Option ProductEntry :=
  map.products.values.find? fun product =>
    product.package == package && product.targets.contains target

/-- The first package with a target. -/
def packageWith? (map : ProjectMap) (target : String) : Option String :=
  (map.packages.entries.find? fun entry =>
    entry.2.targets.any fun targets => targets.contains target).map Prod.fst

/-- The owner of a name: of the product of that name if there is one, else of the
target. -/
def owner? (map : ProjectMap) (name : String) : Option Owner :=
  match map.products.get? name with
  | some product =>
      some { package := product.package, product := product.name }
  | none =>
      (map.packageWith? name).map fun package =>
        { package := package
          product :=
            ((map.productWith? package name).map ProductEntry.name).getD name }

/-- The value of a table under a name, without regard to letter case. -/
def folded? {α : Type} (table : Dict α) (name : String) : Option α :=
  (table.entries.find? fun entry => Text.sameFolded entry.1 name).map Prod.snd

/-- How a manifest is to declare a package. -/
def provenance (map : ProjectMap) (package : String) (manifest : Path) :
    Provenance :=
  match folded? map.packages package with
  | some entry => .relative (Path.declaredFrom ⟨entry.directory⟩ manifest)
  | none =>
      match folded? map.origins package with
      | some { url := some url, requirement := requirement, .. } =>
          .remote url requirement
      | some { url := none, path := some path, .. } =>
          .relative (Path.declaredFrom ⟨path⟩ manifest)
      | _ => .unknown

end ProjectMap

end PackageLayers.Project

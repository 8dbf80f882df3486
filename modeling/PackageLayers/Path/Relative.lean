/-
Purpose: The path that leads from one directory to another.
Main exports: Path.relativeTo, Path.declaredFrom
-/
import PackageLayers.Path.Basic

namespace PackageLayers.Path

/-!
A directory below the base is reached by what its path adds to the base.  Any
other is reached by going up from the base to the directory that both have in
common, and down from there.
-/

/-- The length of the longest common start of two lists. -/
def commonLength : List Component → List Component → Nat
  | left :: lefts, right :: rights =>
      if left = right then commonLength lefts rights + 1 else 0
  | _, _ => 0

/-- The path that leads from the directory `base` to `path`, spelled for
documents. -/
def relativeTo (path base : Path) : String :=
  match path.stripBase? base with
  | some rest => rest.storedText
  | none =>
      let common := commonLength base.components path.components
      let ups := (base.components.drop common).map fun _ => ".."
      let downs :=
        ((path.components.drop common).filter Component.isName).map
          Component.text
      storedText ⟨"/".intercalate (ups ++ downs)⟩

/-- The path under which a manifest declares a package in the directory
`path`. -/
def declaredFrom (path manifest : Path) : String :=
  path.relativeTo (manifest.parent?.getD ⟨""⟩)

end PackageLayers.Path

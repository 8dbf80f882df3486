/-
Purpose: Resolving `.` and `..` in a path without looking at files.
Main exports: Path.clean
-/
import PackageLayers.Path.Basic

namespace PackageLayers.Path

/-!
A path is cleaned component by component.  `..` takes back the name before it;
at the root it says nothing, and where there is no name to take back in a
relative path it stays.
-/

/-- Add a component to a cleaned list that is kept last first. -/
def cleanStep (cleaned : List Component) : Component → List Component
  | .here => cleaned
  | .parent =>
      match cleaned with
      | .name _ :: rest => rest
      | [] => [.parent]
      | .parent :: rest => .parent :: .parent :: rest
      | other => other
  | component => component :: cleaned

/-- A list of components without `.`, and with `..` only where nothing can be
taken back. -/
def cleanComponents (components : List Component) : List Component :=
  (components.foldl cleanStep []).reverse

/-- The plain spelling of a list of components. -/
def ofComponents : List Component → Path
  | .root :: rest => ⟨"/" ++ "/".intercalate (rest.map Component.text)⟩
  | components => ⟨"/".intercalate (components.map Component.text)⟩

/-- The path with `.` and `..` resolved. -/
def clean (path : Path) : Path :=
  ofComponents (cleanComponents path.components)

end PackageLayers.Path

/-
Purpose: The settings of a project.
Main exports: Settings, Settings.cacheDirectory, Settings.systemModules,
  Settings.strategies
-/
import PackageLayers.Graph.Platform
import PackageLayers.Manifest.Strategy

namespace PackageLayers

/-!
Every setting has a default, so a project without a settings file has all of
them.
-/

/-- How manifests are read: the time that another program may take, in
milliseconds, and the programs to ask. -/
structure ReadingSettings where
  timeout : Nat := 5000
  helper : Option Path := none
  toolchainDump : Bool := false
  swift : Path := ⟨"swift"⟩
deriving Repr, Inhabited, DecidableEq

/-- How the map of the project is kept: the least time between two refreshes, in
milliseconds; whether unnamed declarations get the name that their location
implies; and whether later findings replace earlier ones. -/
structure MapSettings where
  refreshInterval : Nat := 3000
  aggressive : Bool := false
  overrideConflicts : Bool := false
deriving Repr, Inhabited, DecidableEq

/-- How edges are judged: modules of the platform beyond the known ones, and the
version from which packages without a known version are declared. -/
structure PolicySettings where
  systemModules : List String := []
  versionFloor : String := "1.0.0"
deriving Repr, Inhabited, DecidableEq

/-- The settings of a project. -/
structure Settings where
  reading : ReadingSettings := {}
  cache : Option Path := none
  map : MapSettings := {}
  policy : PolicySettings := {}
deriving Repr, Inhabited, DecidableEq

namespace Settings

/-- The directory that holds what is kept between runs. -/
def cacheDirectory (settings : Settings) (root : Path) : Path :=
  match settings.cache with
  | some directory => root.join directory
  | none => (root.child ".build").child "spmdeps"

/-- The known modules of the platform, then the further ones, each once. -/
def systemModules (settings : Settings) : List String :=
  settings.policy.systemModules.foldl
    (fun names name => if names.contains name then names else names ++ [name])
    platformModules

/-- The strategies for reading a manifest, in the order in which they are
tried. -/
def strategies (settings : Settings) : List Manifest.Strategy :=
  (settings.reading.helper.map .helper).toList ++
    (if settings.reading.toolchainDump then
      [.toolchainDump settings.reading.swift] else []) ++
    [.syntactic]

end Settings

end PackageLayers

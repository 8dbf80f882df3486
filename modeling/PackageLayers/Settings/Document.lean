/-
Purpose: Settings as documents, and the settings file of a project.
Main exports: SettingsFault, Settings.ofText, Settings.toJson, Settings.load
-/
import PackageLayers.Files.Resolve
import PackageLayers.Json.Basic
import PackageLayers.Json.Record
import PackageLayers.Settings.Basic
import PackageLayers.Text.Hex
import PackageLayers.Toml.Reader
import PackageLayers.Version

namespace PackageLayers

/-!
Settings are written as a TOML document with one table for each group.  A key
that is not a setting is an error, since it is most likely misspelled.  A group
may also be an array of its settings in their order.
-/

/-- What is wrong with a settings document. -/
inductive SettingsFault where
  | unreadable
  | floorNotVersion (floor : String)
  | zeroTimeout
deriving Repr, Inhabited, DecidableEq

/-- The description of a fault. -/
def SettingsFault.message : SettingsFault → String
  | .unreadable => "not a settings document"
  | .floorNotVersion floor =>
      s!"default-version-floor '{floor}' is not a semantic version"
  | .zeroTimeout => "parser timeout-ms must be greater than zero"

namespace Settings

open Toml (Value Table)

/-- The text that a value is. -/
def text? : Value → Option String
  | .text content => some content
  | _ => none

/-- The path that a value is. -/
def path? (value : Value) : Option Path :=
  (text? value).map Path.mk

/-- The truth value that a value is. -/
def flag? : Value → Option Bool
  | .boolean flag => some flag
  | _ => none

/-- The unsigned word of 64 bits that a value is. -/
def word? : Value → Option Nat
  | .integer number =>
      if 0 ≤ number ∧ number < Int.ofNat (Text.wordCount 64) then
        some number.toNat
      else none
  | _ => none

/-- The list of texts that a value is. -/
def texts? : Value → Option (List String)
  | .array items => items.mapM text?
  | _ => none

/-- The entries of a table that has only the keys `names`. -/
def closed? (names : List String) (table : Table) : Option Table :=
  if table.all fun entry => names.contains entry.1 then some table else none

/-- The entries of a group with the keys `names`. -/
def group? (names : List String) : Value → Option Table
  | .table _ entries => closed? names entries
  | .array items => some (names.zip items)
  | .tables items => some (names.zip (items.map fun item => .table .header item))
  | _ => none

/-- The setting under a key, or the default where the key is missing. -/
def setting {α : Type} (table : Table) (key : String) (default : α)
    (decode : Value → Option α) : Option α :=
  match Dict.lookup key table with
  | none => some default
  | some value => decode value

/-- The keys that say how manifests are read. -/
def readingKeys : List String :=
  ["timeout-ms", "helper", "toolchain-dump", "swift"]

/-- The group that says how manifests are read. -/
def reading? (value : Value) : Option ReadingSettings := do
  let table ← group? readingKeys value
  let default : ReadingSettings := {}
  let timeout ← setting table "timeout-ms" default.timeout word?
  let helper ←
    setting table "helper" default.helper fun value => (path? value).map some
  let toolchainDump ←
    setting table "toolchain-dump" default.toolchainDump flag?
  let swift ← setting table "swift" default.swift path?
  pure
    { timeout := timeout
      helper := helper
      toolchainDump := toolchainDump
      swift := swift }

/-- The group that says where the cache is. -/
def cache? (value : Value) : Option (Option Path) := do
  let table ← group? ["dir"] value
  setting table "dir" none fun value => (path? value).map some

/-- The keys that say how the map of the project is kept. -/
def mapKeys : List String :=
  ["refresh-interval-ms", "aggressive", "override-conflicts"]

/-- The group that says how the map of the project is kept. -/
def map? (value : Value) : Option MapSettings := do
  let table ← group? mapKeys value
  let default : MapSettings := {}
  let refreshInterval ←
    setting table "refresh-interval-ms" default.refreshInterval word?
  let aggressive ← setting table "aggressive" default.aggressive flag?
  let overrideConflicts ←
    setting table "override-conflicts" default.overrideConflicts flag?
  pure
    { refreshInterval := refreshInterval
      aggressive := aggressive
      overrideConflicts := overrideConflicts }

/-- The group that says how edges are judged. -/
def policy? (value : Value) : Option PolicySettings := do
  let table ← group? ["system-modules", "default-version-floor"] value
  let default : PolicySettings := {}
  let systemModules ←
    setting table "system-modules" default.systemModules texts?
  let versionFloor ←
    setting table "default-version-floor" default.versionFloor text?
  pure { systemModules := systemModules, versionFloor := versionFloor }

/-- The settings that a document's table gives. -/
def ofTable? (document : Table) : Option Settings := do
  let table ← closed? ["parser", "cache", "project-map", "policy"] document
  let reading ← setting table "parser" {} reading?
  let cache ← setting table "cache" none cache?
  let map ← setting table "project-map" {} map?
  let policy ← setting table "policy" {} policy?
  pure { reading := reading, cache := cache, map := map, policy := policy }

/-- Settings whose version floor is a version and whose timeout is not zero. -/
def checked (settings : Settings) : Except SettingsFault Settings :=
  if !Version.isVersion settings.policy.versionFloor then
    .error (.floorNotVersion settings.policy.versionFloor)
  else if settings.reading.timeout = 0 then .error .zeroTimeout
  else .ok settings

/-- The settings that a document writes. -/
def ofText (document : String) : Except SettingsFault Settings :=
  match (Toml.read? document).bind ofTable? with
  | some settings => settings.checked
  | none => .error .unreadable

/-- Settings as a JSON value, with the keys of the document. -/
def toJson (settings : Settings) : Json :=
  let pathJson := fun path : Path => Json.str path.text
  .obj
    [("parser",
        .obj
          ([("timeout-ms", Json.ofNat settings.reading.timeout)] ++
            Json.memberIfSome "helper" pathJson settings.reading.helper ++
            [("toolchain-dump", .bool settings.reading.toolchainDump),
              ("swift", pathJson settings.reading.swift)])),
      ("cache", .obj (Json.memberIfSome "dir" pathJson settings.cache)),
      ("project-map",
        .obj
          [("refresh-interval-ms", Json.ofNat settings.map.refreshInterval),
            ("aggressive", .bool settings.map.aggressive),
            ("override-conflicts", .bool settings.map.overrideConflicts)]),
      ("policy",
        .obj
          [("system-modules", Json.ofTexts settings.policy.systemModules),
            ("default-version-floor", .str settings.policy.versionFloor)])]

/-- The name of the settings file. -/
def fileName : String := "spmdeps.toml"

/-- The settings of the project below a root; all are defaults if there is no
settings file. -/
def load (files : Files) (root : Path) : Except FileFault Settings :=
  let path := root.child fileName
  if !files.hasEntry path then .ok {}
  else
    match files.textOf? path with
    | none => .error (.unreadable path)
    | some document =>
        match ofText document with
        | .ok settings => .ok settings
        | .error _ => .error (.malformed path)

end Settings

end PackageLayers

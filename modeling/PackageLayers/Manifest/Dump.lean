/-
Purpose: Packages as the toolchain dumps them.
Main exports: Package.ofDump
-/
import PackageLayers.Failure
import PackageLayers.Json.Basic
import PackageLayers.Manifest.Basic

namespace PackageLayers.Manifest

/-!
The toolchain writes a package as a JSON document of its own shape.  Dependencies
and declarations are objects with one member, whose name is the kind and whose
value is an array of arguments.  Of an object with several members the first by
name counts.  What has an unknown shape is left out; only a document without an
array of targets is refused.
-/

/-- The texts among the items of an array. -/
def textItems? (value : Option Json) : Option (List String) :=
  (value.bind Json.items?).map fun items => items.filterMap Json.str?

/-- The first member of an object. -/
def firstMember? (value : Json) : Option (String × Json) :=
  value.members?.bind List.head?

/-- A text member of an object. -/
def textMember? (value : Json) (name : String) : Option String :=
  (value.field? name).bind Json.str?

/-- What `read` makes of the items of an array member; nothing if there is no
such array. -/
def itemsOf {α : Type} (value : Json) (name : String)
    (read : Json → Option α) : List α :=
  (((value.field? name).bind Json.items?).getD []).filterMap read

/-- The kind that a dump names; regular if it names another. -/
def TargetKind.ofDump (name : String) : TargetKind :=
  (ofLabel? name).getD .regular

/-- The dependency that a dump writes: `byName`, `target` or `product` with an
array of arguments. -/
def Dependency.ofDump? (value : Json) : Option Dependency := do
  let (kind, arguments) ← firstMember? value
  let name ← (arguments.item? 0).bind Json.str?
  match kind with
  | "byName" => pure (.byName name)
  | "target" => pure (.target name)
  | "product" => do
      let package ← (arguments.item? 1).bind Json.str?
      pure (.product name package)
  | _ => none

/-- The target that a dump writes. -/
def Target.ofDump? (value : Json) : Option Target := do
  let name ← textMember? value "name"
  pure
    { name := name
      kind := ((textMember? value "type").map TargetKind.ofDump).getD .regular
      path := textMember? value "path"
      sources := textItems? (value.field? "sources")
      dependencies := itemsOf value "dependencies" Dependency.ofDump? }

/-- The URL in a location: the location itself, or the first remote, which is a
text or has a text `urlString`. -/
def remoteLocation? (location : Json) : Option String :=
  match location.str? with
  | some url => some url
  | none => do
      let remote ← (← location.field? "remote").item? 0
      remote.str?.or (textMember? remote "urlString")

/-- The version in a requirement: the lower bound of a range, or the first
argument of any other kind. -/
def requirementOfDump? (value : Json) : Option String := do
  let (kind, arguments) ← firstMember? value
  let first ← arguments.item? 0
  if kind = "range" then textMember? first "lowerBound" else first.str?

/-- The declaration that a dump writes. -/
def Declaration.ofDump? (value : Json) : Option Declaration := do
  let (kind, entries) ← firstMember? value
  let entry ← entries.item? 0
  let name :=
    ((entry.field? "nameForTargetDependencyResolutionOnly").or
      (entry.field? "name")).bind Json.str?
  let requirement := (entry.field? "requirement").bind requirementOfDump?
  match kind with
  | "sourceControl" =>
      pure
        { name := name
          url := (entry.field? "location").bind remoteLocation?
          requirement := requirement }
  | "fileSystem" | "local" =>
      pure { name := name, path := textMember? entry "path" }
  | "registry" =>
      pure
        { name := name
          id := textMember? entry "identity"
          requirement := requirement }
  | _ => none

/-- The product that a dump writes; a library if it names no type. -/
def Product.ofDump? (value : Json) : Option Product := do
  let name ← textMember? value "name"
  let kind := (value.field? "type").bind firstMember?
  pure
    { name := name
      kind := (kind.map Prod.fst).getD "library"
      targets := (textItems? (value.field? "targets")).getD [] }

/-- The package that a dump in canonical form writes. -/
def Package.ofDump (value : Json) : Except Failure Package :=
  if ((value.field? "targets").bind Json.items?).isNone then
    .error (.parserFailed .dumpWithoutTargets)
  else
    .ok
      { name := textMember? value "name"
        targets := itemsOf value "targets" Target.ofDump?
        declarations := itemsOf value "dependencies" Declaration.ofDump?
        products := itemsOf value "products" Product.ofDump? }

end PackageLayers.Manifest

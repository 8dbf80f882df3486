/-
Purpose: What a manifest declares: targets, products and packages it needs.
Main exports: isLocalPath, baseName?, normalLocation, Dependency, TargetKind, Target,
  Declaration, Product, Package
-/
import PackageLayers.Text.Fold

namespace PackageLayers.Manifest

open Text

/-!
A manifest declares one package.  The package has targets, the targets have
dependencies, and a dependency names a target of the same package or a product
of another one.  Other packages are declared with the place they come from, and
are known by a name or by the identity that the place implies.
-/

/-! ### Locations -/

/-!
A location is the URL of a repository, the address of a repository on a host
(`user@host:path`), or a path.  A package declared without a name is known by
the last segment of its location.
-/

/-- Whether a location is a path and neither a URL nor `user@host:path`. -/
def isLocalPath (location : String) : Bool :=
  if containsText "://" location then false
  else
    match splitAt (· == ':') location.toList with
    | host :: _ :: _ => !(host.contains '@' && !host.contains '/')
    | _ => true

/-- A location without white space around it and slashes at its end. -/
def withoutEnd (location : String) : String :=
  String.ofList (dropTrailing (· == '/') (trim location).toList)

/-- A text without a `.git` at its end. -/
def withoutGit (segment : String) : String :=
  (stripSuffix? ".git" segment).getD segment

/-- The last segment of a location, as far as it can be a name. -/
def baseName? (location : String) : Option String :=
  let segments := pieces (fun c => c == '/' || c == ':') (withoutEnd location)
  let segment := withoutGit (segments.getLastD "")
  if segment = "" ∨ segment = "." ∨ segment = ".." then none else some segment

/-- The form in which two locations are compared. -/
def normalLocation (location : String) : String :=
  let short := withoutEnd location
  fold (withoutGit ((stripPrefix? "./" short).getD short))

/-! ### Declarations -/

/-- One entry of a target's dependencies. -/
inductive Dependency where
  | bare (name : String)
  | target (name : String)
  | product (name package : String)
  | byName (name : String)
deriving Repr, Inhabited, DecidableEq

namespace Dependency

/-- The target or product that is named. -/
def name : Dependency → String
  | .bare name | .target name | .product name _ | .byName name => name

/-- The package that is named, which only products do. -/
def package? : Dependency → Option String
  | .product _ package => some package
  | _ => none

/-- Whether the entry may name a target of the same package. -/
def mayBeLocal (dependency : Dependency) : Bool :=
  dependency.package?.isNone

/-- Whether the entry says neither that it names a target nor that it names a
product. -/
def isUnqualified : Dependency → Bool
  | .bare _ | .byName _ => true
  | _ => false

end Dependency

/-- The kinds of targets. -/
inductive TargetKind where
  | regular
  | executable
  | test
  | macroTarget
  | plugin
  | system
  | binary
deriving Repr, Inhabited, DecidableEq

namespace TargetKind

/-- The constructors that declare targets. -/
def constructors : List (String × TargetKind) :=
  [("target", .regular), ("executableTarget", .executable),
    ("testTarget", .test), ("macro", .macroTarget), ("plugin", .plugin),
    ("systemLibrary", .system), ("binaryTarget", .binary)]

/-- Whether targets of this kind may have dependencies. -/
def takesDependencies : TargetKind → Bool
  | .system | .binary => false
  | _ => true

/-- The name of a kind in documents. -/
def label : TargetKind → String
  | .regular => "regular"
  | .executable => "executable"
  | .test => "test"
  | .macroTarget => "macro"
  | .plugin => "plugin"
  | .system => "system"
  | .binary => "binary"

/-- All kinds. -/
def all : List TargetKind :=
  [.regular, .executable, .test, .macroTarget, .plugin, .system, .binary]

/-- The kind with a name. -/
def ofLabel? (name : String) : Option TargetKind :=
  all.find? fun kind => kind.label == name

end TargetKind

/-- A target as declared. -/
structure Target where
  name : String
  kind : TargetKind := .regular
  path : Option String := none
  sources : Option (List String) := none
  dependencies : List Dependency := []
deriving Repr, Inhabited, DecidableEq

/-- A package that the manifest declares to need. -/
structure Declaration where
  name : Option String := none
  url : Option String := none
  path : Option String := none
  id : Option String := none
  requirement : Option String := none
deriving Repr, Inhabited, DecidableEq

namespace Declaration

/-- The name that the place of the package implies: the last segment of its URL
or path, or the last part of its registry id. -/
def inferredName? (declaration : Declaration) : Option String :=
  match declaration.url, declaration.path, declaration.id with
  | some url, _, _ => baseName? url
  | none, some path, _ => baseName? path
  | none, none, some id => (Text.pieces (· == '.') id).getLast?
  | none, none, none => none

/-- The name that the package is known by. -/
def identity? (declaration : Declaration) : Option String :=
  declaration.name.or declaration.inferredName?

/-- Whether the declaration is of the package called `package`. -/
def refersTo (declaration : Declaration) (package : String) : Bool :=
  declaration.name.any (Text.sameFolded · package) ||
    declaration.inferredName?.any (Text.sameFolded · package)

end Declaration

/-- A product as declared. -/
structure Product where
  name : String
  kind : String
  targets : List String := []
deriving Repr, Inhabited, DecidableEq

/-- A package as declared by its manifest. -/
structure Package where
  name : Option String := none
  targets : List Target := []
  declarations : List Declaration := []
  products : List Product := []
deriving Repr, Inhabited, DecidableEq

namespace Package

/-- The products that targets use, each with the package named for it, in the
order of the targets. -/
def productUsages (package : Package) : List (String × String) :=
  package.targets.flatMap fun target =>
    target.dependencies.filterMap fun dependency =>
      dependency.package?.map fun owner => (dependency.name, owner)

end Package

end PackageLayers.Manifest

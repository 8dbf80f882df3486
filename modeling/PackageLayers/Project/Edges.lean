/-
Purpose: The graph of the packages that were found.
Main exports: PackageGraph.ofDiscoveries
-/
import PackageLayers.Path.Clean
import PackageLayers.Project.Basic
import PackageLayers.Project.Discovery

namespace PackageLayers.Project

open Manifest (Declaration isLocalPath)

/-!
The nodes are the packages that were found; of several with one name, the first.
A declaration leads to the package in the declared directory, or else to the one
that goes by the identity of the declaration.  The use of a product leads to
where the declaration of that identity leads, or else to the package that goes by
it.  A package goes by its name and by the name of its directory, without regard
to letter case.
-/

/-- The first discovery of every name. -/
def nodesOf (seen : List String) : List Discovery → List Discovery
  | [] => []
  | discovery :: rest =>
      if seen.contains discovery.name then nodesOf seen rest
      else discovery :: nodesOf (discovery.name :: seen) rest

/-- The package in a directory. -/
def nodeAt? (nodes : List Discovery) (directory : Path) : Option String :=
  let wanted := directory.clean
  (nodes.find? fun node => node.directory.clean.sameAs wanted).map
    Discovery.name

/-- Whether a package goes by an identity. -/
def goesBy (identity : String) (node : Discovery) : Bool :=
  Text.sameFolded node.name identity ||
    node.directory.fileName?.any (Text.sameFolded · identity)

/-- The package that goes by an identity. -/
def nodeNamed? (nodes : List Discovery) (identity : String) : Option String :=
  (nodes.find? (goesBy identity)).map Discovery.name

/-- The package that a declaration in a directory leads to. -/
def declaredNode? (nodes : List Discovery) (directory : Path)
    (declaration : Declaration) : Option String :=
  let byPath :=
    (declaration.path.filter isLocalPath).bind fun path =>
      nodeAt? nodes (directory.join ⟨path⟩)
  match byPath with
  | some name => some name
  | none => declaration.identity?.bind (nodeNamed? nodes)

/-- The declarations of a package that lead somewhere, with where they lead. -/
def resolvedDeclarations (nodes : List Discovery) (node : Discovery) :
    List (Declaration × String) :=
  node.package.declarations.filterMap fun declaration =>
    (declaredNode? nodes node.directory declaration).map fun name =>
      (declaration, name)

/-- The package that the use of a product of the package `owner` leads to. -/
def usedNode? (nodes : List Discovery) (resolved : List (Declaration × String))
    (owner : String) : Option String :=
  let declared :=
    resolved.find? fun entry =>
      entry.1.identity?.any (Text.sameFolded · owner)
  match declared with
  | some (_, name) => some name
  | none => nodeNamed? nodes owner

/-- The packages that a package leads to, itself not among them, ascending. -/
def destinations (nodes : List Discovery) (node : Discovery) : List String :=
  let resolved := resolvedDeclarations nodes node
  let used :=
    node.package.productUsages.filterMap fun usage =>
      usedNode? nodes resolved usage.2
  (NameSet.ofNames (resolved.map Prod.snd ++ used)).keys.filter (· != node.name)

/-- The paths that a package declares, by the packages they lead to. -/
def declaredPaths (nodes : List Discovery) (node : Discovery) : Dict String :=
  Dict.ofList
    ((resolvedDeclarations nodes node).filterMap fun entry =>
      entry.1.path.map fun path => (entry.2, path))

/-- The table of what is not empty under the names of nodes. -/
def tableOf {α : Type} (nodes : List Discovery) (isEmpty : α → Bool)
    (value : Discovery → α) : Dict α :=
  Dict.ofList
    ((nodes.map fun node => (node.name, value node)).filter fun entry =>
      !isEmpty entry.2)

/-- A discovery as a node. -/
def nodeOf (discovery : Discovery) : PackageNode :=
  { directory := discovery.directory.storedText
    manifest := discovery.manifest.storedText
    targets := discovery.targets }

/-- The graph of the packages that were found below a root. -/
def PackageGraph.ofDiscoveries (root : Path) (moment : Timestamp)
    (discoveries : List Discovery) : PackageGraph :=
  let nodes := nodesOf [] discoveries
  { packages := Dict.ofList (nodes.map fun node => (node.name, nodeOf node))
    edges := tableOf nodes List.isEmpty (destinations nodes)
    pathDeclarations :=
      tableOf nodes (fun paths => paths.entries.isEmpty) (declaredPaths nodes)
    generatedAt := some moment
    root := root.storedText }

end PackageLayers.Project

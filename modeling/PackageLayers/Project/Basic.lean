/-
Purpose: The map of a project: its packages, their products and their origins.
Main exports: PackageEntry, ProductEntry, Origin, PackageNode, PackageGraph,
  ProjectMap
-/
import PackageLayers.Dict
import PackageLayers.Graph.Search
import PackageLayers.Project.Timestamp

namespace PackageLayers.Project

/-!
The map is what is known of all packages of a project.  Its three tables are
collected over time and may be corrected by hand: packages by name, products by
name, and origins of packages by name.  The graph of the packages is derived
from the manifests alone and has no memory.
-/

/-- A package of the project. -/
structure PackageEntry where
  directory : String
  manifest : String
  targets : Option (List String) := none
deriving Repr, Inhabited, DecidableEq

/-- A product, the package that it belongs to, and the targets that are known to
be in it. -/
structure ProductEntry where
  kind : String
  name : String
  package : String
  targets : List String := []
deriving Repr, Inhabited, DecidableEq

/-- The place from which manifests declare a package. -/
structure Origin where
  url : Option String := none
  path : Option String := none
  requirement : Option String := none
deriving Repr, Inhabited, DecidableEq

/-- Whether two origins are the same place. -/
def Origin.samePlace (left right : Origin) : Bool :=
  left.url == right.url && left.path == right.path

/-- What the project does about a forbidden edge. -/
structure MapPolicy where
  enforcement : String := "block"
  rule : String := "no_package_cycle"
deriving Repr, Inhabited, DecidableEq

/-- A package as a node of the graph of packages. -/
structure PackageNode where
  directory : String
  manifest : String
  targets : List String
deriving Repr, Inhabited, DecidableEq

/-- The graph of the packages of a project.  An edge leads from a package to one
that its manifest declares or uses; for local declarations the declared path is
kept as well. -/
structure PackageGraph where
  packages : Dict PackageNode := Dict.empty
  edges : Dict (List String) := Dict.empty
  pathDeclarations : Dict (Dict String) := Dict.empty
  generatedAt : Option Timestamp := none
  root : String := ""
deriving Repr, Inhabited, DecidableEq

namespace PackageGraph

/-- A shortest path between two packages. -/
def shortestPath? (graph : PackageGraph) (origin destination : String) :
    Option (List String) :=
  Neighbours.shortestPath? graph.edges.entries origin destination

/-- The cycle that an edge would close, as a path that starts and ends at
`origin`. -/
def cycleThrough? (graph : PackageGraph) (origin destination : String) :
    Option (List String) :=
  (graph.shortestPath? destination origin).map fun back => origin :: back

/-- The name of the package with a manifest. -/
def packageOf? (graph : PackageGraph) (manifest : String) : Option String :=
  (graph.packages.entries.find? fun entry =>
    entry.2.manifest == manifest).map Prod.fst

end PackageGraph

/-- The map of a project. -/
structure ProjectMap where
  schemaVersion : Nat := 1
  packages : Dict PackageEntry := Dict.empty
  products : Dict ProductEntry := Dict.empty
  origins : Dict Origin := Dict.empty
  policy : MapPolicy := {}
  graph : PackageGraph := {}
deriving Repr, Inhabited, DecidableEq

namespace ProjectMap

/-- The version of the layout of stored maps. -/
def currentSchema : Nat := 1

/-- The map without the moment of its making, for comparison. -/
def timeless (map : ProjectMap) : ProjectMap :=
  { map with graph := { map.graph with generatedAt := none } }

end ProjectMap

end PackageLayers.Project

/-
Purpose: The graph of the targets of one package.
Main exports: Graph, Graph.ofPackage, Graph.localDependencies, Graph.dependents
-/
import PackageLayers.Dict
import PackageLayers.Graph.Search
import PackageLayers.Manifest.Basic
import PackageLayers.Path.Basic

namespace PackageLayers

open Manifest (Declaration Dependency Product Target)

/-!
Only edges between targets of the package take part in searches and levels: a
dependency counts if it may name a target of the package and does.  Products of
other packages and names that match no target stay listed with their target;
they are resolved in the map of the whole project.
-/

/-- The graph of the targets of one package, with what it was built from. -/
structure Graph where
  schemaVersion : Nat
  manifest : Path
  directory : Path
  modified : Nat
  packageName : String
  targets : Dict Target
  order : List String
  declarations : List Declaration
  products : List Product
deriving Repr, Inhabited, DecidableEq

namespace Graph

/-- The version of the layout of stored graphs. -/
def currentSchema : Nat := 1

/-- The first declaration of every name, in order. -/
def firstOfEachName (seen : List String) : List Target → List Target
  | [] => []
  | target :: rest =>
      if seen.contains target.name then firstOfEachName seen rest
      else target :: firstOfEachName (target.name :: seen) rest

/-- The graph of a package whose manifest has a path and a time of last change.
Of two targets of one name the first counts.  A package without a name has that
of its directory. -/
def ofPackage (package : Manifest.Package) (manifest : Path) (modified : Nat) :
    Graph :=
  let directory := manifest.parent?.getD ⟨""⟩
  let targets := firstOfEachName [] package.targets
  { schemaVersion := currentSchema
    manifest := manifest
    directory := directory
    modified := modified
    packageName := package.name.getD (directory.fileName?.getD "")
    targets := Dict.ofList (targets.map fun target => (target.name, target))
    order := targets.map Target.name
    declarations := package.declarations
    products := package.products }

/-- Whether a name is that of a target. -/
def hasTarget (graph : Graph) (name : String) : Bool :=
  graph.targets.contains name

/-- The dependencies of a target as listed. -/
def dependenciesOf (graph : Graph) (name : String) : List Dependency :=
  ((graph.targets.get? name).map Target.dependencies).getD []

/-- The targets of the package that a target depends on, each once, in the order
of their first entries. -/
def localDependencies (graph : Graph) (name : String) : List String :=
  Neighbours.fresh []
    (((graph.dependenciesOf name).filter fun dependency =>
      dependency.mayBeLocal && graph.hasTarget dependency.name).map
        Dependency.name)

/-- Whether a target lists another of the package. -/
def hasEdge (graph : Graph) (origin destination : String) : Bool :=
  (graph.localDependencies origin).contains destination

/-- The unqualified entries of a target that name no target of the package. -/
def unresolved (graph : Graph) (name : String) : List Dependency :=
  (graph.dependenciesOf name).filter fun dependency =>
    dependency.isUnqualified && !graph.hasTarget dependency.name

/-- A table of dependents with one more target, which is told to each of its
dependencies. -/
def tellDependencies (graph : Graph) (table : Dict (List String))
    (origin : String) : Dict (List String) :=
  (graph.localDependencies origin).foldl
    (fun table name =>
      table.insert name ((table.get? name).getD [] ++ [origin])) table

/-- For each target the targets that list it, in the order of their
declaration.  The order of a stored graph may repeat names, and so may a list
here. -/
def dependentsTable (graph : Graph) : Dict (List String) :=
  graph.order.foldl graph.tellDependencies
    (Dict.ofList (graph.order.map fun name => (name, [])))

/-- The targets that list a target. -/
def dependents (graph : Graph) (name : String) : List String :=
  (graph.dependentsTable.get? name).getD []

/-- The edges between targets. -/
def edges (graph : Graph) : Neighbours :=
  graph.targets.keys.map fun name => (name, graph.localDependencies name)

/-- A shortest path between two names over edges between targets. -/
def shortestPath? (graph : Graph) (origin destination : String) :
    Option (List String) :=
  graph.edges.shortestPath? origin destination

/-- Whether a path leads from one name to another. -/
def reaches (graph : Graph) (origin destination : String) : Bool :=
  (graph.shortestPath? origin destination).isSome

end Graph

end PackageLayers

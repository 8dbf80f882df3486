/-
Purpose: The layers of a package's targets.
Main exports: Level, Analysis, Layering, Graph.analyze
-/
import PackageLayers.Graph.Basic

namespace PackageLayers

/-!
A target without dependencies in its package has level zero, and any other is
one level above the highest of its dependencies.  Targets on a cycle, or with a
cycle below them, have no level; they count as higher than every level.

Targets are settled from a queue.  For every target it is counted how many of
its dependencies are not settled yet, and it is kept what level those that are
settled ask of it.  A target that is settled tells so to its dependents, and a
dependent that waits for nothing more is put on the level that is asked of it
and joins the queue.  So dependencies come before their dependents, and levels
never fall along the queue.

The order of a stored graph may repeat a name.  Such a target is told once for
each of its places, and joins the queue whenever it is told and waits for
nothing.

Names of platform modules that occur as targets are put on level zero after all
else.
-/

/-- The level of a target. -/
inductive Level where
  | assigned (height : Nat)
  | unassigned
deriving Repr, Inhabited, DecidableEq

namespace Level

/-- Whether a level is below another; no level is above every level. -/
def isBelow : Level → Level → Bool
  | .assigned left, .assigned right => left < right
  | .assigned _, .unassigned => true
  | .unassigned, _ => false

/-- How a level is written. -/
def text : Level → String
  | .assigned height => toString height
  | .unassigned => "unassigned"

end Level

/-- What is known of the layers of a graph: levels, an order with dependencies
first, and the platform modules that occur. -/
structure Analysis where
  levels : Dict Nat
  topology : List String
  systemModules : NameSet
deriving Repr, Inhabited, DecidableEq

/-- The level of a name; platform modules are on level zero. -/
def Analysis.level (analysis : Analysis) (name : String) : Level :=
  if analysis.systemModules.contains name then .assigned 0
  else
    match analysis.levels.get? name with
    | some height => .assigned height
    | none => .unassigned

/-- What is known while targets are settled: how many dependencies each target
still waits for, the level that its settled dependencies ask of it, the levels of
those that wait for nothing, these in the order in which they will be settled,
and those that are settled. -/
structure Layering where
  remaining : Dict Nat
  tentative : Dict Nat
  levels : Dict Nat
  queue : List String
  topology : List String
deriving Repr, Inhabited, DecidableEq

namespace Layering

/-- Tell a target that one of its dependencies is settled on some level.  It joins
the queue if it waits for no other. -/
def tell (level : Nat) (layering : Layering) (dependent : String) : Layering :=
  let best := max ((layering.tentative.get? dependent).getD 0) (level + 1)
  let told :=
    { layering with tentative := layering.tentative.insert dependent best }
  match layering.remaining.get? dependent with
  | none => told
  | some count =>
      let counted :=
        { told with remaining := told.remaining.insert dependent (count - 1) }
      if count - 1 = 0 then
        { counted with
          levels := counted.levels.insert dependent best
          queue := counted.queue ++ [dependent] }
      else counted

/-- Settle a target, the first of the queue, and tell its dependents. -/
def settle (dependents : String → List String) (layering : Layering)
    (name : String) (queue : List String) : Layering :=
  (dependents name).foldl (tell ((layering.levels.get? name).getD 0))
    { layering with queue := queue, topology := layering.topology ++ [name] }

/-- Settle the targets of the queue and all that join it. -/
def run (dependents : String → List String) :
    (rounds : Nat) → Layering → Layering
  | 0, layering => layering
  | rounds + 1, layering =>
      match layering.queue with
      | [] => layering
      | name :: queue =>
          run dependents rounds (layering.settle dependents name queue)

end Layering

namespace Graph

/-- How many dependencies every target has in its package. -/
def waiting (graph : Graph) : Dict Nat :=
  Dict.ofList (graph.order.map fun name =>
    (name, (graph.localDependencies name).length))

/-- The targets without dependencies in their package. -/
def leaves (graph : Graph) : List String :=
  graph.order.filter fun name => graph.waiting.get? name == some 0

/-- What is known before any target is settled. -/
def unsettled (graph : Graph) : Layering where
  remaining := graph.waiting
  tentative := Dict.empty
  levels := graph.leaves.foldl (fun levels name => levels.insert name 0) Dict.empty
  queue := graph.leaves
  topology := []

/-- What is known when all targets are settled that can be.  Without cycles a
target at `n` places of the order is settled at most `n` times as often as all
before it, and `n` times more if it has no dependencies; so two rounds for each
place, multiplied, are enough. -/
def layering (graph : Graph) : Layering :=
  graph.unsettled.run graph.dependents (Nat.pow 2 graph.order.length)

/-- The platform modules among the targets and their dependencies. -/
def systemModulesIn (graph : Graph) (known : List String) : NameSet :=
  NameSet.ofNames
    ((graph.order.flatMap fun name =>
      name :: (graph.dependenciesOf name).map Manifest.Dependency.name).filter
        known.contains)

/-- The layers of a graph, where `known` are the names of platform modules. -/
def analyze (graph : Graph) (known : List String) : Analysis :=
  let layering := graph.layering
  let modules := graph.systemModulesIn known
  { levels :=
      (modules.keys.filter graph.hasTarget).foldl
        (fun levels name => levels.insert name 0) layering.levels
    topology := layering.topology
    systemModules := modules }

end Graph

end PackageLayers

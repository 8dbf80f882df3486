/-
Purpose: Whether a target may depend on another.
Main exports: Direction, Decision, Verdict, Graph.judge, Graph.evaluate
-/
import PackageLayers.Failure
import PackageLayers.Graph.Level

namespace PackageLayers

/-!
A request for an edge is answered by the first of these that applies:

1. the origin lists the destination;
2. the destination can be reached from the origin;
3. the origin can be reached from the destination, so the edge would close a
   cycle: refused;
4. the destination is on a higher level: refused;
5. the edge is allowed.
-/

/-- The direction of an edge: toward a lower level, a higher one, or neither. -/
inductive Direction where
  | upward
  | downward
  | sameLevel
deriving Repr, Inhabited, DecidableEq

namespace Direction

/-- The direction of an edge between two levels. -/
def between (origin destination : Level) : Direction :=
  if destination.isBelow origin then .upward
  else if origin.isBelow destination then .downward
  else .sameLevel

/-- The word for a direction. -/
def label : Direction → String
  | .upward => "upward"
  | .downward => "downward"
  | .sameLevel => "same-level"

end Direction

/-- A refusal: its reason and its description. -/
structure Refusal where
  reason : BlockReason
  message : String
deriving Repr, Inhabited, DecidableEq

/-- The judgement of an edge that is not there. -/
structure Decision where
  refusal : Option Refusal
  direction : Direction
  originLevel : Level
  destinationLevel : Level
deriving Repr, Inhabited, DecidableEq

/-- Whether the edge is refused. -/
def Decision.blocked (decision : Decision) : Bool :=
  decision.refusal.isSome

/-- The answer to a request for an edge. -/
inductive Verdict where
  | alreadyPresent
  | alreadyReachable (path : List String)
  | judged (decision : Decision)
deriving Repr, Inhabited, DecidableEq

namespace Graph

/-- The refusal of an edge that would close a cycle, given the way back. -/
def cycleRefusal (origin destination : String) (back : List String) : Refusal :=
  let cycle := " -> ".intercalate (origin :: back)
  { reason := .cycleBlocked
    message :=
      s!"adding '{origin}' -> '{destination}' would create a cycle: {cycle}" }

/-- The refusal of an edge toward a higher level. -/
def downwardRefusal (origin destination : String) (low high : Level) : Refusal :=
  let lowText := low.text
  let highText := high.text
  { reason := .downwardDependency
    message :=
      s!"'{origin}' (level {lowText}) may not depend on '{destination}' (level {highText}): " ++
        "a lower layer would depend on a higher layer" }

/-- The judgement of an edge by cycles and levels. -/
def judge (graph : Graph) (analysis : Analysis) (origin destination : String) :
    Decision :=
  let low := analysis.level origin
  let high := analysis.level destination
  let refusal :=
    match graph.shortestPath? destination origin with
    | some back => some (cycleRefusal origin destination back)
    | none =>
        if low.isBelow high then
          some (downwardRefusal origin destination low high)
        else none
  { refusal := refusal
    direction := Direction.between low high
    originLevel := low
    destinationLevel := high }

/-- The answer to a request for an edge. -/
def evaluate (graph : Graph) (analysis : Analysis) (origin destination : String) :
    Verdict :=
  if graph.hasEdge origin destination then .alreadyPresent
  else
    match (if origin = destination then none
      else graph.shortestPath? origin destination) with
    | some path => .alreadyReachable path
    | none => .judged (graph.judge analysis origin destination)

end Graph

end PackageLayers

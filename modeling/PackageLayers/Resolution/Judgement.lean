/-
Purpose: Whether and how a dependency may be added, and what is answered.
Main exports: Satisfaction, Answer, Answer.toJson, judgeEdge
-/
import PackageLayers.Graph.Policy
import PackageLayers.Manifest.Outcome
import PackageLayers.Project.Lookup

namespace PackageLayers.Resolution

open Manifest (Change Outline PatchOutcome ProductContext)
open Project (Owner ProjectMap)

/-! ### Answers -/

/-!
An answer is one of a few findings.  What programs ask of it (is the dependency
there, did a manifest change, and why not) and what people read are functions of
the finding.
-/

/-- Why a dependency needs no change. -/
inductive Satisfaction where
  | platformModule (name : String)
  | listed (origin destination : String)
  | reachable (origin destination : String) (path : List String)
  | productListed (origin product package : String)
deriving Repr, Inhabited, DecidableEq

/-- The description of a reason. -/
def Satisfaction.message : Satisfaction → String
  | .platformModule name =>
      s!"'{name}' is a system module and needs no declaration"
  | .listed origin destination =>
      s!"'{origin}' already depends on '{destination}'"
  | .reachable origin destination path =>
      s!"'{destination}' is already reachable from '{origin}': " ++
        " -> ".intercalate path
  | .productListed origin product package =>
      s!"'{origin}' already depends on product '{product}' of '{package}'"

/-- What a change would do, in words. -/
def describe : Change → String
  | .targetDependency origin destination file =>
      s!"add \"{destination}\" to the dependencies of '{origin}' in {file}"
  | .packageDeclaration _ declaration file =>
      s!"declare {declaration} in the package dependencies of {file}"
  | .productDependency origin product package file =>
      s!"add .product(name: \"{product}\", package: \"{package}\") to the dependencies of " ++
        s!"'{origin}' in {file}"

/-- The answer to a request that `origin` depend on `destination`. -/
inductive Answer where
  | satisfied (reason : Satisfaction)
  | refused (refusal : Refusal)
  | unqualified (origin destination product package : String)
  | proposed (origin destination : String) (changes : List Change)
  | patched (outcome : PatchOutcome)
  | failed (failure : Failure)
deriving Repr, Inhabited, DecidableEq

namespace Answer

/-- Whether the dependency is there. -/
def ok : Answer → Bool
  | .satisfied _ => true
  | .patched outcome => outcome.ok
  | _ => false

/-- Whether a manifest was written. -/
def changed : Answer → Bool
  | .patched outcome => outcome.changed
  | _ => false

/-- The word for why the dependency is not there. -/
def reason? : Answer → Option String
  | .satisfied _ => none
  | .refused refusal => some refusal.reason.label
  | .unqualified _ _ _ _ => some "unresolvedByNameReference"
  | .proposed _ _ _ => some "patchRequired"
  | .patched outcome => outcome.reason?
  | .failed failure => some failure.reason

/-- The description of an entry that lacks its package. -/
def unqualifiedMessage (origin destination product package : String) : String :=
  s!"'{origin}' lists '{destination}' without a package, but it is provided by " ++
    s!"package '{package}'; qualify it as .product(name: \"{product}\", " ++
    s!"package: \"{package}\")"

/-- The description of an answer. -/
def message? : Answer → Option String
  | .satisfied reason => some reason.message
  | .refused refusal => some refusal.message
  | .unqualified origin destination product package =>
      some (unqualifiedMessage origin destination product package)
  | .proposed origin destination _ =>
      some s!"'{origin}' -> '{destination}' is allowed but was not applied"
  | .patched outcome => outcome.message?
  | .failed failure => some failure.message

/-- The changes that were not made, in words. -/
def suggestion? : Answer → Option String
  | .proposed _ _ changes => some ("; ".intercalate (changes.map describe))
  | _ => none

/-- The changes that were made. -/
def changes : Answer → List Change
  | .patched outcome => outcome.changes
  | _ => []

/-- An answer as a document. -/
def toJson (answer : Answer) : Json :=
  .obj
    ([("ok", .bool answer.ok), ("changed", .bool answer.changed)] ++
      Json.memberIfSome "reason" .str answer.reason? ++
      Json.memberIfSome "message" .str answer.message? ++
      Json.memberIfSome "suggestion" .str answer.suggestion? ++
      if answer.changes.isEmpty then []
      else [("changes", .arr (answer.changes.map Change.toJson))])

end Answer

/-! ### Judgements -/

/-!
A destination in the same package is judged by the graph of the package.  Any
other is looked up in the map of the project: the edge between the packages must
not close a cycle, and the product is added with what is needed to declare its
package.

A judgement is an answer if nothing is to be changed.  Otherwise it says what is
to be added: a product with its context, or else a target.
-/

/-- Whether the declaration of a target in a manifest has unbalanced
brackets. -/
def isUnbalanced (files : Files) (manifest : Path) (target : String) : Bool :=
  (files.textOf? manifest).any fun text =>
    (Outline.ofText text).isSkipped target

/-- The answer if a target of a graph is missing. -/
def missingTarget (files : Files) (graph : Graph) (target : String) : Answer :=
  if isUnbalanced files graph.manifest target then
    .failed (.manifestMalformed graph.manifest (.unbalancedTarget target))
  else .failed (.targetNotFound target graph.manifest)

/-- The judgement of an edge inside a package. -/
def judgeInside (graph : Graph) (known : List String)
    (origin destination : String) :
    Except Answer (Option ProductContext) :=
  match graph.evaluate (graph.analyze known) origin destination with
  | .alreadyPresent => .error (.satisfied (.listed origin destination))
  | .alreadyReachable path =>
      .error (.satisfied (.reachable origin destination path))
  | .judged decision =>
      match decision.refusal with
      | some refusal => .error (.refused refusal)
      | none => .ok none

/-- The name by which the map knows the package of a graph. -/
def packageOf (map : ProjectMap) (graph : Graph) : String :=
  (map.graph.packageOf? graph.manifest.storedText).getD graph.packageName

/-- Whether a target lists a product of a package. -/
def listsProduct (graph : Graph) (origin product package : String) : Bool :=
  (graph.dependenciesOf origin).any fun dependency =>
    match dependency with
    | .product name owner => name == product && Text.sameFolded owner package
    | _ => false

/-- The failure of an edge that would close a cycle of packages. -/
def cycleFailure (origin destination : String) (cycle : List String) : Failure :=
  .policyBlocked .cycleBlocked
    (s!"adding package '{origin}' -> '{destination}' would create a package cycle: " ++
      " -> ".intercalate cycle)

/-- The judgement of an edge to what another package provides. -/
def judgeAcross (map : ProjectMap) (graph : Graph)
    (origin destination : String) (owner : Owner) :
    Except Answer (Option ProductContext) :=
  let current := packageOf map graph
  if Text.sameFolded owner.package current then
    .error (.failed (.targetNotFound destination graph.manifest))
  else if listsProduct graph origin owner.product owner.package then
    .error (.satisfied (.productListed origin owner.product owner.package))
  else if (graph.unresolved origin).any fun dependency =>
      dependency.name == destination then
    .error (.unqualified origin destination owner.product owner.package)
  else
    match map.graph.cycleThrough? current owner.package with
    | some cycle => .error (.failed (cycleFailure current owner.package cycle))
    | none =>
        .ok
          (some
            { package := owner.package
              product := owner.product
              provenance := map.provenance owner.package graph.manifest })

/-- The judgement of an edge, where `known` are the modules of the platform. -/
def judgeEdge (files : Files) (map : ProjectMap) (known : List String)
    (graph : Graph) (origin destination : String) :
    Except Answer (Option ProductContext) :=
  if !graph.hasTarget origin then .error (missingTarget files graph origin)
  else if known.contains destination then
    .error (.satisfied (.platformModule destination))
  else if graph.hasTarget destination then
    judgeInside graph known origin destination
  else
    match map.owner? destination with
    | none => .error (.failed (.targetNotFound destination graph.manifest))
    | some owner => judgeAcross map graph origin destination owner

end PackageLayers.Resolution

/-
Purpose: What a package leads to after one of its targets got a dependency.
Main exports: IsRevision, IsMeant, leadsTo_of_productAdded,
  PackageGraph.IsAcyclic, PackageGraph.acyclic_of_addition
-/
import PackageLayers.Proofs.Graph.Heights
import PackageLayers.Proofs.Manifest.ProductPatch
import PackageLayers.Proofs.Project.Declared

namespace PackageLayers.Project

open Manifest (Declaration Dependency Firstly Package ProductAdded ProductContext
  Target Unmoved)
open Relation (ReflTransGen TransGen)

/-!
To add the product of another package to a target changes what one package says,
and not what the packages are called or where they lie.  So declarations and uses
of names lead where they led, and all that is new starts from that one package: it
leads to where the new declaration leads, or to the package that goes by the name of
the owner.

The search for a cycle starts from the owner by the name that the tables hold, and
that is a node only if it is spelled exactly as the package is.  If whatever is new
leads to that very node, no cycle is overlooked.
-/

variable {user later node : Discovery} {nodes discoveries : List Discovery}
  {directory : Path} {name : String}

/-! ### One package is read anew -/

/-- Whether a discovery is another one whose package was read anew, with the name
and the targets that it had. -/
structure IsRevision (user later : Discovery) : Prop where
  name : later.name = user.name
  directory : later.directory = user.directory
  manifest : later.manifest = user.manifest
  targets : later.targets = user.targets

/-- A discovery after `user` was read anew. -/
def revised (user later other : Discovery) : Discovery :=
  if other = user then later else other

@[simp] theorem revised_self : revised user later user = later := if_pos rfl

theorem revised_other (different : node ≠ user) : revised user later node = node :=
  if_neg different

namespace IsRevision

variable (revision : IsRevision user later)

include revision

theorem name_revised (other : Discovery) :
    (revised user later other).name = other.name := by
  rw [revised]
  split
  · rename_i same
    rw [same, revision.name]
  · rfl

theorem directory_revised (other : Discovery) :
    (revised user later other).directory = other.directory := by
  rw [revised]
  split
  · rename_i same
    rw [same, revision.directory]
  · rfl

/-- As nodes of the graph the packages are the same. -/
theorem nodeOf_revised (other : Discovery) :
    nodeOf (revised user later other) = nodeOf other := by
  rw [revised]
  split
  · rename_i same
    rw [same, nodeOf, nodeOf, revision.directory, revision.manifest, revision.targets]
  · rfl

theorem nodesOf_map (seen : List String) (discoveries : List Discovery) :
    nodesOf seen (discoveries.map (revised user later)) =
      (nodesOf seen discoveries).map (revised user later) := by
  induction discoveries generalizing seen with
  | nil => rfl
  | cons discovery discoveries inductionHypothesis =>
      rw [List.map_cons, nodesOf, nodesOf, revision.name_revised]
      split
      · exact inductionHypothesis seen
      · rw [List.map_cons, inductionHypothesis]

/-- What is found by name or directory has the name that it had. -/
theorem find_map {holds : Discovery → Bool} (nodes : List Discovery)
    (same : ∀ other, holds (revised user later other) = holds other) :
    ((nodes.map (revised user later)).find? holds).map Discovery.name =
      (nodes.find? holds).map Discovery.name := by
  have keeps : holds ∘ revised user later = holds := funext same
  have names : Discovery.name ∘ revised user later = Discovery.name :=
    funext revision.name_revised
  rw [List.find?_map, keeps, Option.map_map, names]

theorem nodeNamed_map (nodes : List Discovery) :
    nodeNamed? (nodes.map (revised user later)) = nodeNamed? nodes :=
  funext fun identity => revision.find_map nodes fun other => by
    rw [goesBy, goesBy, revision.name_revised, revision.directory_revised]

theorem declaredNode_map (nodes : List Discovery) :
    declaredNode? (nodes.map (revised user later)) = declaredNode? nodes := by
  have places (directory : Path) :
      nodeAt? (nodes.map (revised user later)) directory = nodeAt? nodes directory :=
    revision.find_map nodes fun other => by rw [revision.directory_revised]
  funext directory declaration
  rw [declaredNode?, declaredNode?, revision.nodeNamed_map]
  simp only [places]

theorem usedNode_map (nodes : List Discovery) :
    usedNode? (nodes.map (revised user later)) = usedNode? nodes := by
  funext resolved owner
  rw [usedNode?, usedNode?, revision.nodeNamed_map]

/-- Packages that say the same lead where they led. -/
theorem destinations_map (nodes : List Discovery) :
    destinations (nodes.map (revised user later)) = destinations nodes := by
  funext node
  rw [destinations, destinations, revision.usedNode_map]
  simp only [resolvedDeclarations, revision.declaredNode_map]

end IsRevision

/-! ### What is new in a package -/

section

variable {before after : Package} {front rest : List Target} {target : Target}
  {added : List Dependency} {origin : String} {usage : String × String}

/-- A target that has one more dependency uses what it used, and what is added. -/
theorem mem_productUsages_grown
    (split : before.targets = front ++ target :: rest)
    (grown : after.targets = front ++ target.grown added :: rest) :
    usage ∈ after.productUsages ↔ usage ∈ before.productUsages ∨
      ∃ dependency ∈ added, ∃ owner, dependency.package? = some owner ∧
        (dependency.name, owner) = usage := by
  simp only [Package.productUsages, split, grown, List.flatMap_append,
    List.flatMap_cons, Target.grown, List.filterMap_append, List.mem_append,
    List.mem_filterMap, Option.map_eq_some_iff]
  refine iff_of_eq ?_
  ac_rfl

/-- With at most one more product a target uses what it used, and that product. -/
theorem usage_of_grown {product owner : String}
    (split : before.targets = front ++ target :: rest)
    (grown : after.targets = front ++ target.grown added :: rest)
    (few : added = [] ∨ added = [.product product owner])
    (used : usage ∈ after.productUsages) :
    usage ∈ before.productUsages ∨ usage = (product, owner) := by
  refine ((mem_productUsages_grown split grown).mp used).imp_right ?_
  rintro ⟨dependency, new, other, isProduct, rfl⟩
  rcases few with rfl | rfl
  · cases new
  · rw [List.mem_singleton] at new
    subst new
    cases isProduct
    rfl

/-- A package to which a product was added declares what it declared, and at most the
owner of the product. -/
theorem declarations_of_productAdded {context : ProductContext}
    (productAdded : ProductAdded context origin before after) :
    (∀ declaration ∈ after.declarations.map Declaration.located,
        declaration ∈ before.declarations.map Declaration.located ∨
          context.declaration? = some declaration) ∧
      ∀ declaration ∈ before.declarations.map Declaration.located,
        declaration ∈ after.declarations.map Declaration.located := by
  rcases productAdded.declarations with same | ⟨new, early, late, written, old, next⟩
  · rw [same]
    exact ⟨fun declaration listed => Or.inl listed, fun declaration listed => listed⟩
  · simp only [old, next, List.mem_append, List.mem_cons]
    refine ⟨?_, fun declaration listed => listed.imp_right Or.inr⟩
    rintro declaration (old | rfl | old)
    · exact Or.inl (Or.inl old)
    · exact Or.inr written
    · exact Or.inl (Or.inr old)

end

/-- Where a declaration leads does not depend on its requirement. -/
theorem declarationLeads_located {declaration : Declaration} :
    DeclarationLeads nodes directory declaration.located node ↔
      DeclarationLeads nodes directory declaration node := by
  constructor
  · rintro (⟨declared, near, first⟩ | ⟨nowhere, known, first⟩)
    · exact .place declared near first
    · exact .identity nowhere known first
  · rintro (⟨declared, near, first⟩ | ⟨nowhere, known, first⟩)
    · exact .place declared near first
    · exact .identity nowhere known first

theorem goesBy_congr {left right : String} (same : Text.sameFolded left right) :
    goesBy left = goesBy right := by
  funext node
  simp only [goesBy, Text.sameFolded, Text.sameFolded_iff.mp same]

/-- A declaration whose identity a package goes by leads somewhere. -/
theorem leads_of_identity {declaration : Declaration} {identity : String}
    (known : declaration.identity? = some identity)
    (first : nodes.find? (goesBy identity) = some node) (directory : Path) :
    ∃ other, DeclarationLeads nodes directory declaration other := by
  by_contra nowhere
  rw [not_exists] at nowhere
  have none := declaredNode_eq_none_iff.mpr nowhere
  rw [declaredNode?] at none
  split at none
  · cases none
  · rw [known, Option.bind_some, nodeNamed?, first] at none
    cases none

/-- What a package leads to that declares and uses what another in its directory does,
and more: to what that one led to, to where a new declaration leads, or through a
new use to the package of that name, if no declaration of the name leads
anywhere. -/
theorem leadsTo_of_more (fresh : Declaration → Prop) {other : Discovery}
    (located : later.directory = user.directory)
    (news : ∀ declaration ∈ later.package.declarations.map Declaration.located,
      declaration ∈ user.package.declarations.map Declaration.located ∨
        fresh declaration)
    (kept : ∀ declaration ∈ user.package.declarations.map Declaration.located,
      declaration ∈ later.package.declarations.map Declaration.located)
    (leads : LeadsTo nodes later other) :
    LeadsTo nodes user other ∨
      (∃ declaration, fresh declaration ∧
        DeclarationLeads nodes user.directory declaration other) ∨
      ∃ usage ∈ later.package.productUsages, usage ∉ user.package.productUsages ∧
        nodes.find? (goesBy usage.2) = some other ∧
        ∀ declaration ∈ later.package.declarations, hasIdentity usage.2 declaration →
          ∀ there, ¬DeclarationLeads nodes later.directory declaration there := by
  have declared {declaration : Declaration}
      (member : declaration ∈ later.package.declarations)
      (leads : DeclarationLeads nodes later.directory declaration other) :
      LeadsTo nodes user other ∨ ∃ declaration, fresh declaration ∧
        DeclarationLeads nodes user.directory declaration other := by
    rw [located, ← declarationLeads_located] at leads
    rcases news _ (List.mem_map_of_mem member) with old | new
    · obtain ⟨earlier, here, same⟩ := List.mem_map.mp old
      rw [← same, declarationLeads_located] at leads
      exact Or.inl (Or.inl ⟨earlier, here, leads⟩)
    · exact Or.inr ⟨_, new, leads⟩
  rcases leads with ⟨declaration, member, leads⟩ | ⟨usage, used, leads⟩
  · exact (declared member leads).imp_right Or.inl
  cases leads with
  | declared split known leads =>
      exact (declared (by rw [split]; simp) leads).imp_right Or.inl
  | named undeclared first =>
      by_cases old : usage ∈ user.package.productUsages
      · refine Or.inl (Or.inr ⟨usage, old, .named (fun declaration member known there
          leads => ?_) first⟩)
        obtain ⟨still, listed, alike⟩ :=
          List.mem_map.mp (kept _ (List.mem_map_of_mem member))
        refine undeclared still listed ?_ there ?_
        · rw [hasIdentity, ← Manifest.identity_located, alike]
          exact known
        · rw [located, ← declarationLeads_located, alike, declarationLeads_located]
          exact leads
      · exact Or.inr (Or.inr ⟨usage, used, old, first, undeclared⟩)

/-- After the product of an owner was added to a target, a package leads to what it
led to, to where the owner's new declaration leads, or to the package that goes by
the owner's name. -/
theorem leadsTo_of_productAdded {context : ProductContext} {origin : String}
    {other : Discovery} (located : later.directory = user.directory)
    (added : ProductAdded context origin user.package later.package)
    (leads : LeadsTo nodes later other) :
    LeadsTo nodes user other ∨
      (∃ declaration, context.declaration? = some declaration ∧
        DeclarationLeads nodes user.directory declaration other) ∨
      nodes.find? (goesBy context.package) = some other := by
  obtain ⟨news, kept⟩ := declarations_of_productAdded added
  rcases leadsTo_of_more _ located news kept leads with
    old | new | ⟨usage, used, unused, first, undeclared⟩
  · exact Or.inl old
  · exact Or.inr (Or.inl new)
  obtain ⟨found, here, front, target, rest, more, package, firstly, targets, few, -,
    same⟩ := added.declared
  obtain rfl : usage = (context.product, package) :=
    (usage_of_grown firstly.split targets few used).resolve_left unused
  refine Or.inr (Or.inr ?_)
  suffices folded : Text.sameFolded package context.package by
    rw [← goesBy_congr folded]
    exact first
  rcases same with same | same
  · cases known : found.identity? with
    | none =>
        rw [known] at same
        exact same
    | some identity =>
        -- the declaration that was found would lead there itself
        rw [known, Option.getD_some] at same
        rw [goesBy_congr same] at first
        obtain ⟨there, leads⟩ := leads_of_identity known first later.directory
        refine absurd leads (undeclared found (List.mem_of_find?_eq_some here) ?_ there)
        rw [hasIdentity, known, Option.any_some, Text.sameFolded_comm]
        exact same
  · exact same

/-- After a target of its own was added to one of its targets, a package leads to what
it led to. -/
theorem leadsTo_of_local {destination origin : String} {front rest : List Target}
    {target : Target} {other : Discovery}
    (located : later.directory = user.directory)
    (unmoved : Unmoved user.package later.package)
    (firstly : Firstly user.package.targets origin front target rest)
    (grown : later.package.targets =
      front ++ target.grown [.bare destination] :: rest)
    (leads : LeadsTo nodes later other) : LeadsTo nodes user other := by
  have usages : ∀ usage ∈ later.package.productUsages,
      usage ∈ user.package.productUsages := by
    intro usage used
    refine ((mem_productUsages_grown firstly.split grown).mp used).resolve_right ?_
    rintro ⟨dependency, new, owner, isProduct, -⟩
    rw [List.mem_singleton] at new
    subst new
    cases isProduct
  rcases leadsTo_of_more (fun _ => False) located
      (fun declaration listed => Or.inl (unmoved.declarations ▸ listed))
      (fun declaration listed => unmoved.declarations ▸ listed) leads with
    old | ⟨_, none, -⟩ | ⟨usage, used, unused, -⟩
  · exact old
  · exact none.elim
  · exact absurd (usages usage used) unused

/-! ### The graph -/

/-- Whether the name of an owner and the declaration that is written for it lead to no
package but the one that bears just that name. -/
structure IsMeant (nodes : List Discovery) (directory : Path)
    (context : ProductContext) : Prop where
  named : ∀ node, nodes.find? (goesBy context.package) = some node →
    node.name = context.package
  declared : ∀ declaration, context.declaration? = some declaration →
    ∀ node, DeclarationLeads nodes directory declaration node →
      node.name = context.package

namespace PackageGraph

/-- Whether no package leads back to itself. -/
def IsAcyclic (graph : PackageGraph) : Prop :=
  ∀ name, ¬TransGen graph.HasEdge name name

variable {root : Path} {moment : Timestamp} {origin next : String}

theorem hasEdge_names_iff :
    (ofDiscoveries root moment discoveries).HasEdge origin next ↔
      ∃ node ∈ nodesOf [] discoveries, node.name = origin ∧
        next ∈ destinations (nodesOf [] discoveries) node := by
  rw [HasEdge]
  simp only [get?_edges_iff]
  constructor
  · rintro ⟨_, ⟨-, node, member, named, rfl⟩, listed⟩
    exact ⟨node, member, named, listed⟩
  · rintro ⟨node, member, named, listed⟩
    refine ⟨_, ⟨?_, node, member, named, rfl⟩, listed⟩
    rw [List.isEmpty_eq_false_iff]
    exact List.ne_nil_of_mem listed

/-- The package with a manifest is found, if no other has one that is written in the
same way. -/
theorem packageOf_eq (member : user ∈ nodesOf [] discoveries)
    (alone : ∀ node ∈ nodesOf [] discoveries,
      node.manifest.storedText = user.manifest.storedText → node = user) :
    (ofDiscoveries root moment discoveries).packageOf? user.manifest.storedText =
      some user.name := by
  have node (name : String) := node_eq root moment discoveries name
  generalize (ofDiscoveries root moment discoveries) = graph at node
  have distinct : (graph.packages.entries.map Prod.fst).Nodup :=
    graph.packages.sorted.imp fun less => String.ne_of_lt less
  rw [packageOf?]
  cases found : graph.packages.entries.find? fun entry =>
      entry.2.manifest == user.manifest.storedText with
  | none =>
      have held : graph.packages.get? user.name = some (nodeOf user) := by
        rw [node, mem_nodesOf_iff.mp member]
        rfl
      have apart := List.find?_eq_none.mp found _ (Dict.mem_of_lookup held)
      exact absurd (beq_self_eq_true _) apart
  | some entry =>
      have held := node entry.1
      rw [Dict.get?, Dict.lookup_of_mem distinct (List.mem_of_find?_eq_some found),
        eq_comm, Option.map_eq_some_iff] at held
      obtain ⟨other, first, same⟩ := held
      have named : other.name = entry.1 := by simpa using List.find?_some first
      have written := List.find?_some found
      rw [← same, beq_iff_eq] at written
      rw [← named] at first
      rw [Option.map_some, ← named, alone other (mem_nodesOf_iff.mpr first) written]

/-- Among the edges of the packages after one was read anew those of all other
packages are the same. -/
theorem hasEdge_revised_iff (revision : IsRevision user later) (moment' : Timestamp) :
    (ofDiscoveries root moment' (discoveries.map (revised user later))).HasEdge origin
        next ↔
      ∃ node ∈ nodesOf [] discoveries, node.name = origin ∧
        next ∈ destinations (nodesOf [] discoveries) (revised user later node) := by
  simp only [hasEdge_names_iff, revision.nodesOf_map, revision.destinations_map,
    List.mem_map, exists_exists_and_eq_and, revision.name_revised]

theorem cycleThrough_eq_none_iff {graph : PackageGraph} {destination : String} :
    graph.cycleThrough? origin destination = none ↔
      ¬ReflTransGen graph.HasEdge destination origin := by
  rw [← Option.not_isSome_iff_eq_none, cycleThrough?, Option.isSome_map,
    shortestPath?, Neighbours.isSome_shortestPath?, Neighbours.Leads, edge_entries]

/-- An edge after a package was read anew is an old one, or starts from that
package. -/
theorem hasEdge_of_revised (revision : IsRevision user later) {moment' : Timestamp}
    (step : (ofDiscoveries root moment'
      (discoveries.map (revised user later))).HasEdge origin next) :
    (ofDiscoveries root moment discoveries).HasEdge origin next ∨
      user ∈ nodesOf [] discoveries ∧ origin = user.name ∧
        next ∈ destinations (nodesOf [] discoveries) later := by
  obtain ⟨node, member, rfl, listed⟩ := (hasEdge_revised_iff revision moment').mp step
  by_cases isUser : node = user
  · subst isUser
    rw [revised_self] at listed
    exact Or.inr ⟨member, rfl, listed⟩
  · rw [revised_other isUser] at listed
    exact Or.inl (hasEdge_names_iff.mpr ⟨node, member, rfl, listed⟩)

/-- A package that is read anew and leads to nothing more closes no cycle. -/
theorem acyclic_of_fewer (revision : IsRevision user later)
    (acyclic : (ofDiscoveries root moment discoveries).IsAcyclic)
    (fewer : user ∈ nodesOf [] discoveries →
      ∀ other, LeadsTo (nodesOf [] discoveries) later other →
        LeadsTo (nodesOf [] discoveries) user other) (moment' : Timestamp) :
    (ofDiscoveries root moment' (discoveries.map (revised user later))).IsAcyclic := by
  have steps : ∀ origin next, (ofDiscoveries root moment'
        (discoveries.map (revised user later))).HasEdge origin next →
      (ofDiscoveries root moment discoveries).HasEdge origin next := by
    intro origin next step
    rcases hasEdge_of_revised revision step with old | ⟨member, rfl, listed⟩
    · exact old
    · rw [mem_destinations_iff, revision.name] at listed
      obtain ⟨different, other, named, leads⟩ := listed
      exact hasEdge_names_iff.mpr ⟨user, member, rfl, mem_destinations_iff.mpr
        ⟨different, other, named, fewer member other leads⟩⟩
  exact fun name cycle => acyclic name (TransGen.mono steps name name cycle)

/-- A package that gets the product of an owner closes no cycle, if the search finds
none from the name of the owner and all that is new leads to the package of just
that name. -/
theorem acyclic_of_productAdded {context : ProductContext} {source : String}
    (revision : IsRevision user later)
    (acyclic : (ofDiscoveries root moment discoveries).IsAcyclic)
    (added : ProductAdded context source user.package later.package)
    (meant : IsMeant (nodesOf [] discoveries) user.directory context)
    (none : (ofDiscoveries root moment discoveries).cycleThrough? user.name
      context.package = none) (moment' : Timestamp) :
    (ofDiscoveries root moment' (discoveries.map (revised user later))).IsAcyclic := by
  let edge := (ofDiscoveries root moment discoveries).HasEdge
  let wider (name next : String) : Prop :=
    edge name next ∨ name = user.name ∧ next = context.package
  have widened : Graph.Widened edge wider user.name context.package :=
    { edges := fun _ _ => Iff.rfl
      apart := cycleThrough_eq_none_iff.mp none }
  have steps : ∀ origin next, (ofDiscoveries root moment'
      (discoveries.map (revised user later))).HasEdge origin next →
        wider origin next := by
    intro origin next step
    rcases hasEdge_of_revised revision step with old | ⟨member, rfl, listed⟩
    · exact Or.inl old
    rw [mem_destinations_iff, revision.name] at listed
    obtain ⟨different, other, rfl, leads⟩ := listed
    rcases leadsTo_of_productAdded revision.directory added leads with
      old | ⟨declaration, written, leads⟩ | first
    · exact Or.inl (hasEdge_names_iff.mpr ⟨user, member, rfl,
        mem_destinations_iff.mpr ⟨different, other, rfl, old⟩⟩)
    · exact Or.inr ⟨rfl, meant.declared declaration written other leads⟩
    · exact Or.inr ⟨rfl, meant.named other first⟩
  exact fun name cycle => acyclic name
    (widened.cycle_iff.mp (TransGen.mono steps name name cycle))

/-- A package that gets a dependency closes no cycle, if that is a target of its own,
or if the search finds none and all that is new leads to the owner of the
product. -/
theorem acyclic_of_addition {context : Option ProductContext}
    {source destination : String} {package : Package}
    (acyclic : (ofDiscoveries root moment discoveries).IsAcyclic)
    (addition : Manifest.Addition source destination user.package package context)
    (judged : user ∈ nodesOf [] discoveries → ∀ owner ∈ context,
      IsMeant (nodesOf [] discoveries) user.directory owner ∧
        (ofDiscoveries root moment discoveries).cycleThrough? user.name
          owner.package = none) (moment' : Timestamp) :
    (ofDiscoveries root moment'
      (discoveries.map (revised user { user with package := package }))).IsAcyclic := by
  have revision : IsRevision user { user with package := package } :=
    ⟨rfl, rfl, rfl, addition.targets⟩
  by_cases isNode : user ∈ nodesOf [] discoveries
  swap
  · exact acyclic_of_fewer revision acyclic (fun member => absurd member isNode) moment'
  cases addition with
  | target unmoved firstly targets =>
      exact acyclic_of_fewer revision acyclic
        (fun _ other leads => leadsTo_of_local revision.directory unmoved firstly targets
          leads) moment'
  | product added =>
      obtain ⟨meant, none⟩ := judged isNode _ rfl
      exact acyclic_of_productAdded revision acyclic added meant none moment'

end PackageGraph

/-- A package that was found is meant by its name and its path, if no other goes by
that name. -/
theorem isMeant_of_recorded {map : ProjectMap} {owner : Discovery} {product : String}
    (apart : AreApart discoveries) (recorded : AreRecorded discoveries map.packages)
    (member : user ∈ discoveries) (also : owner ∈ discoveries)
    (alone : ∀ node ∈ discoveries, goesBy owner.name node → node = owner)
    (near : Manifest.isLocalPath (owner.directory.relativeTo user.directory)) :
    IsMeant (nodesOf [] discoveries) user.directory
      ⟨owner.name, product, map.provenance owner.name user.manifest⟩ := by
  have all : nodesOf [] discoveries = discoveries :=
    nodesOf_eq apart.nodup_names fun _ _ => List.not_mem_nil
  have lies := nodeAt_declared apart member also
  rw [nodeAt?, Option.map_eq_some_iff] at lies
  obtain ⟨there, first, same⟩ := lies
  constructor
  · intro node first
    rw [alone node (all ▸ List.mem_of_find?_eq_some first) (List.find?_some first)]
  · intro declaration written node leads
    rw [ProductContext.declaration?, provenance_eq apart recorded member also] at written
    cases written
    rcases leads with ⟨⟨⟩, -, first'⟩ | ⟨nowhere, -, -⟩
    · rw [← same]
      exact congrArg Discovery.name (Option.some.inj (first'.symm.trans first))
    · have absent := nowhere _ rfl near there (List.mem_of_find?_eq_some first)
      have here := List.find?_some first
      rw [liesIn, here] at absent
      cases absent

/-- A package that uses another one's product by a name which is spelled in another
way than the package. -/
def spellingSample : List Discovery :=
  [PackageGraph.sampleLeaf "A" "/p/A",
    { PackageGraph.sampleLeaf "B" "/p/B" with
      package := { declarations := [{ path := some "../A" }] } }]

/-- The search does not know a package by another spelling, by which a declaration or
a use leads to it. -/
example :
    let graph := PackageGraph.ofDiscoveries ⟨"/p"⟩ (.ofMilliseconds 0) spellingSample
    graph.cycleThrough? "A" "b" = none ∧
      graph.cycleThrough? "A" "B" = some ["A", "B", "A"] ∧
      nodeNamed? (nodesOf [] spellingSample) "b" = some "B" := by
  decide +kernel

end PackageLayers.Project

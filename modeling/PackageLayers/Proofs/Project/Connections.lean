/-
Purpose: Which edges the graph of the packages has, and which cycles an edge closes.
Main exports: DeclarationLeads, UseLeads, mem_destinations_iff, get?_tableOf_iff,
  hasEdge_iff, PackageGraph.edges_lead_on, PackageGraph.cycles_are_shortest
-/
import PackageLayers.Proofs.Graph.Ways
import PackageLayers.Proofs.Project.Rivals

namespace PackageLayers.Project

open Manifest (Declaration isLocalPath)
open Relation (TransGen)

/-!
A package leads to another if one of its declarations does or one of the products
that its targets use.  What a declaration or a use leads to is said here of the
packages themselves, while the tables of the graph know only their names; as the
names of the nodes are distinct, that is the same.

A declaration leads to the package in the declared directory, and only where there
is none to the package that goes by its identity.  A use follows the first
declaration of the identity that leads anywhere, and only where there is none the
name itself.

A stored graph need not have been made that way: its table of edges may list any
names, repeated, out of order or without an entry of their own.  The search for the
cycle that an edge would close is right for every such table.
-/

variable {nodes : List Discovery} {directory : Path} {declaration : Declaration}
  {node other : Discovery} {name : String}

/-! ### What leads to a package -/

/-- Whether a package lies in a directory. -/
def liesIn (directory : Path) (node : Discovery) : Bool :=
  node.directory.clean.sameAs directory.clean

/-- Whether a declaration has an identity, letter case aside. -/
def hasIdentity (name : String) (declaration : Declaration) : Bool :=
  declaration.identity?.any (Text.sameFolded · name)

/-- Whether a declaration in a directory leads to a package: to the first one in
the declared directory, or else to the first one that goes by the identity. -/
inductive DeclarationLeads (nodes : List Discovery) (directory : Path)
    (declaration : Declaration) (node : Discovery) : Prop
  | place {path : String} (declared : declaration.path = some path)
      (near : isLocalPath path)
      (first : nodes.find? (liesIn (directory.join ⟨path⟩)) = some node)
  | identity {name : String}
      (nowhere : ∀ path, declaration.path = some path → isLocalPath path →
        ∀ other ∈ nodes, liesIn (directory.join ⟨path⟩) other = false)
      (known : declaration.identity? = some name)
      (first : nodes.find? (goesBy name) = some node)

/-- Whether the use of a product of the package `owner` leads from a package to
another: to where the first declaration of that identity leads that leads anywhere,
or else to the first package that goes by it. -/
inductive UseLeads (nodes : List Discovery) (user : Discovery) (owner : String)
    (node : Discovery) : Prop
  | declared {before after : List Declaration} {declaration : Declaration}
      (split : user.package.declarations = before ++ declaration :: after)
      (known : hasIdentity owner declaration)
      (leads : DeclarationLeads nodes user.directory declaration node)
      (first : ∀ earlier ∈ before, hasIdentity owner earlier →
        ∀ other, ¬DeclarationLeads nodes user.directory earlier other)
  | named
      (undeclared : ∀ declaration ∈ user.package.declarations,
        hasIdentity owner declaration →
          ∀ other, ¬DeclarationLeads nodes user.directory declaration other)
      (first : nodes.find? (goesBy owner) = some node)

/-- Whether a declaration or a use leads from a package to another. -/
def LeadsTo (nodes : List Discovery) (node other : Discovery) : Prop :=
  (∃ declaration ∈ node.package.declarations,
    DeclarationLeads nodes node.directory declaration other) ∨
  ∃ usage ∈ node.package.productUsages, UseLeads nodes node usage.2 other

theorem DeclarationLeads.mem
    (leads : DeclarationLeads nodes directory declaration node) : node ∈ nodes := by
  cases leads with
  | place _ _ first => exact List.mem_of_find?_eq_some first
  | identity _ _ first => exact List.mem_of_find?_eq_some first

theorem LeadsTo.mem (leads : LeadsTo nodes node other) : other ∈ nodes := by
  rcases leads with ⟨_, -, leads⟩ | ⟨_, -, ⟨-, -, leads, -⟩ | ⟨-, first⟩⟩
  · exact leads.mem
  · exact leads.mem
  · exact List.mem_of_find?_eq_some first

/-! ### Names and packages -/

/-- The name that a declaration leads to is that of the package it leads to. -/
theorem declaredNode_eq_some_iff :
    declaredNode? nodes directory declaration = some name ↔
      ∃ node, node.name = name ∧
        DeclarationLeads nodes directory declaration node := by
  rw [declaredNode?]
  generalize place : ((declaration.path.filter isLocalPath).bind fun path =>
    nodeAt? nodes (directory.join ⟨path⟩)) = found
  cases found with
  | some found =>
      simp only [Option.bind_eq_some_iff, Option.filter_eq_some_iff, nodeAt?,
        Option.map_eq_some_iff] at place
      obtain ⟨path, ⟨declared, near⟩, there, first, rfl⟩ := place
      rw [Option.some.injEq]
      constructor
      · exact fun same => ⟨there, same, .place declared near first⟩
      · rintro ⟨node, rfl, ⟨declared', -, first'⟩ | ⟨nowhere, -, -⟩⟩
        · rw [declared, Option.some.injEq] at declared'
          subst declared'
          rw [Option.some.inj (first'.symm.trans first)]
        · have absent := nowhere path declared near there
            (List.mem_of_find?_eq_some first)
          have here := List.find?_some first
          rw [liesIn, here] at absent
          cases absent
  | none =>
      have nowhere : ∀ path, declaration.path = some path → isLocalPath path →
          ∀ other ∈ nodes, liesIn (directory.join ⟨path⟩) other = false := by
        intro path declared near other member
        have absent : nodeAt? nodes (directory.join ⟨path⟩) = none := by
          simpa [declared, Option.filter, near] using place
        rw [nodeAt?, Option.map_eq_none_iff, List.find?_eq_none] at absent
        exact Bool.eq_false_iff.mpr (absent other member)
      simp only [Option.bind_eq_some_iff, nodeNamed?, Option.map_eq_some_iff]
      constructor
      · rintro ⟨identity, known, node, first, same⟩
        exact ⟨node, same, .identity nowhere known first⟩
      · rintro ⟨node, same, ⟨declared, near, first⟩ | ⟨-, known, first⟩⟩
        · have absent := nowhere _ declared near node
            (List.mem_of_find?_eq_some first)
          rw [List.find?_some first] at absent
          cases absent
        · exact ⟨_, known, node, first, same⟩

theorem declaredNode_eq_none_iff :
    declaredNode? nodes directory declaration = none ↔
      ∀ node, ¬DeclarationLeads nodes directory declaration node := by
  rw [Option.eq_none_iff_forall_ne_some]
  constructor
  · exact fun none node leads =>
      none node.name (declaredNode_eq_some_iff.mpr ⟨node, rfl, leads⟩)
  · rintro none name found
    obtain ⟨node, -, leads⟩ := declaredNode_eq_some_iff.mp found
    exact none node leads

/-- The declaration that a use follows, and where it leads. -/
theorem find_resolvedDeclarations (owner : String) :
    (resolvedDeclarations nodes node).find? (hasIdentity owner ·.1) =
      (node.package.declarations.find? fun declaration =>
        hasIdentity owner declaration &&
          (declaredNode? nodes node.directory declaration).isSome).bind
        fun declaration => (declaredNode? nodes node.directory declaration).map
          fun name => (declaration, name) := by
  rw [resolvedDeclarations, List.find?_filterMap]
  congr 2
  funext declaration
  cases declaredNode? nodes node.directory declaration <;> simp

/-- A use leads through a resolved declaration, or to a package by its name. -/
theorem usedNode_eq {resolved : List (Declaration × String)} {owner : String} :
    usedNode? nodes resolved owner =
      ((resolved.find? (hasIdentity owner ·.1)).map Prod.snd).or
        (nodeNamed? nodes owner) := by
  unfold usedNode? hasIdentity
  cases List.find? _ resolved <;> rfl

/-- The name that a use leads to is that of the package it leads to. -/
theorem usedNode_eq_some_iff {owner : String} :
    usedNode? nodes (resolvedDeclarations nodes node) owner = some name ↔
      ∃ other, other.name = name ∧ UseLeads nodes node owner other := by
  rw [usedNode_eq, find_resolvedDeclarations]
  constructor
  · intro used
    cases found : node.package.declarations.find? fun declaration =>
        hasIdentity owner declaration &&
          (declaredNode? nodes node.directory declaration).isSome with
    | some declaration =>
        obtain ⟨holds, before, after, split, first⟩ :=
          List.find?_eq_some_iff_append.mp found
        rw [Bool.and_eq_true, Option.isSome_iff_exists] at holds
        obtain ⟨known, there, leads⟩ := holds
        simp only [found, Option.bind_some, leads, Option.map_some,
          Option.some_or, Option.some.injEq] at used
        subst used
        obtain ⟨other, same, leads⟩ := declaredNode_eq_some_iff.mp leads
        refine ⟨other, same, .declared split known leads fun earlier member known =>
          declaredNode_eq_none_iff.mp ?_⟩
        simpa [known] using first earlier member
    | none =>
        rw [found] at used
        obtain ⟨other, first, same⟩ := Option.map_eq_some_iff.mp used
        refine ⟨other, same, .named (fun declaration member known =>
          declaredNode_eq_none_iff.mp ?_) first⟩
        simpa [known] using List.find?_eq_none.mp found declaration member
  · rintro ⟨other, rfl, leads⟩
    cases leads with
    | @declared before after declaration split known leads first =>
        have there := declaredNode_eq_some_iff.mpr ⟨other, rfl, leads⟩
        have found : node.package.declarations.find? (fun declaration =>
            hasIdentity owner declaration &&
              (declaredNode? nodes node.directory declaration).isSome) =
                some declaration := by
          refine List.find?_eq_some_iff_append.mpr ⟨by simp [known, there],
            before, after, split, fun earlier member => ?_⟩
          cases same : hasIdentity owner earlier with
          | false => rfl
          | true =>
              simp [declaredNode_eq_none_iff.mpr (first earlier member same)]
        simp only [found, Option.bind_some, there, Option.map_some, Option.some_or]
    | named undeclared first =>
        have absent : node.package.declarations.find? (fun declaration =>
            hasIdentity owner declaration &&
              (declaredNode? nodes node.directory declaration).isSome) = none := by
          refine List.find?_eq_none.mpr fun declaration member => ?_
          cases same : hasIdentity owner declaration with
          | false => simp
          | true =>
              simp [declaredNode_eq_none_iff.mpr (undeclared declaration member same)]
        rw [absent]
        exact congrArg (Option.map Discovery.name) first

theorem mem_resolvedDeclarations_iff :
    (declaration, name) ∈ resolvedDeclarations nodes node ↔
      declaration ∈ node.package.declarations ∧ ∃ other, other.name = name ∧
        DeclarationLeads nodes node.directory declaration other := by
  simp only [resolvedDeclarations, List.mem_filterMap, Option.map_eq_some_iff,
    Prod.mk.injEq, ← declaredNode_eq_some_iff]
  constructor
  · rintro ⟨_, member, _, found, rfl, rfl⟩
    exact ⟨member, found⟩
  · rintro ⟨member, found⟩
    exact ⟨declaration, member, name, found, rfl, rfl⟩

/-- A package leads to the packages that a declaration or a use leads to, itself
aside. -/
theorem mem_destinations_iff :
    name ∈ destinations nodes node ↔
      name ≠ node.name ∧ ∃ other, other.name = name ∧ LeadsTo nodes node other := by
  rw [destinations, List.mem_filter, Dict.mem_keys_iff, NameSet.contains_ofNames,
    List.mem_append, and_comm, bne_iff_ne]
  refine and_congr_right fun _ => ?_
  simp only [List.mem_map, List.mem_filterMap, usedNode_eq_some_iff, LeadsTo]
  constructor
  · rintro (⟨⟨declaration, _⟩, resolved, rfl⟩ | ⟨usage, member, other, same, leads⟩)
    · obtain ⟨member, other, same, leads⟩ := mem_resolvedDeclarations_iff.mp resolved
      exact ⟨other, same, Or.inl ⟨declaration, member, leads⟩⟩
    · exact ⟨other, same, Or.inr ⟨usage, member, leads⟩⟩
  · rintro ⟨other, same, ⟨declaration, member, leads⟩ | ⟨usage, member, leads⟩⟩
    · exact Or.inl ⟨(declaration, name),
        mem_resolvedDeclarations_iff.mpr ⟨member, other, same, leads⟩, rfl⟩
    · exact Or.inr ⟨usage, member, other, same, leads⟩

theorem destinations_ascend : (destinations nodes node).Pairwise (· < ·) := by
  rw [destinations]
  exact (Dict.sorted _).filter _

/-! ### Tables -/

/-- A table of what is not empty under the names of nodes. -/
theorem get?_tableOf_iff {α : Type} {isEmpty : α → Bool} {value : Discovery → α}
    {held : α} (distinct : (nodes.map Discovery.name).Nodup) :
    (tableOf nodes isEmpty value).get? name = some held ↔
      isEmpty held = false ∧ ∃ node ∈ nodes, node.name = name ∧ value node = held := by
  have names : (((nodes.map fun node => (node.name, value node)).filter
      fun entry => !isEmpty entry.2).map Prod.fst).Nodup := by
    refine List.Nodup.sublist (List.filter_sublist.map Prod.fst) ?_
    rw [List.map_map]
    exact distinct
  have listed : (tableOf nodes isEmpty value).get? name = some held ↔
      (name, held) ∈ (nodes.map fun node => (node.name, value node)).filter
        fun entry => !isEmpty entry.2 := by
    rw [tableOf, Dict.get?_ofList names]
    exact ⟨Dict.mem_of_lookup, Dict.lookup_of_mem names⟩
  rw [listed, List.mem_filter, and_comm, Bool.not_eq_true']
  simp only [List.mem_map, Prod.mk.injEq]

/-- A declared path is that of a declaration that leads to the package. -/
theorem leads_of_declaredPaths {path : String}
    (held : (declaredPaths nodes node).get? name = some path) :
    ∃ other, other.name = name ∧ LeadsTo nodes node other := by
  rw [declaredPaths, Dict.ofList, Dict.get?_foldl_insert, Dict.get?_empty,
    Option.or_none] at held
  have member := List.mem_reverse.mp (Dict.mem_of_lookup held)
  obtain ⟨⟨declaration, _⟩, resolved, same⟩ := List.mem_filterMap.mp member
  obtain ⟨_, -, same⟩ := Option.map_eq_some_iff.mp same
  cases same
  obtain ⟨member, other, same, leads⟩ := mem_resolvedDeclarations_iff.mp resolved
  exact ⟨other, same, Or.inl ⟨declaration, member, leads⟩⟩

/-! ### The graph -/

namespace PackageGraph

/-- Whether an edge leads from a package to another. -/
def HasEdge (graph : PackageGraph) (origin destination : String) : Prop :=
  ∃ listed, graph.edges.get? origin = some listed ∧ destination ∈ listed

variable {discoveries : List Discovery}

/-- The nodes are what was found first under every name. -/
theorem mem_nodesOf_iff :
    node ∈ nodesOf [] discoveries ↔
      discoveries.find? (·.name = node.name) = some node := by
  rw [← find_nodesOf List.not_mem_nil]
  constructor
  · intro member
    cases found : (nodesOf [] discoveries).find? (·.name = node.name) with
    | none => simpa using List.find?_eq_none.mp found node member
    | some first =>
        have same : first.name = node.name := by simpa using List.find?_some found
        rw [List.inj_on_of_nodup_map (nodup_nodesOf [] discoveries).1
          (List.mem_of_find?_eq_some found) member same]
  · exact List.mem_of_find?_eq_some

theorem nodesOf_sublist (seen : List String) :
    (nodesOf seen discoveries).Sublist discoveries := by
  induction discoveries generalizing seen with
  | nil => exact List.Sublist.slnil
  | cons discovery discoveries inductionHypothesis =>
      rw [nodesOf]
      split
      · exact (inductionHypothesis seen).cons discovery
      · exact (inductionHypothesis _).cons_cons discovery

theorem contains_of_mem (root : Path) (moment : Timestamp)
    (member : node ∈ nodesOf [] discoveries) :
    (ofDiscoveries root moment discoveries).packages.contains node.name := by
  rw [Dict.contains, node_eq, mem_nodesOf_iff.mp member]
  rfl

/-- The edges of a name are those of the node with that name. -/
theorem get?_edges_iff (root : Path) (moment : Timestamp) {listed : List String} :
    (ofDiscoveries root moment discoveries).edges.get? name = some listed ↔
      listed.isEmpty = false ∧ ∃ node ∈ nodesOf [] discoveries,
        node.name = name ∧ destinations (nodesOf [] discoveries) node = listed :=
  get?_tableOf_iff (nodup_nodesOf [] discoveries).1

/-- An edge leads from a node to another one exactly if the packages do. -/
theorem hasEdge_iff (root : Path) (moment : Timestamp)
    (member : node ∈ nodesOf [] discoveries) :
    (ofDiscoveries root moment discoveries).HasEdge node.name name ↔
      name ≠ node.name ∧ ∃ other, other.name = name ∧
        LeadsTo (nodesOf [] discoveries) node other := by
  rw [← mem_destinations_iff, HasEdge]
  simp only [get?_edges_iff]
  constructor
  · rintro ⟨_, ⟨-, found, here, same, rfl⟩, listed⟩
    rwa [List.inj_on_of_nodup_map (nodup_nodesOf [] discoveries).1 here member same]
      at listed
  · intro listed
    refine ⟨_, ⟨?_, node, member, rfl, rfl⟩, listed⟩
    rw [List.isEmpty_eq_false_iff]
    exact List.ne_nil_of_mem listed

/-- Where no two packages lie in one directory, the first one in a directory is the
only one. -/
theorem find_liesIn_iff
    (apart : nodes.Pairwise fun first second => liesIn second.directory first = false) :
    nodes.find? (liesIn directory) = some node ↔
      node ∈ nodes ∧ liesIn directory node := by
  refine ⟨fun first => ⟨List.mem_of_find?_eq_some first, List.find?_some first⟩, ?_⟩
  rintro ⟨member, here⟩
  induction nodes with
  | nil => cases member
  | cons first rest inductionHypothesis =>
      obtain ⟨alone, apart⟩ := List.pairwise_cons.mp apart
      rcases List.mem_cons.mp member with rfl | later
      · exact List.find?_cons_of_pos here
      · have other : liesIn directory first = false := by
          have different := alone node later
          rw [liesIn, Path.sameAs, beq_iff_eq] at here
          rwa [liesIn, Path.sameAs, here] at different
        rw [List.find?_cons_of_neg (by simp [other])]
        exact inductionHypothesis apart later

/-- The nodes of the graph are what was found first under every name, and all its
edges and declared paths lead from one node to another that a declaration or a use
leads to.  No such edge is missing, and the graph has no memory. -/
theorem edges_lead_on (root : Path) (moment : Timestamp)
    (discoveries : List Discovery) :
    let graph := ofDiscoveries root moment discoveries
    let nodes := nodesOf [] discoveries
    (nodes.Sublist discoveries ∧
      (∀ node, node ∈ nodes ↔ discoveries.find? (·.name = node.name) = some node) ∧
      (∀ name, graph.packages.get? name =
        (nodes.find? (·.name = name)).map nodeOf) ∧
      (nodes.Pairwise (fun first second => liesIn second.directory first = false) →
        ∀ directory node, nodes.find? (liesIn directory) = some node ↔
          node ∈ nodes ∧ liesIn directory node)) ∧
    (∀ origin listed, graph.edges.get? origin = some listed →
      graph.packages.contains origin ∧ listed ≠ [] ∧ listed.Pairwise (· < ·) ∧
        origin ∉ listed ∧
          ∀ destination ∈ listed, graph.packages.contains destination) ∧
    (∀ node ∈ nodes, ∀ other ∈ nodes, node ≠ other →
      (graph.HasEdge node.name other.name ↔ LeadsTo nodes node other)) ∧
    (∀ origin paths destination path,
      graph.pathDeclarations.get? origin = some paths →
        paths.get? destination = some path → origin ≠ destination →
          graph.HasEdge origin destination) ∧
    ∀ options previous,
      (ProjectMap.updated options root moment discoveries previous).graph =
        graph := by
  intro graph nodes
  have distinct := (nodup_nodesOf [] discoveries).1
  refine ⟨⟨nodesOf_sublist [], fun node => mem_nodesOf_iff, fun name => ?_,
    fun apart _ _ => find_liesIn_iff apart⟩, ?_, ?_, ?_, fun _ _ => rfl⟩
  · rw [find_nodesOf List.not_mem_nil]
    exact node_eq root moment discoveries name
  · intro origin listed found
    obtain ⟨filled, node, member, rfl, rfl⟩ := (get?_edges_iff root moment).mp found
    refine ⟨contains_of_mem root moment member, List.isEmpty_eq_false_iff.mp filled,
      destinations_ascend, fun self => (mem_destinations_iff.mp self).1 rfl,
      fun destination there => ?_⟩
    obtain ⟨-, other, rfl, leads⟩ := mem_destinations_iff.mp there
    exact contains_of_mem root moment leads.mem
  · intro node member other there different
    have names : other.name ≠ node.name := fun same =>
      different (List.inj_on_of_nodup_map distinct member there same.symm)
    rw [hasEdge_iff root moment member, and_iff_right names]
    constructor
    · rintro ⟨found, same, leads⟩
      rwa [List.inj_on_of_nodup_map distinct leads.mem there same] at leads
    · exact fun leads => ⟨other, rfl, leads⟩
  · intro origin paths destination path table held different
    obtain ⟨-, node, member, rfl, rfl⟩ := (get?_tableOf_iff distinct).mp table
    exact (hasEdge_iff root moment member).mpr
      ⟨different.symm, leads_of_declaredPaths held⟩

/-- A package that declares another one and itself by their directories, and uses a
product of a third one by the name of its directory. -/
def sampleUser : Discovery where
  name := "App"
  directory := ⟨"/p/App"⟩
  manifest := ⟨"/p/App/Package.swift"⟩
  package :=
    { targets := [{ name := "T", dependencies := [.product "X" "extra"] }]
      declarations := [{ path := some "../Core" }, { path := some "." }] }

/-- A package that says nothing. -/
def sampleLeaf (name directory : String) : Discovery where
  name := name
  directory := ⟨directory⟩
  manifest := (⟨directory⟩ : Path).child "Package.swift"
  package := {}

/-- The packages of a project, one of them found twice. -/
def sampleProject : List Discovery :=
  [sampleUser, sampleLeaf "Kernel" "/p/Core", sampleLeaf "Addons" "/p/Extra",
    sampleLeaf "Kernel" "/p/Old"]

theorem edges_lead_on_sample :
    let graph := ofDiscoveries ⟨"/p"⟩ (.ofMilliseconds 0) sampleProject
    (∀ node, (nodesOf [] sampleProject).find? (liesIn ⟨"/p/App/../Core"⟩) = some node ↔
      node ∈ nodesOf [] sampleProject ∧ liesIn ⟨"/p/App/../Core"⟩ node) ∧
    "App" ∉ ["Addons", "Kernel"] ∧
    graph.HasEdge "App" "Addons" ∧ ¬graph.HasEdge "Kernel" "App" ∧
    graph.HasEdge "App" "Kernel" := by
  obtain ⟨⟨-, -, -, places⟩, listed, edges, paths, -⟩ :=
    edges_lead_on ⟨"/p"⟩ (.ofMilliseconds 0) sampleProject
  refine ⟨places (by decide +kernel) _, ?_, ?_, ?_, ?_⟩
  · exact (listed "App" ["Addons", "Kernel"] (by decide +kernel)).2.2.2.1
  · refine (edges sampleUser (by decide +kernel) (sampleLeaf "Addons" "/p/Extra")
      (by decide +kernel) (by decide)).mpr
        (Or.inr ⟨("X", "extra"), by decide, .named ?_ (by decide +kernel)⟩)
    intro declaration member known
    exact absurd known (by revert declaration; decide +kernel)
  · intro back
    rcases (edges (sampleLeaf "Kernel" "/p/Core") (by decide +kernel) sampleUser
      (by decide +kernel) (by decide)).mp back with ⟨_, none, -⟩ | ⟨_, none, -⟩ <;>
        cases none
  · exact paths "App" (declaredPaths (nodesOf [] sampleProject) sampleUser) "Kernel"
      "../Core" (by decide +kernel) (by decide +kernel) (by decide)

/-! ### Cycles -/

theorem edge_entries (graph : PackageGraph) :
    Neighbours.Edge graph.edges.entries = graph.HasEdge := by
  funext origin destination
  rw [Neighbours.Edge, Neighbours.of, HasEdge, Dict.get?]
  cases Dict.lookup origin graph.edges.entries <;> simp

/-- An edge closes a cycle exactly if it leads from a package to itself or the edges
of the table lead back from its end.  The cycle goes over the new edge and then back
by a shortest way, which passes no package twice. -/
theorem cycles_are_shortest (graph : PackageGraph) (origin destination : String) :
    ((graph.cycleThrough? origin destination).isSome ↔
      origin = destination ∨ TransGen graph.HasEdge destination origin) ∧
    ∀ cycle, graph.cycleThrough? origin destination = some cycle →
      cycle.head? = some origin ∧ cycle[1]? = some destination ∧
      cycle.getLast? = some origin ∧
      ∃ back, cycle = origin :: back ∧
        IsShortest graph.HasEdge destination origin back ∧ back.Nodup := by
  refine ⟨?_, fun cycle found => ?_⟩
  · rw [cycleThrough?, Option.isSome_map, shortestPath?,
      Neighbours.isSome_shortestPath?, Neighbours.Leads, edge_entries]
    exact Relation.reflTransGen_iff_eq_or_transGen
  · obtain ⟨back, way, rfl⟩ := Option.map_eq_some_iff.mp found
    have shortest := Neighbours.isShortest_of_shortestPath? way
    rw [edge_entries] at shortest
    refine ⟨rfl, ?_, ?_, back, rfl, shortest, shortest.nodup⟩
    · rw [List.getElem?_cons_succ, ← List.head?_eq_getElem?]
      exact shortest.first
    · rw [List.getLast?_cons_of_ne_nil shortest.ne_nil]
      exact shortest.last

/-- A stored graph with two circles, an edge from a package to itself, packages that
are listed twice and out of order, and one that is listed without an entry. -/
def storedSample : PackageGraph where
  edges := Dict.ofList [("App", ["Kit", "App", "Core", "Kit"]), ("Core", ["Gone", "Kit"]),
    ("Kit", ["Gone", "Core", "App"])]

theorem cycles_are_shortest_sample :
    IsShortest storedSample.HasEdge "Core" "App" ["Core", "Kit", "App"] ∧
    (storedSample.cycleThrough? "Gone" "Gone").isSome ∧
    ¬TransGen storedSample.HasEdge "Gone" "App" := by
  refine ⟨?_, (cycles_are_shortest _ _ _).1.mpr (Or.inl rfl), fun back => ?_⟩
  · obtain ⟨-, -, -, back, same, shortest, -⟩ :=
      (cycles_are_shortest storedSample "App" "Core").2
        ["App", "Core", "Kit", "App"] (by decide +kernel)
    cases same
    exact shortest
  · have found := (cycles_are_shortest storedSample "App" "Gone").1.mpr (Or.inr back)
    exact absurd found (by decide +kernel)

end PackageGraph

end PackageLayers.Project

/-
Purpose: The path that a search finds is a shortest one.
Main exports: IsWay, IsShortest, MeetsCycle, IsWay.nodup, IsShortest.nodup,
  descends_iff_way, Neighbours.isShortest_of_shortestPath?,
  Graph.isShortest_of_shortestPath?, Graph.paths_are_shortest
-/
import Mathlib.Data.List.Chain
import PackageLayers.Proofs.Graph.Heights
import PackageLayers.Proofs.Graph.Searches

namespace PackageLayers

open Relation (ReflTransGen TransGen)

/-!
A way lists the names along a chain of edges, both ends included.  It repeats a
name only if the chain comes to a cycle, and a shortest way never does, since what
lies between could be left out.

The trails that a search has queued are shortest ways, in the order of their
lengths, and no two lengths differ by more than one.  All that can be reached by
a way no longer than the first trail was seen: the name before the end of such a
way is reached by a shorter one, so it is queued no more and its neighbours were
seen.  A name that is new among the neighbours of the first trail therefore has
no way shorter than the one over that trail.
-/

/-- Whether names are those along a chain of edges from a name to another. -/
structure IsWay (edge : String → String → Prop) (start goal : String)
    (names : List String) : Prop where
  chain : names.IsChain edge
  first : names.head? = some start
  last : names.getLast? = some goal

/-- Whether no way between two names is shorter. -/
structure IsShortest (edge : String → String → Prop) (start goal : String)
    (names : List String) : Prop extends IsWay edge start goal names where
  least : ∀ other, IsWay edge start goal other → names.length ≤ other.length

/-- Whether a chain of edges, which may be empty, leads from a name to a cycle. -/
def MeetsCycle (edge : String → String → Prop) (name : String) : Prop :=
  ∃ other, ReflTransGen edge name other ∧ TransGen edge other other

/-! ### Ways from end to end -/

section

variable {edge : String → String → Prop} {start goal name next : String}
  {names before : List String}

theorem IsWay.single (edge : String → String → Prop) (name : String) :
    IsWay edge name name [name] where
  chain := List.isChain_singleton name
  first := rfl
  last := rfl

theorem IsWay.ne_nil (way : IsWay edge start goal names) : names ≠ [] := by
  rintro rfl
  cases way.first

theorem IsShortest.single (edge : String → String → Prop) (name : String) :
    IsShortest edge name name [name] where
  toIsWay := IsWay.single edge name
  least _ way := List.length_pos_iff.mpr way.ne_nil

/-- A way with one more edge in front of it. -/
theorem IsWay.cons (step : edge name start) (way : IsWay edge start goal names) :
    IsWay edge name goal (name :: names) where
  chain := way.chain.cons fun first member => by
    rw [way.first, Option.mem_some_iff] at member
    exact member ▸ step
  first := rfl
  last := by
    rw [List.getLast?_cons_of_ne_nil way.ne_nil]
    exact way.last

/-- A way with one more edge behind it. -/
theorem IsWay.snoc (way : IsWay edge start goal names) (step : edge goal next) :
    IsWay edge start next (names ++ [next]) where
  chain := way.chain.append (List.isChain_singleton next) fun last member other
      same => by
    rw [way.last, Option.mem_some_iff] at member
    rw [List.head?_cons, Option.mem_some_iff] at same
    exact member ▸ same ▸ step
  first := by
    rw [List.head?_append_of_ne_nil _ way.ne_nil]
    exact way.first
  last := List.getLast?_concat

/-- A way is a single name or begins with an edge. -/
theorem IsWay.cons_cases (way : IsWay edge start goal (name :: names)) :
    name = start ∧ ((names = [] ∧ goal = start) ∨
      ∃ next, edge start next ∧ IsWay edge next goal names) := by
  obtain ⟨chain, first, last⟩ := way
  obtain rfl : name = start := Option.some.inj first
  refine ⟨rfl, ?_⟩
  cases names with
  | nil => exact Or.inl ⟨rfl, (Option.some.inj last).symm⟩
  | cons next names =>
      rw [List.isChain_cons_cons] at chain
      exact Or.inr ⟨next, chain.1, chain.2, rfl, last⟩

/-- A way is a single name or ends with an edge. -/
theorem IsWay.snoc_cases (way : IsWay edge start goal (before ++ [name])) :
    name = goal ∧ ((before = [] ∧ goal = start) ∨
      ∃ last, IsWay edge start last before ∧ edge last goal) := by
  obtain ⟨chain, first, last⟩ := way
  rw [List.getLast?_concat] at last
  obtain rfl : name = goal := Option.some.inj last
  refine ⟨rfl, ?_⟩
  rcases List.eq_nil_or_concat' before with rfl | ⟨front, prior, rfl⟩
  · exact Or.inl ⟨rfl, Option.some.inj first⟩
  · rw [List.head?_append_of_ne_nil _ (by simp)] at first
    rw [List.isChain_append] at chain
    refine Or.inr ⟨prior, ⟨chain.1, first, List.getLast?_concat⟩, ?_⟩
    exact chain.2.2 prior (by simp) name (by simp)

/-! ### Ways and chains -/

/-- All names on a way are led to. -/
theorem IsWay.leads_of_mem (way : IsWay edge start goal names)
    (member : name ∈ names) : ReflTransGen edge start name := by
  induction names generalizing start with
  | nil => cases member
  | cons first names inductionHypothesis =>
      obtain ⟨rfl, ⟨rfl, -⟩ | ⟨next, step, rest⟩⟩ := way.cons_cases
      · rw [List.mem_singleton] at member
        exact member ▸ ReflTransGen.refl
      · rcases List.mem_cons.mp member with rfl | later
        · exact ReflTransGen.refl
        · exact (inductionHypothesis rest later).head step

theorem IsWay.leads (way : IsWay edge start goal names) :
    ReflTransGen edge start goal :=
  way.leads_of_mem (List.mem_of_getLast? way.last)

/-- A way that does not come to a cycle repeats no name. -/
theorem IsWay.nodup (free : ¬MeetsCycle edge start)
    (way : IsWay edge start goal names) : names.Nodup := by
  induction names generalizing start with
  | nil => exact List.nodup_nil
  | cons first names inductionHypothesis =>
      obtain ⟨rfl, ⟨rfl, -⟩ | ⟨next, step, rest⟩⟩ := way.cons_cases
      · exact List.nodup_singleton first
      · refine List.nodup_cons.mpr ⟨fun again => ?_, inductionHypothesis ?_ rest⟩
        · refine free ⟨first, ReflTransGen.refl, ?_⟩
          exact TransGen.head'_iff.mpr ⟨next, step, rest.leads_of_mem again⟩
        · rintro ⟨other, leads, cycle⟩
          exact free ⟨other, leads.head step, cycle⟩

/-- From any name on a way the rest of the way leads on to its end. -/
theorem IsWay.from_mem (way : IsWay edge start goal names) (member : name ∈ names) :
    ∃ before after, names = before ++ name :: after ∧
      IsWay edge name goal (name :: after) := by
  obtain ⟨before, after, rfl⟩ := List.append_of_mem member
  refine ⟨before, after, rfl, ?_, rfl, ?_⟩
  · exact (List.isChain_append.mp way.chain).2.1
  · have last := way.last
    rwa [List.getLast?_append_of_ne_nil _ (List.cons_ne_nil name after)] at last

/-- A shortest way repeats no name, or what lies between could be left out. -/
theorem IsShortest.nodup (shortest : IsShortest edge start goal names) :
    names.Nodup := by
  induction names generalizing start with
  | nil => exact List.nodup_nil
  | cons first names inductionHypothesis =>
      obtain ⟨rfl, ⟨rfl, -⟩ | ⟨next, step, rest⟩⟩ := shortest.toIsWay.cons_cases
      · exact List.nodup_singleton first
      · refine List.nodup_cons.mpr ⟨fun again => ?_, inductionHypothesis ⟨rest, ?_⟩⟩
        · obtain ⟨before, after, rfl, shortcut⟩ := rest.from_mem again
          have least := shortest.least _ shortcut
          simp only [List.length_cons, List.length_append] at least
          omega
        · intro other way
          exact Nat.le_of_succ_le_succ (shortest.least _ (way.cons step))

/-- A chain of edges goes down from a name exactly if a way with as many edges
starts there. -/
theorem descends_iff_way {length : Nat} :
    Graph.Descends edge length start ↔
      ∃ goal names, IsWay edge start goal names ∧ names.length = length + 1 := by
  induction length generalizing start with
  | zero =>
      refine ⟨fun _ => ⟨start, [start], IsWay.single edge start, rfl⟩, ?_⟩
      exact fun _ => trivial
  | succ length inductionHypothesis =>
      constructor
      · rintro ⟨next, step, descends⟩
        obtain ⟨goal, names, way, long⟩ := inductionHypothesis.mp descends
        exact ⟨goal, start :: names, way.cons step, by rw [List.length_cons, long]⟩
      · rintro ⟨goal, names, way, long⟩
        cases names with
        | nil => cases long
        | cons first names =>
            rw [List.length_cons, Nat.add_right_cancel_iff] at long
            obtain ⟨rfl, ⟨rfl, -⟩ | ⟨next, step, rest⟩⟩ := way.cons_cases
            · cases long
            · exact ⟨next, step, inductionHypothesis.mpr ⟨goal, names, rest, long⟩⟩

end

/-! ### What is found is shortest -/

namespace Neighbours

variable {table : Neighbours} {start goal last name : String}
  {queue : List (String × List String)} {trail : String × List String}
  {seen before names : List String}

/-- The queue of a search and the names that it has seen. -/
structure Searching (table : Neighbours) (start : String)
    (queue : List (String × List String)) (seen : List String) : Prop where
  started : start ∈ seen
  shortest : ∀ trail ∈ queue,
    IsShortest table.Edge start trail.1 (trail.1 :: trail.2).reverse
  ordered : queue.Pairwise fun earlier later =>
    earlier.2.length ≤ later.2.length ∧ later.2.length ≤ earlier.2.length + 1
  explored : ∀ name ∈ seen, name ∈ queue.map Prod.fst ∨
    ∀ next, table.Edge name next → next ∈ seen

namespace Searching

theorem begins (table : Neighbours) (start : String) :
    Searching table start [(start, [])] [start] where
  started := List.mem_singleton_self start
  shortest trail member := by
    rw [List.mem_singleton] at member
    subst member
    exact IsShortest.single table.Edge start
  ordered := List.pairwise_singleton _ _
  explored name member := Or.inl member

/-- What a way no longer than the first trail leads to was seen. -/
theorem mem_seen (searching : Searching table start (trail :: queue) seen)
    (way : IsWay table.Edge start name names)
    (short : names.length ≤ trail.2.length + 1) : name ∈ seen := by
  induction names using List.reverseRecOn generalizing name with
  | nil => exact absurd rfl way.ne_nil
  | append_singleton before ending inductionHypothesis =>
      obtain ⟨-, ⟨-, rfl⟩ | ⟨last, shorter, step⟩⟩ := way.snoc_cases
      · exact searching.started
      · rw [List.length_append, List.length_singleton] at short
        have known := inductionHypothesis shorter (by omega)
        refine (searching.explored last known).resolve_left (fun queued => ?_) _ step
        -- Its trail would be a shortest way, shorter than the first of the queue.
        obtain ⟨other, member, rfl⟩ := List.mem_map.mp queued
        have least := (searching.shortest other member).least before shorter
        rw [List.length_reverse, List.length_cons] at least
        have later : trail.2.length ≤ other.2.length := by
          rcases List.mem_cons.mp member with rfl | behind
          · exact Nat.le_refl _
          · exact ((List.pairwise_cons.mp searching.ordered).1 other behind).1
        omega

/-- The way over the first trail to a new name is a shortest one. -/
theorem shortest_new (searching : Searching table start ((last, before) :: queue) seen)
    (new : name ∈ fresh seen (table.of last)) :
    IsShortest table.Edge start name (name :: last :: before).reverse := by
  obtain ⟨step, unseen⟩ := mem_fresh.mp new
  have way := (searching.shortest _ List.mem_cons_self).toIsWay.snoc step
  rw [← List.reverse_cons] at way
  refine ⟨way, fun other alsoWay => ?_⟩
  by_contra shorter
  refine unseen (searching.mem_seen alsoWay ?_)
  rw [List.length_reverse, List.length_cons, List.length_cons] at shorter
  show other.length ≤ before.length + 1
  omega

/-- The first trail is gone on with. -/
theorem step (searching : Searching table start ((last, before) :: queue) seen) :
    let found := fresh seen (table.of last)
    Searching table start
      (queue ++ found.map fun name => (name, last :: before)) (seen ++ found) := by
  intro found
  obtain ⟨near, ordered⟩ := List.pairwise_cons.mp searching.ordered
  refine ⟨List.mem_append_left _ searching.started, ?_, ?_,
    explored_step searching.explored⟩
  · intro trail member
    rcases List.mem_append.mp member with old | new
    · exact searching.shortest trail (List.mem_cons_of_mem _ old)
    · obtain ⟨name, isNew, rfl⟩ := List.mem_map.mp new
      exact searching.shortest_new isNew
  · refine List.pairwise_append.mpr ⟨ordered, ?_, ?_⟩
    · rw [List.pairwise_map]
      exact List.pairwise_of_forall fun _ _ => ⟨Nat.le_refl _, Nat.le_succ _⟩
    · intro trail old other new
      obtain ⟨name, -, rfl⟩ := List.mem_map.mp new
      obtain ⟨least, most⟩ := near trail old
      rw [List.length_cons]
      exact ⟨most, Nat.succ_le_succ least⟩

theorem isShortest (searching : Searching table start queue seen) {rounds : Nat}
    (found : search table goal rounds queue seen = some names) :
    IsShortest table.Edge start goal names := by
  induction rounds generalizing queue seen with
  | zero => cases found
  | succ rounds inductionHypothesis =>
      cases queue with
      | nil => cases found
      | cons trail queue =>
          obtain ⟨last, before⟩ := trail
          rw [search] at found
          split at found
          · rename_i ends
            cases found
            exact searching.shortest_new (List.contains_iff_mem.mp ends)
          · exact inductionHypothesis searching.step found

end Searching

/-- A path that is found is a shortest way. -/
theorem isShortest_of_shortestPath? (found : table.shortestPath? start goal = some names) :
    IsShortest table.Edge start goal names := by
  rw [shortestPath?] at found
  split at found
  · rename_i same
    subst same
    cases found
    exact IsShortest.single table.Edge start
  · exact (Searching.begins table start).isShortest found

end Neighbours

namespace Graph

variable {graph : Graph} {origin destination : String}

theorem isShortest_of_shortestPath? {path : List String}
    (found : graph.shortestPath? origin destination = some path) :
    IsShortest graph.Edge origin destination path := by
  rw [← edge_edges]
  exact Neighbours.isShortest_of_shortestPath? found

/-- Between two different names a path is found exactly if the one is a target from
which edges lead to the other.  It is a shortest one, and passes no target twice. -/
theorem paths_are_shortest (graph : Graph) (different : origin ≠ destination) :
    ((graph.shortestPath? origin destination).isSome ↔
      graph.hasTarget origin ∧ ReflTransGen graph.Edge origin destination) ∧
    ∀ path, graph.shortestPath? origin destination = some path →
      IsShortest graph.Edge origin destination path ∧ path.Nodup := by
  refine ⟨?_, fun path found => ?_⟩
  · rw [← reaches, reaches_iff]
    refine ⟨fun leads => ⟨?_, leads⟩, And.right⟩
    obtain ⟨next, step, -⟩ := leads.cases_head.resolve_left different
    exact hasTarget_of_edge step
  · have shortest := isShortest_of_shortestPath? found
    exact ⟨shortest, shortest.nodup⟩

/-- A package with two circles of targets, a target that is listed twice, and two
ways to its last target. -/
def circlesSample : Manifest.Package where
  targets := [
    { name := "App", dependencies := [.bare "Kit", .byName "Kit", .target "Loop"] },
    { name := "Loop", dependencies := [.bare "Loop", .bare "App", .byName "Core"] },
    { name := "Kit", dependencies := [.target "Tool", .product "App" "other"] },
    { name := "Tool", dependencies := [.bare "Core"] },
    { name := "Core", dependencies := [.product "App" "other"] }]

theorem paths_are_shortest_sample :
    let graph := ofPackage circlesSample ⟨"Package.swift"⟩ 0
    "App" ≠ "Core" ∧ "Core" ≠ "App" ∧
    IsShortest graph.Edge "App" "Core" ["App", "Loop", "Core"] ∧
    ¬ReflTransGen graph.Edge "Core" "App" := by
  intro graph
  refine ⟨by decide, by decide, ?_, fun leads => ?_⟩
  · exact ((paths_are_shortest graph (by decide)).2 _ (by decide +kernel)).1
  · have found := (paths_are_shortest graph (by decide)).1.mpr
      ⟨by decide +kernel, leads⟩
    exact absurd found (by decide +kernel)

end Graph

end PackageLayers

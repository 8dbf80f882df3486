/-
Purpose: A search finds a way exactly if there is one.
Main exports: Neighbours.Edge, Neighbours.Leads, Neighbours.isSome_shortestPath?,
  Graph.Edge, Graph.reaches_iff
-/
import Mathlib.Data.Finset.Card
import Mathlib.Data.Finset.Dedup
import Mathlib.Logic.Relation
import Mathlib.Tactic.Common
import PackageLayers.Graph.Basic
import PackageLayers.Proofs.Tables

namespace PackageLayers

open Relation (ReflTransGen)

/-!
A way in a table of neighbours is a chain of its edges.  Whatever is queued lies
on a way from the start, so what is found is led to.  In the other direction all
that was seen is queued or has only seen neighbours; when the queue is empty the
seen names are closed under edges, and no way leads out of them.

Every round takes one trail off the queue and adds one for each name that is new,
so trails and unseen names together grow fewer by one, and the rounds do not run
out before the queue does.
-/

namespace Neighbours

variable {table : Neighbours} {start goal : String}

/-- Whether a name is listed as a neighbour of another. -/
def Edge (table : Neighbours) (origin destination : String) : Prop :=
  destination ∈ table.of origin

/-- Whether a chain of edges, which may be empty, leads from a name to another. -/
def Leads (table : Neighbours) : String → String → Prop :=
  ReflTransGen table.Edge

theorem mem_fresh {seen names : List String} {name : String} :
    name ∈ fresh seen names ↔ name ∈ names ∧ name ∉ seen := by
  induction names generalizing seen with
  | nil => simp [fresh]
  | cons first names inductionHypothesis =>
      rw [fresh]
      split
      · rename_i known
        rw [inductionHypothesis, List.mem_cons]
        have member : first ∈ seen := by simpa using known
        constructor
        · exact fun ⟨later, unseen⟩ => ⟨Or.inr later, unseen⟩
        · rintro ⟨rfl | later, unseen⟩
          · exact absurd member unseen
          · exact ⟨later, unseen⟩
      · rename_i unknown
        have new : first ∉ seen := by simpa using unknown
        rw [List.mem_cons, inductionHypothesis]
        grind

theorem nodup_fresh (seen names : List String) : (fresh seen names).Nodup := by
  induction names generalizing seen with
  | nil => exact List.nodup_nil
  | cons first names inductionHypothesis =>
      rw [fresh]
      split
      · exact inductionHypothesis seen
      · refine List.nodup_cons.mpr ⟨?_, inductionHypothesis _⟩
        rw [mem_fresh]
        exact fun later => later.2 List.mem_cons_self

/-! ### What is found is led to -/

theorem leads_of_search {rounds : Nat} {queue : List (String × List String)}
    {seen : List String} (reached : ∀ trail ∈ queue, table.Leads start trail.1)
    (found : (search table goal rounds queue seen).isSome) :
    table.Leads start goal := by
  induction rounds generalizing queue seen with
  | zero => cases found
  | succ rounds inductionHypothesis =>
      cases queue with
      | nil => cases found
      | cons trail queue =>
          obtain ⟨last, before⟩ := trail
          have there : table.Leads start last := reached _ List.mem_cons_self
          rw [search] at found
          split at found
          · rename_i ends
            have member : goal ∈ fresh seen (table.of last) := by simpa using ends
            exact there.tail (mem_fresh.mp member).1
          · refine inductionHypothesis ?_ found
            intro other member
            rcases List.mem_append.mp member with queued | new
            · exact reached other (List.mem_cons_of_mem _ queued)
            · obtain ⟨name, next, rfl⟩ := List.mem_map.mp new
              exact there.tail (mem_fresh.mp next).1

/-! ### What is led to is found -/

/-- How many names that are listed as neighbours were not seen. -/
def unseen (table : Neighbours) (seen : List String) : Nat :=
  ((table.flatMap Prod.snd).toFinset \ seen.toFinset).card

theorem listed_of_edge {origin destination : String}
    (edge : table.Edge origin destination) :
    destination ∈ table.flatMap Prod.snd := by
  rw [Edge, of] at edge
  cases found : Dict.lookup origin table with
  | none =>
      rw [found] at edge
      cases edge
  | some names =>
      rw [found] at edge
      exact List.mem_flatMap.mpr ⟨_, Dict.mem_of_lookup found, edge⟩

/-- Names that are seen for the first time are unseen no more. -/
theorem unseen_fresh (seen : List String) (last : String) :
    table.unseen (seen ++ fresh seen (table.of last)) +
        (fresh seen (table.of last)).length =
      table.unseen seen := by
  have new : (fresh seen (table.of last)).toFinset ⊆
      (table.flatMap Prod.snd).toFinset \ seen.toFinset := by
    intro name member
    obtain ⟨next, other⟩ := mem_fresh.mp (List.mem_toFinset.mp member)
    rw [Finset.mem_sdiff, List.mem_toFinset, List.mem_toFinset]
    exact ⟨listed_of_edge next, other⟩
  have split : (table.flatMap Prod.snd).toFinset \
        (seen ++ fresh seen (table.of last)).toFinset =
      ((table.flatMap Prod.snd).toFinset \ seen.toFinset) \
        (fresh seen (table.of last)).toFinset := by
    rw [List.toFinset_append]
    exact (sdiff_sdiff _ _ _).symm
  rw [unseen, split, ← List.toFinset_card_of_nodup (nodup_fresh seen _)]
  exact Finset.card_sdiff_add_card_eq_card new

theorem not_leads_of_closed {seen : List String} (started : start ∈ seen)
    (missing : goal ∉ seen)
    (closed : ∀ name ∈ seen, ∀ next, table.Edge name next → next ∈ seen) :
    ¬table.Leads start goal := by
  intro way
  refine missing ?_
  clear missing
  induction way with
  | refl => exact started
  | tail _ edge inductionHypothesis => exact closed _ inductionHypothesis _ edge

/-- A trail that is taken off the queue has its neighbours seen. -/
theorem explored_step {last : String} {before : List String}
    {queue : List (String × List String)} {seen : List String}
    (explored : ∀ name ∈ seen, name ∈ ((last, before) :: queue).map Prod.fst ∨
      ∀ next, table.Edge name next → next ∈ seen) :
    let found := fresh seen (table.of last)
    ∀ name ∈ seen ++ found,
      name ∈ (queue ++ found.map fun name => (name, last :: before)).map Prod.fst ∨
        ∀ next, table.Edge name next → next ∈ seen ++ found := by
  intro found name member
  simp only [List.map_append, List.map_map, List.mem_append]
  rcases List.mem_append.mp member with old | new
  · rcases explored name old with queued | open_
    · rcases List.mem_cons.mp queued with rfl | later
      · refine Or.inr fun next edge => ?_
        by_cases known : next ∈ seen
        · exact Or.inl known
        · exact Or.inr (mem_fresh.mpr ⟨edge, known⟩)
      · exact Or.inl (Or.inl later)
    · exact Or.inr fun next edge => Or.inl (open_ next edge)
  · refine Or.inl (Or.inr ?_)
    simpa [Function.comp_def] using new

theorem not_leads_of_search {rounds : Nat} {queue : List (String × List String)}
    {seen : List String} (started : start ∈ seen) (missing : goal ∉ seen)
    (explored : ∀ name ∈ seen, name ∈ queue.map Prod.fst ∨
      ∀ next, table.Edge name next → next ∈ seen)
    (enough : queue.length + table.unseen seen < rounds)
    (nothing : search table goal rounds queue seen = none) :
    ¬table.Leads start goal := by
  induction rounds generalizing queue seen with
  | zero => exact absurd enough (Nat.not_lt_zero _)
  | succ rounds inductionHypothesis =>
      cases queue with
      | nil =>
          refine not_leads_of_closed started missing fun name member => ?_
          exact (explored name member).resolve_left List.not_mem_nil
      | cons trail queue =>
          obtain ⟨last, before⟩ := trail
          have fewer := @unseen_fresh table seen last
          rw [search] at nothing
          split at nothing
          · cases nothing
          · rename_i other
            have further : goal ∉ fresh seen (table.of last) := by simpa using other
            refine inductionHypothesis (List.mem_append_left _ started) ?_ ?_ ?_
              nothing
            · rw [List.mem_append]
              exact fun either => either.elim missing further
            · exact explored_step explored
            · rw [List.length_append, List.length_map]
              rw [List.length_cons] at enough
              omega

/-- A shortest path is found exactly if a way leads to the goal. -/
theorem isSome_shortestPath? :
    (table.shortestPath? start goal).isSome ↔ table.Leads start goal := by
  rw [shortestPath?]
  split
  · rename_i same
    subst same
    exact ⟨fun _ => ReflTransGen.refl, fun _ => rfl⟩
  · rename_i different
    constructor
    · intro found
      refine leads_of_search (fun trail member => ?_) found
      rw [List.mem_singleton] at member
      subst member
      exact ReflTransGen.refl
    · intro way
      rw [Option.isSome_iff_ne_none]
      intro nothing
      have started : start ∈ [start] := List.mem_cons_self
      refine not_leads_of_search started ?_ ?_ ?_ nothing way
      · rw [List.mem_singleton]
        exact fun same => different same.symm
      · exact fun name member => Or.inl member
      · have bound : table.unseen [start] ≤ (table.flatMap Prod.snd).length :=
          (Finset.card_le_card Finset.sdiff_subset).trans
            (List.toFinset_card_le _)
        rw [List.length_singleton, rounds]
        omega

end Neighbours

/-! ### Edges between targets -/

namespace Graph

variable {graph : Graph} {origin destination : String}

/-- Whether a target lists another of the package. -/
def Edge (graph : Graph) (origin destination : String) : Prop :=
  destination ∈ graph.localDependencies origin

instance : Decidable (graph.Edge origin destination) :=
  inferInstanceAs (Decidable (destination ∈ graph.localDependencies origin))

theorem hasEdge_iff : graph.hasEdge origin destination ↔
    graph.Edge origin destination := by
  rw [hasEdge, List.contains_iff_mem, Edge]

/-- An edge leads from a target to a target, through an entry that may name
one. -/
theorem edge_iff : graph.Edge origin destination ↔
    graph.hasTarget destination ∧
      ∃ dependency ∈ graph.dependenciesOf origin,
        dependency.mayBeLocal ∧ dependency.name = destination := by
  rw [Edge, localDependencies, Neighbours.mem_fresh, List.mem_map]
  simp only [List.mem_filter, Bool.and_eq_true, List.not_mem_nil,
    not_false_eq_true, and_true]
  constructor
  · rintro ⟨dependency, ⟨member, free, known⟩, rfl⟩
    exact ⟨known, dependency, member, free, rfl⟩
  · rintro ⟨known, dependency, member, free, rfl⟩
    exact ⟨dependency, ⟨member, free, known⟩, rfl⟩

theorem hasTarget_of_edge (edge : graph.Edge origin destination) :
    graph.hasTarget origin := by
  obtain ⟨-, dependency, member, -⟩ := edge_iff.mp edge
  rw [dependenciesOf] at member
  rw [hasTarget, Dict.contains]
  cases found : graph.targets.get? origin with
  | none =>
      rw [found] at member
      cases member
  | some target => rfl

theorem of_edges (name : String) :
    graph.edges.of name = graph.localDependencies name := by
  have listed (names : List String) :
      Dict.lookup name (names.map fun name =>
          (name, graph.localDependencies name)) =
        if name ∈ names then some (graph.localDependencies name) else none := by
    induction names with
    | nil => rfl
    | cons first names inductionHypothesis =>
        rw [List.map_cons, Dict.lookup, inductionHypothesis]
        grind
  rw [Neighbours.of, edges, listed]
  split
  · rfl
  · rename_i absent
    rw [Option.getD_none, eq_comm, List.eq_nil_iff_forall_not_mem]
    intro next edge
    exact absent (Dict.mem_keys_iff.mpr (hasTarget_of_edge edge))

theorem edge_edges : graph.edges.Edge = graph.Edge := by
  funext origin destination
  rw [Neighbours.Edge, Edge, of_edges]

/-- A path between two names is found exactly if a chain of edges leads from the
one to the other. -/
theorem reaches_iff : graph.reaches origin destination ↔
    ReflTransGen graph.Edge origin destination := by
  rw [reaches, shortestPath?, Neighbours.isSome_shortestPath?, Neighbours.Leads,
    edge_edges]

end Graph

end PackageLayers

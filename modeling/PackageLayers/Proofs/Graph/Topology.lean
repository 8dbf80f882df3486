/-
Purpose: Levels are the lengths of longest ways, and the topology rises with them.
Main exports: LongestFrom, Graph.isHeight_iff_longest, Graph.exists_isHeight_iff,
  Graph.levels_longest, Graph.rising_topology, Graph.topology_rises
-/
import PackageLayers.Proofs.Graph.Layers
import PackageLayers.Proofs.Graph.Ways

namespace PackageLayers

open Relation (ReflTransGen TransGen)

/-!
A way that does not come to a cycle repeats no name, so in a package with so many
targets it has no more names than that.  Hence a target has a height exactly if no
cycle can be reached from it, and its height is the length of its longest way.

Heights do not fall along the settled and the queued.  All dependencies of a
queued target are settled, and none of them is higher than the first of the queue;
so a queued target is at most one higher than that.  What the first releases
depends on it and is no lower.
-/

/-- Whether the longest way from a name has some number of edges. -/
structure LongestFrom (edge : String → String → Prop) (start : String)
    (length : Nat) : Prop where
  reached : ∃ goal names,
    IsWay edge start goal names ∧ names.Nodup ∧ names.length = length + 1
  bound : ∀ goal names, IsWay edge start goal names → names.length ≤ length + 1

namespace Graph

section

variable {edge : String → String → Prop} {name other : String} {height : Nat}

/-! ### Heights and cycles -/

/-- Chains of every length go down from a name that leads to a cycle. -/
theorem descends_of_meetsCycle (meets : MeetsCycle edge name) (length : Nat) :
    Descends edge length name := by
  obtain ⟨other, leads, cycle⟩ := meets
  exact (descends_of_cycle cycle length).back leads

theorem IsHeight.not_meetsCycle (tall : IsHeight edge name height) :
    ¬MeetsCycle edge name :=
  fun meets => tall.2 (descends_of_meetsCycle meets _)

/-- Among the names of a list a chain with as many edges comes to a cycle. -/
theorem meetsCycle_of_descends {names : List String} (listed : name ∈ names)
    (inside : ∀ origin next, edge origin next → next ∈ names)
    (descends : Descends edge names.length name) : MeetsCycle edge name := by
  obtain ⟨goal, way, isWay, long⟩ := descends_iff_way.mp descends
  by_contra free
  have part : way ⊆ names := by
    intro other member
    rcases ReflTransGen.cases_tail (isWay.leads_of_mem member) with rfl | ⟨_, _, step⟩
    · exact listed
    · exact inside _ _ step
  have short := (List.subperm_of_subset (isWay.nodup free) part).length_le
  omega

/-- The height of a name is the number of edges on a longest way. -/
theorem isHeight_iff_longest :
    IsHeight edge name height ↔ LongestFrom edge name height := by
  constructor
  · intro tall
    obtain ⟨goal, names, way, long⟩ := descends_iff_way.mp tall.1
    refine ⟨⟨goal, names, way, way.nodup tall.not_meetsCycle, long⟩, ?_⟩
    intro other longer alsoWay
    have positive := List.length_pos_iff.mpr alsoWay.ne_nil
    have descends : Descends edge (longer.length - 1) name :=
      descends_iff_way.mpr ⟨other, longer, alsoWay, by omega⟩
    have most := tall.le_of_descends descends
    omega
  · rintro ⟨⟨goal, names, way, -, long⟩, bound⟩
    refine ⟨descends_iff_way.mpr ⟨goal, names, way, long⟩, fun longer => ?_⟩
    obtain ⟨other, more, alsoWay, same⟩ := descends_iff_way.mp longer
    have most := bound other more alsoWay
    omega

/-- A name is higher than all that it leads to. -/
theorem IsHeight.lt_of_leads {low : Nat} (tall : IsHeight edge name height)
    (below : IsHeight edge other low) (leads : ReflTransGen edge name other)
    (different : other ≠ name) : low < height := by
  rcases ReflTransGen.cases_head leads with rfl | ⟨next, step, further⟩
  · exact absurd rfl different
  · have descends : Descends edge (low + 1) name :=
      ⟨next, step, below.1.back further⟩
    exact tall.le_of_descends descends

end

variable {graph : Graph} {layering : Layering} {queue : List String}
variable {name other : String}

/-- A target has a height exactly if no cycle can be reached from it. -/
theorem exists_isHeight_iff (proper : graph.Proper) (listed : name ∈ graph.order) :
    (∃ height, IsHeight graph.Edge name height) ↔ ¬MeetsCycle graph.Edge name := by
  constructor
  · rintro ⟨height, tall⟩
    exact tall.not_meetsCycle
  · intro free
    refine exists_isHeight fun descends => free (meetsCycle_of_descends listed ?_ descends)
    exact fun origin next step => (proper.listed next).mpr (edge_iff.mp step).1

/-! ### Levels -/

/-- The levels of targets that are no platform modules are their heights. -/
theorem get?_levels_plain (proper : graph.Proper) {known : List String}
    (plain : name ∉ known) {height : Nat} :
    (graph.analyze known).levels.get? name = some height ↔
      graph.hasTarget name ∧ IsHeight graph.Edge name height := by
  rw [get?_levels proper, if_neg fun platform => plain platform.2,
    get?_levels_layering proper, proper.listed]

/-- A target that is no platform module has a level exactly if no chain of edges
leads from it to a cycle, and its level is then the number of edges on a longest
way.  Targets that are platform modules are on level zero, and no other name has a
level.  Without cycles, a target that can be reached from another is lower. -/
theorem levels_longest (package : Manifest.Package) (manifest : Path)
    (modified : Nat) (known : List String) :
    let graph := ofPackage package manifest modified
    let levels := (graph.analyze known).levels
    (∀ name, graph.hasTarget name → name ∉ known →
      (levels.contains name ↔ ¬MeetsCycle graph.Edge name) ∧
      ∀ height, levels.get? name = some height →
        LongestFrom graph.Edge name height) ∧
    (∀ name, graph.hasTarget name → name ∈ known → levels.get? name = some 0) ∧
    (∀ name, ¬graph.hasTarget name → levels.get? name = none) ∧
    ((∀ name, ¬TransGen graph.Edge name name) →
      ∀ name other, graph.hasTarget name → name ∉ known → other ∉ known →
        ReflTransGen graph.Edge name other → other ≠ name →
          ∃ low high, levels.get? other = some low ∧ levels.get? name = some high ∧
            low < high) := by
  intro graph levels
  have proper : graph.Proper := ofPackage_proper package manifest modified
  have plainLevel {name : String} (plain : name ∉ known) (height : Nat) :
      levels.get? name = some height ↔
        graph.hasTarget name ∧ IsHeight graph.Edge name height :=
    get?_levels_plain proper plain
  refine ⟨fun name has plain => ⟨?_, ?_⟩, ?_, ?_, ?_⟩
  · rw [← exists_isHeight_iff proper ((proper.listed name).mpr has), Dict.contains,
      Option.isSome_iff_exists]
    simp only [plainLevel plain, has, true_and]
  · intro height level
    exact isHeight_iff_longest.mp ((plainLevel plain height).mp level).2
  · intro name has platform
    exact (get?_levels proper known name).trans (if_pos ⟨has, platform⟩)
  · intro name none
    rw [Option.eq_none_iff_forall_ne_some]
    intro height level
    have found := get?_levels proper known name
    rw [if_neg fun platform => none platform.1] at found
    have listed := ((get?_levels_layering proper).mp (found.symm.trans level)).1
    exact none ((proper.listed name).mp listed)
  · intro acyclic name other has plain plainOther leads different
    have tallOf {name : String} (has : graph.hasTarget name) :
        ∃ height, IsHeight graph.Edge name height := by
      refine (exists_isHeight_iff proper ((proper.listed name).mpr has)).mpr ?_
      rintro ⟨other, -, cycle⟩
      exact acyclic other cycle
    have hasOther : graph.hasTarget other := by
      rcases ReflTransGen.cases_tail leads with rfl | ⟨_, _, step⟩
      · exact has
      · exact (edge_iff.mp step).1
    obtain ⟨high, tall⟩ := tallOf has
    obtain ⟨low, below⟩ := tallOf hasOther
    exact ⟨low, high, (plainLevel plainOther low).mpr ⟨hasOther, below⟩,
      (plainLevel plain high).mpr ⟨has, tall⟩, tall.lt_of_leads below leads different⟩

/-- A library under an application and a target that is called like a platform
module; a second declaration of the library does not count. -/
def stackSample : Manifest.Package :=
  { targets := [
      { name := "App", dependencies := [.bare "Core", .byName "Core"] },
      { name := "Core", dependencies := [.bare "Log", .product "App" "Other"] },
      { name := "Combine", dependencies := [.target "App"] },
      { name := "Core", dependencies := [.bare "App"] }] }

theorem levels_longest_sample :
    let graph := ofPackage stackSample ⟨"Package.swift"⟩ 0
    let levels := (graph.analyze ["Combine"]).levels
    LongestFrom graph.Edge "App" 1 ∧ levels.get? "Combine" = some 0 ∧
      ∃ low high, levels.get? "Core" = some low ∧ levels.get? "App" = some high ∧
        low < high := by
  intro graph levels
  obtain ⟨plain, pinned, -, lower⟩ :=
    levels_longest stackSample ⟨"Package.swift"⟩ 0 ["Combine"]
  have app : graph.hasTarget "App" := by decide +kernel
  have step : graph.Edge "App" "Core" := by decide +kernel
  -- With no platform modules all targets have a level, so there is no cycle.
  have free := (levels_longest stackSample ⟨"Package.swift"⟩ 0 []).1
  have all : ∀ name ∈ graph.order, (graph.analyze []).levels.contains name := by
    decide +kernel
  have acyclic (name : String) : ¬TransGen graph.Edge name name := by
    intro cycle
    obtain ⟨next, first, -⟩ := TransGen.head'_iff.mp cycle
    have has : graph.hasTarget name := hasTarget_of_edge first
    have listed := ((ofPackage_proper stackSample ⟨"Package.swift"⟩ 0).listed name).mpr has
    exact (free name has List.not_mem_nil).1.mp (all name listed)
      ⟨name, ReflTransGen.refl, cycle⟩
  refine ⟨(plain "App" app (by decide)).2 1 (by decide +kernel), ?_, ?_⟩
  · exact pinned "Combine" (by decide +kernel) (by decide)
  · exact lower acyclic "App" "Core" app (by decide) (by decide)
      (ReflTransGen.single step) (by decide)

/-! ### The topology -/

/-- Whether chains of all lengths that go down from a name go down from another. -/
def NoHigher (edge : String → String → Prop) (name other : String) : Prop :=
  ∀ length, Descends edge length name → Descends edge length other

/-- What depends on the highest of some names is no lower than what depends on
these names only. -/
theorem noHigher_of_edge {edge : String → String → Prop} {top : String}
    (below : ∀ next, edge name next → NoHigher edge next top)
    (step : edge other top) : NoHigher edge name other := by
  intro length descends
  cases length with
  | zero => trivial
  | succ length =>
      obtain ⟨next, first, further⟩ := descends
      exact ⟨top, step, below next first length further⟩

/-- Whether heights do not fall along the settled and the queued. -/
def Rising (graph : Graph) (layering : Layering) : Prop :=
  (layering.topology ++ layering.queue).Pairwise (NoHigher graph.Edge)

/-- If heights do not fall along the settled and the queued, they do not after one
more target is settled. -/
theorem Settling.rising_step (proper : graph.Proper)
    (settling : Settling graph layering) (first : layering.queue = name :: queue)
    (rising : graph.Rising layering) :
    graph.Rising (layering.settle graph.dependents name queue) := by
  obtain ⟨level, freed, settles⟩ := settling.settles proper first
  generalize layering.settle graph.dependents name queue = later at settles ⊢
  have top (next : String) (member : next ∈ later.topology) :
      NoHigher graph.Edge next name := by
    rw [Rising, first] at rising
    rcases List.mem_append.mp (settles.topology ▸ member) with before | last
    · exact (List.pairwise_append.mp rising).2.2 next before name List.mem_cons_self
    · intro length descends
      exact List.mem_singleton.mp last ▸ descends
  -- All that is settled or queued then depends on what is settled.
  have rises (other : String)
      (member : other ∈ layering.topology ++ layering.queue ++ freed)
      (last : String) (new : last ∈ freed) : NoHigher graph.Edge other last := by
    rw [← settles.places] at member
    have all := ((settles.ready proper settling).mp member).2
    exact noHigher_of_edge (fun next step => top next (all next step))
      ((settles.mem_freed last).mp new).1
  rw [Rising, settles.places]
  refine List.pairwise_append.mpr ⟨rising, ?_, fun other old last new => ?_⟩
  · refine List.pairwise_of_forall_mem_list fun other fresh last new => ?_
    exact rises other (List.mem_append_right _ fresh) last new
  · exact rises other (List.mem_append_left _ old) last new

/-- Heights do not fall along what is settled in the end. -/
theorem Settling.rising_run (proper : graph.Proper) {rounds : Nat}
    (settling : Settling graph layering) (rising : graph.Rising layering) :
    graph.Rising (layering.run graph.dependents rounds) := by
  induction rounds generalizing layering with
  | zero => exact rising
  | succ rounds inductionHypothesis =>
      rw [Layering.run]
      cases first : layering.queue with
      | nil => exact rising
      | cons name queue =>
          exact inductionHypothesis (settling.step proper first)
            (settling.rising_step proper first rising)

theorem rising_topology (proper : graph.Proper) :
    graph.layering.topology.Pairwise (NoHigher graph.Edge) := by
  have rising : graph.Rising graph.layering := by
    refine proper.settling_unsettled.rising_run proper ?_
    apply List.pairwise_of_forall_mem_list
    intro leaf member other _ length descends
    cases length with
    | zero => trivial
    | succ length =>
        obtain ⟨next, step, -⟩ := descends
        exact absurd step ((proper.mem_leaves.mp member).2 next)
  exact (List.pairwise_append.mp rising).1

/-- The topology lists the targets from which no cycle can be reached, each once,
each after all that it depends on, and so that the lengths of their longest ways
do not fall. -/
theorem topology_rises (package : Manifest.Package) (manifest : Path)
    (modified : Nat) (known : List String) :
    let graph := ofPackage package manifest modified
    let topology := (graph.analyze known).topology
    topology.Nodup ∧
    (∀ name, name ∈ topology ↔
      graph.hasTarget name ∧ ¬MeetsCycle graph.Edge name) ∧
    (∀ before name after, topology = before ++ name :: after →
      ∀ next, graph.Edge name next → next ∈ before) ∧
    topology.Pairwise fun earlier later => ∃ low high,
      LongestFrom graph.Edge earlier low ∧ LongestFrom graph.Edge later high ∧
        low ≤ high := by
  intro graph topology
  have proper : graph.Proper := ofPackage_proper package manifest modified
  have rising : topology.Pairwise (NoHigher graph.Edge) := rising_topology proper
  have tallOf {name : String} (member : name ∈ topology) :
      ∃ height, IsHeight graph.Edge name height :=
    ((mem_topology_iff proper).mp member).2
  refine ⟨nodup_topology proper, fun name => ?_, ?_, ?_⟩
  · rw [← proper.listed]
    exact (mem_topology_iff proper).trans
      (and_congr_right fun listed => exists_isHeight_iff proper listed)
  · intro before name after split next step
    have here : name ∈ topology := by
      rw [split]
      exact List.mem_append_right _ List.mem_cons_self
    have member : next ∈ topology :=
      ((mem_topology_of_next proper).mp here).2 next step
    obtain ⟨low, tall⟩ := tallOf member
    rw [split] at rising member
    refine (List.mem_append.mp member).resolve_right fun behind => ?_
    -- A dependency is lower, and what comes behind is no lower.
    have higher : Descends graph.Edge (low + 1) name := ⟨next, step, tall.1⟩
    rcases List.mem_cons.mp behind with rfl | later
    · exact tall.2 higher
    · have ordered := (List.pairwise_cons.mp (List.pairwise_append.mp rising).2.1).1
      exact tall.2 (ordered next later _ higher)
  · refine rising.imp_of_mem fun {earlier later} first second noHigher => ?_
    obtain ⟨low, tall⟩ := tallOf first
    obtain ⟨high, taller⟩ := tallOf second
    exact ⟨low, high, isHeight_iff_longest.mp tall, isHeight_iff_longest.mp taller,
      taller.le_of_descends (noHigher low tall.1)⟩

theorem topology_rises_sample :
    let graph := ofPackage stackSample ⟨"Package.swift"⟩ 0
    ¬MeetsCycle graph.Edge "App" ∧ ∃ before after,
      (graph.analyze []).topology = before ++ "App" :: after ∧ "Core" ∈ before := by
  intro graph
  obtain ⟨-, listed, behind, -⟩ := topology_rises stackSample ⟨"Package.swift"⟩ 0 []
  have split : (graph.analyze []).topology = ["Core"] ++ "App" :: ["Combine"] := by
    decide +kernel
  have step : graph.Edge "App" "Core" := by decide +kernel
  refine ⟨((listed "App").mp (by decide +kernel)).2, ["Core"], ["Combine"], split, ?_⟩
  exact behind ["Core"] "App" ["Combine"] split "Core" step

/-- A target behind a cycle is not listed, and what is listed comes level by level. -/
example :
    ((ofPackage
      { targets := [
          { name := "Tool", dependencies := [.bare "Kit", .bare "Loop"] },
          { name := "App", dependencies := [.bare "Kit"] },
          { name := "Loop", dependencies := [.bare "Loop"] },
          { name := "Kit" }, { name := "Log" }] } ⟨"Package.swift"⟩ 0).analyze
        []).topology = ["Kit", "Log", "App"] := by
  decide +kernel

end Graph

end PackageLayers

/-
Purpose: The level of a target is its height.
Main exports: Graph.Proper, Graph.ofPackage_proper, Graph.dependents_eq,
  Layering.told_foldl, Graph.Settles, Graph.Settling.step,
  Graph.level_eq_assigned
-/
import Mathlib.Data.List.Perm.Subperm
import PackageLayers.Graph.Level
import PackageLayers.Proofs.Graph.Heights
import PackageLayers.Proofs.Graph.Searches

namespace PackageLayers

/-!
The graph of a package lists every target once.  Then a target is told once of
each of its dependencies: its counter says how many of them are not settled, its
running maximum what level the settled ones ask for, and it joins the queue when
the last of them is settled.  So at every time the settled and the queued are the
targets all of whose dependencies are settled, and each of them is on the level of
its height.

When the queue is empty, a target that is not settled has a dependency that is
not, so chains of every length go down from it and it has no height.
-/

namespace Graph

/-- Whether the order of a graph lists its targets, each once. -/
structure Proper (graph : Graph) : Prop where
  distinct : graph.order.Nodup
  listed : ∀ name, name ∈ graph.order ↔ graph.hasTarget name

/-! ### Graphs of packages -/

theorem mem_firstOfEachName {seen : List String}
    {targets : List Manifest.Target} {target : Manifest.Target}
    (member : target ∈ firstOfEachName seen targets) :
    target ∈ targets ∧ target.name ∉ seen := by
  induction targets generalizing seen with
  | nil => cases member
  | cons first targets inductionHypothesis =>
      rw [firstOfEachName] at member
      split at member
      · exact ⟨List.mem_cons_of_mem _ (inductionHypothesis member).1,
          (inductionHypothesis member).2⟩
      · rename_i unknown
        rcases List.mem_cons.mp member with rfl | later
        · exact ⟨List.mem_cons_self, by simpa using unknown⟩
        · have further := inductionHypothesis later
          exact ⟨List.mem_cons_of_mem _ further.1,
            fun known => further.2 (List.mem_cons_of_mem _ known)⟩

theorem nodup_firstOfEachName (seen : List String)
    (targets : List Manifest.Target) :
    ((firstOfEachName seen targets).map Manifest.Target.name).Nodup := by
  induction targets generalizing seen with
  | nil => exact List.nodup_nil
  | cons first targets inductionHypothesis =>
      rw [firstOfEachName]
      split
      · exact inductionHypothesis seen
      · rw [List.map_cons, List.nodup_cons]
        refine ⟨fun again => ?_, inductionHypothesis _⟩
        obtain ⟨target, member, same⟩ := List.mem_map.mp again
        exact (mem_firstOfEachName member).2 (same ▸ List.mem_cons_self)

theorem order_ofPackage (package : Manifest.Package) (manifest : Path)
    (modified : Nat) :
    (ofPackage package manifest modified).order =
      (firstOfEachName [] package.targets).map Manifest.Target.name := rfl

/-- The graph of a package holds the first target of every name. -/
theorem get?_ofPackage (package : Manifest.Package) (manifest : Path)
    (modified : Nat) (name : String) :
    (ofPackage package manifest modified).targets.get? name =
      package.targets.find? (·.name == name) := by
  have first (seen : List String) (unseen : name ∉ seen)
      (targets : List Manifest.Target) :
      Dict.lookup name ((firstOfEachName seen targets).map fun target =>
          (target.name, target)) = targets.find? (·.name == name) := by
    induction targets generalizing seen with
    | nil => rfl
    | cons target targets inductionHypothesis =>
        rw [firstOfEachName, List.find?_cons]
        split
        · rename_i known
          have other : (target.name == name) = false := by
            rw [beq_eq_false_iff_ne]
            rintro rfl
            exact unseen (by simpa using known)
          rw [other, inductionHypothesis seen unseen]
        · rw [List.map_cons, Dict.lookup]
          split
          · rename_i same
            rw [beq_iff_eq.mpr same]
          · rename_i other
            rw [beq_eq_false_iff_ne.mpr other, inductionHypothesis]
            rw [List.mem_cons, not_or]
            exact ⟨fun same => other same.symm, unseen⟩
  have distinct : (((firstOfEachName [] package.targets).map fun target =>
      (target.name, target)).map Prod.fst).Nodup := by
    rw [List.map_map]
    exact nodup_firstOfEachName [] package.targets
  rw [ofPackage, Dict.get?_ofList distinct]
  exact first [] List.not_mem_nil package.targets

theorem ofPackage_proper (package : Manifest.Package) (manifest : Path)
    (modified : Nat) : (ofPackage package manifest modified).Proper where
  distinct := nodup_firstOfEachName [] package.targets
  listed name := by
    have names : (ofPackage package manifest modified).order =
        ((firstOfEachName [] package.targets).map fun target =>
          (target.name, target)).map Prod.fst := by
      rw [List.map_map]
      rfl
    have distinct := nodup_firstOfEachName [] package.targets
    rw [← order_ofPackage package manifest modified, names] at distinct
    rw [hasTarget, Dict.contains, names]
    show _ ↔ (Dict.get? (Dict.ofList _) name).isSome
    rw [Dict.get?_ofList distinct, Option.isSome_iff_ne_none, Ne,
      Dict.lookup_eq_none_iff, not_not]

/-! ### Dependents -/

variable {graph : Graph} {layering : Layering} {queue : List String}
variable {name other : String}

theorem nodup_localDependencies (graph : Graph) (name : String) :
    (graph.localDependencies name).Nodup :=
  Neighbours.nodup_fresh _ _

/-- A target that is told to its dependencies is a dependent of each. -/
theorem get?_tellDependencies (graph : Graph) (table : Dict (List String))
    (origin name : String) :
    ((graph.tellDependencies table origin).get? name).getD [] =
      (table.get? name).getD [] ++
        if graph.hasEdge origin name then [origin] else [] := by
  have told (names : List String) (distinct : names.Nodup)
      (table : Dict (List String)) :
      ((names.foldl (fun table name =>
          table.insert name ((table.get? name).getD [] ++ [origin]))
            table).get? name).getD [] =
        (table.get? name).getD [] ++ if name ∈ names then [origin] else [] := by
    induction names generalizing table with
    | nil => exact (List.append_nil _).symm
    | cons first names inductionHypothesis =>
        rw [List.nodup_cons] at distinct
        rw [List.foldl_cons, inductionHypothesis distinct.2, Dict.get?_insert]
        by_cases same : name = first
        · subst same
          rw [if_pos rfl, if_neg distinct.1, if_pos List.mem_cons_self]
          exact List.append_nil _
        · rw [if_neg same]
          simp only [List.mem_cons, same, false_or]
  rw [tellDependencies, told _ (nodup_localDependencies graph origin)]
  simp only [hasEdge, List.contains_iff_mem]

/-- The dependents of a target are the places of the order that list it. -/
theorem dependents_eq (graph : Graph) (name : String) :
    graph.dependents name =
      graph.order.filter fun origin => graph.hasEdge origin name := by
  have told (order : List String) (table : Dict (List String)) :
      ((order.foldl graph.tellDependencies table).get? name).getD [] =
        (table.get? name).getD [] ++
          order.filter fun origin => graph.hasEdge origin name := by
    induction order generalizing table with
    | nil => exact (List.append_nil _).symm
    | cons origin order inductionHypothesis =>
        rw [List.foldl_cons, inductionHypothesis, get?_tellDependencies,
          List.append_assoc, List.filter_cons]
        split <;> rfl
  have first : ((Dict.ofList (graph.order.map fun name =>
      (name, ([] : List String)))).get? name).getD [] = [] := by
    rw [Dict.ofList, Dict.get?_foldl_insert, Dict.get?_empty, Option.or_none]
    cases found : Dict.lookup name _ with
    | none => rfl
    | some value =>
        have member := List.mem_reverse.mp (Dict.mem_of_lookup found)
        obtain ⟨_, -, same⟩ := List.mem_map.mp member
        exact (congrArg Prod.snd same).symm
  rw [dependents, dependentsTable, told, first, List.nil_append]

theorem Proper.nodup_dependents (proper : graph.Proper) (name : String) :
    (graph.dependents name).Nodup := by
  rw [dependents_eq]
  exact proper.distinct.filter _

theorem Proper.mem_dependents (proper : graph.Proper) :
    other ∈ graph.dependents name ↔ graph.Edge other name := by
  rw [dependents_eq, List.mem_filter, hasEdge_iff]
  apply and_iff_right_of_imp
  intro edge
  exact (proper.listed other).mpr (hasTarget_of_edge edge)

end Graph

/-! ### Telling dependents -/

namespace Layering

variable {layering : Layering} {level : Nat} {dependent other : String}

/-- Whether a target waits for nothing more when it is told once. -/
def frees (layering : Layering) (dependent : String) : Bool :=
  (layering.remaining.get? dependent).any fun count => count - 1 == 0

/-- The level asked of a target when it is told of a dependency on some level. -/
def asks (layering : Layering) (level : Nat) (dependent : String) : Nat :=
  max ((layering.tentative.get? dependent).getD 0) (level + 1)

theorem topology_tell : (layering.tell level dependent).topology =
    layering.topology := by
  rw [tell]
  split
  · rfl
  · simp only
    split <;> rfl

theorem tentative_tell : (layering.tell level dependent).tentative =
    layering.tentative.insert dependent (layering.asks level dependent) := by
  rw [tell]
  split
  · rfl
  · simp only
    split <;> rfl

theorem remaining_tell : (layering.tell level dependent).remaining.get? other =
    if other = dependent then (layering.remaining.get? other).map (· - 1)
    else layering.remaining.get? other := by
  rw [tell]
  split
  · rename_i none
    split
    · rename_i same
      rw [same, none]
      rfl
    · rfl
  · rename_i count found
    have kept : (layering.remaining.insert dependent (count - 1)).get? other =
        if other = dependent then (layering.remaining.get? other).map (· - 1)
        else layering.remaining.get? other := by
      rw [Dict.get?_insert]
      split
      · rename_i same
        rw [same, found]
        rfl
      · rfl
    simp only
    split <;> exact kept

theorem queue_tell : (layering.tell level dependent).queue =
    layering.queue ++ if layering.frees dependent then [dependent] else [] := by
  rw [tell, frees]
  split
  · rename_i none
    rw [none]
    exact (List.append_nil _).symm
  · rename_i count found
    rw [found, Option.any_some]
    simp only [beq_iff_eq]
    split
    · rfl
    · exact (List.append_nil _).symm

theorem levels_tell : (layering.tell level dependent).levels.get? other =
    if other = dependent ∧ layering.frees dependent then
      some (layering.asks level dependent)
    else layering.levels.get? other := by
  rw [tell, frees]
  split
  · rename_i none
    rw [none]
    simp
  · rename_i count found
    rw [found, Option.any_some]
    simp only [beq_iff_eq]
    split
    · rename_i last
      simp only [Dict.get?_insert, last, and_true]
      rfl
    · rename_i more
      rw [if_neg fun both => more both.2]

/-- What is known after some targets have been told, each once: they are asked for
the level and wait for one dependency less, and those that wait for nothing more
have joined the queue on the level asked of them. -/
structure Told (level : Nat) (layering : Layering) (dependents : List String)
    (later : Layering) : Prop where
  topology : later.topology = layering.topology
  tentative : ∀ other, later.tentative.get? other =
    if other ∈ dependents then some (layering.asks level other)
    else layering.tentative.get? other
  remaining : ∀ other, later.remaining.get? other =
    if other ∈ dependents then (layering.remaining.get? other).map (· - 1)
    else layering.remaining.get? other
  queue : later.queue = layering.queue ++ dependents.filter layering.frees
  levels : ∀ other, later.levels.get? other =
    if other ∈ dependents ∧ layering.frees other then
      some (layering.asks level other)
    else layering.levels.get? other

theorem told_foldl (level : Nat) (layering : Layering) {dependents : List String}
    (distinct : dependents.Nodup) :
    Told level layering dependents (dependents.foldl (tell level) layering) := by
  induction dependents generalizing layering with
  | nil =>
      exact
        { topology := rfl
          tentative := fun _ => rfl
          remaining := fun _ => rfl
          queue := (List.append_nil _).symm
          levels := fun _ => (if_neg fun both => List.not_mem_nil both.1).symm }
  | cons first dependents inductionHypothesis =>
      rw [List.nodup_cons] at distinct
      have later := inductionHypothesis (layering.tell level first) distinct.2
      -- The others are told as before, since `first` is told no more.
      have asks {other : String} (different : other ≠ first) :
          (layering.tell level first).asks level other =
            layering.asks level other := by
        rw [Layering.asks, tentative_tell, Dict.get?_insert, if_neg different]
        rfl
      have frees {other : String} (different : other ≠ first) :
          (layering.tell level first).frees other = layering.frees other := by
        rw [Layering.frees, remaining_tell, if_neg different]
        rfl
      have apart {other : String} (member : other ∈ dependents) : other ≠ first := by
        rintro rfl
        exact distinct.1 member
      refine ⟨later.topology.trans topology_tell, fun other => ?_, fun other => ?_,
        ?_, fun other => ?_⟩
      · rw [List.foldl_cons, later.tentative, tentative_tell, Dict.get?_insert]
        simp only [List.mem_cons]
        by_cases member : other ∈ dependents
        · rw [if_pos member, if_pos (Or.inr member), asks (apart member)]
        · simp only [member, if_false, or_false]
          split
          · rename_i same
            rw [same]
          · rfl
      · rw [List.foldl_cons, later.remaining, remaining_tell]
        simp only [List.mem_cons]
        by_cases member : other ∈ dependents
        · rw [if_pos member, if_pos (Or.inr member), if_neg (apart member)]
        · simp only [member, if_false, or_false]
      · rw [List.foldl_cons, later.queue, queue_tell, List.append_assoc,
          List.filter_cons, List.filter_congr fun other member => frees (apart member)]
        split <;> rfl
      · rw [List.foldl_cons, later.levels, levels_tell]
        simp only [List.mem_cons]
        by_cases member : other ∈ dependents
        · simp only [member, true_and, or_true, apart member, false_and, if_false,
            frees (apart member), asks (apart member)]
        · simp only [member, false_and, if_false, or_false]
          by_cases same : other = first
          · rw [same]
          · simp only [same, false_and, if_false]

end Layering

/-! ### What is settled -/

namespace Graph

variable {graph : Graph} {layering : Layering} {queue : List String}
variable {name other : String}

/-- How many dependencies of a target are not among the settled. -/
def missing (graph : Graph) (settled : List String) (name : String) : Nat :=
  (graph.localDependencies name).countP fun next => !settled.contains next

/-- The level that the settled dependencies of a target ask of it: the least above
all of them. -/
structure IsAsked (graph : Graph) (settled : List String) (levels : Dict Nat)
    (name : String) (height : Nat) : Prop where
  above : ∀ next ∈ settled, graph.Edge name next →
    ∀ low, levels.get? next = some low → low < height
  reached : height = 0 ∨ ∃ next ∈ settled, graph.Edge name next ∧
    ∃ low, levels.get? next = some low ∧ height = low + 1

/-- What is known in the course of settling.  Each target is settled or queued at
most once, and those are whose dependencies are settled.  The counters say how
many dependencies are missing, the running maxima what level the settled ones ask
for, and a level is that of a target that is settled or queued, and its height. -/
structure Settling (graph : Graph) (layering : Layering) : Prop where
  distinct : (layering.topology ++ layering.queue).Nodup
  ready : ∀ name, name ∈ layering.topology ++ layering.queue ↔
    name ∈ graph.order ∧
      ∀ next, graph.Edge name next → next ∈ layering.topology
  counted : ∀ name ∈ graph.order,
    layering.remaining.get? name = some (graph.missing layering.topology name)
  asked : ∀ name, graph.IsAsked layering.topology layering.levels name
    ((layering.tentative.get? name).getD 0)
  leveled : ∀ name, layering.levels.contains name ↔
    name ∈ layering.topology ++ layering.queue
  tall : ∀ name height, layering.levels.get? name = some height →
    IsHeight graph.Edge name height

/-- What it does to settle a target on some level: its dependents wait for one
dependency less and are asked for the level above, and those that wait for nothing
more are freed, which join the queue on the level asked of them. -/
structure Settles (graph : Graph) (layering : Layering) (name : String) (level : Nat)
    (freed : List String) (later : Layering) : Prop where
  here : layering.levels.get? name = some level
  topology : later.topology = layering.topology ++ [name]
  places : later.topology ++ later.queue =
    layering.topology ++ layering.queue ++ freed
  remaining : ∀ other, later.remaining.get? other =
    if graph.hasEdge other name then (layering.remaining.get? other).map (· - 1)
    else layering.remaining.get? other
  tentative : ∀ other, (later.tentative.get? other).getD 0 =
    if graph.hasEdge other name then
      max ((layering.tentative.get? other).getD 0) (level + 1)
    else (layering.tentative.get? other).getD 0
  levels : ∀ other, later.levels.get? other =
    if other ∈ freed then some ((later.tentative.get? other).getD 0)
    else layering.levels.get? other
  once : freed.Nodup
  mem_freed : ∀ other, other ∈ freed ↔ graph.Edge other name ∧
    ∀ next, graph.Edge other next → next ∈ later.topology

/-! ### Counters -/

theorem missing_eq_zero {settled : List String} : graph.missing settled name = 0 ↔
    ∀ next, graph.Edge name next → next ∈ settled := by
  rw [missing, List.countP_eq_zero]
  simp only [Bool.not_eq_true', Bool.not_eq_false, List.contains_iff_mem]
  rfl

/-- A target that depends on one more settled target misses one less. -/
theorem missing_append (graph : Graph) (name : String) {settled : List String}
    (unsettled : other ∉ settled) :
    graph.missing settled name = graph.missing (settled ++ [other]) name +
      if graph.hasEdge name other then 1 else 0 := by
  have counts (names : List String) :
      names.countP (fun next => !settled.contains next) =
        names.countP (fun next => !(settled ++ [other]).contains next) +
          names.count other := by
    induction names with
    | nil => rfl
    | cons first names inductionHypothesis =>
        rw [List.countP_cons, List.countP_cons, List.count_cons,
          inductionHypothesis]
        by_cases same : first = other
        · subst same
          simp [unsettled]
          omega
        · simp only [List.mem_append, List.mem_singleton, same, or_false,
            beq_iff_eq, if_false, List.contains_eq_mem]
          omega
  rw [missing, counts, (nodup_localDependencies graph name).count, missing]
  simp only [hasEdge, List.contains_iff_mem]

/-! ### Running maxima -/

/-- A level that is settled above all that was asked before, or not. -/
theorem IsAsked.tell {settled : List String} {levels : Dict Nat} {level height : Nat}
    (asked : graph.IsAsked settled levels name height) (edge : graph.Edge name other)
    (here : levels.get? other = some level) :
    graph.IsAsked (settled ++ [other]) levels name (max height (level + 1)) where
  above next member step low found := by
    rcases List.mem_append.mp member with old | last
    · exact (asked.above next old step low found).trans_le (Nat.le_max_left _ _)
    · rw [List.mem_singleton.mp last, here] at found
      cases found
      exact (Nat.lt_succ_self _).trans_le (Nat.le_max_right _ _)
  reached := by
    rcases Nat.le_total height (level + 1) with least | most
    · rw [Nat.max_eq_right least]
      exact Or.inr ⟨other, List.mem_append_right _ List.mem_cons_self, edge, level,
        here, rfl⟩
    · rw [Nat.max_eq_left most]
      refine asked.reached.imp_right ?_
      rintro ⟨next, member, found⟩
      exact ⟨next, List.mem_append_left _ member, found⟩

/-- What does not depend on the target that is settled is asked for no more. -/
theorem IsAsked.ignore {settled : List String} {levels : Dict Nat} {height : Nat}
    (asked : graph.IsAsked settled levels name height)
    (apart : ¬graph.Edge name other) :
    graph.IsAsked (settled ++ [other]) levels name height where
  above next member step low found := by
    rcases List.mem_append.mp member with old | last
    · exact asked.above next old step low found
    · exact absurd (List.mem_singleton.mp last ▸ step) apart
  reached := by
    refine asked.reached.imp_right ?_
    rintro ⟨next, member, found⟩
    exact ⟨next, List.mem_append_left _ member, found⟩

/-- What is asked depends on the levels of what is settled only. -/
theorem IsAsked.of_levels {settled : List String} {levels later : Dict Nat}
    {height : Nat} (asked : graph.IsAsked settled levels name height)
    (same : ∀ next ∈ settled, later.get? next = levels.get? next) :
    graph.IsAsked settled later name height where
  above next member step low found := by
    rw [same next member] at found
    exact asked.above next member step low found
  reached := by
    refine asked.reached.imp_right ?_
    rintro ⟨next, member, step, low, found, exact_⟩
    exact ⟨next, member, step, low, (same next member).trans found, exact_⟩

/-- What is asked of a target all of whose dependencies are settled at their
heights is its own height. -/
theorem IsAsked.isHeight {settled : List String} {levels : Dict Nat} {height : Nat}
    (asked : graph.IsAsked settled levels name height)
    (all : ∀ next, graph.Edge name next → next ∈ settled)
    (leveled : ∀ next ∈ settled, ∃ low, levels.get? next = some low)
    (tall : ∀ next low, levels.get? next = some low →
      IsHeight graph.Edge next low) :
    IsHeight graph.Edge name height := by
  refine isHeight_of_next ?_ ?_
  · rcases asked.reached with none | ⟨next, -, step, low, found, rfl⟩
    · exact Or.inl none
    · exact Or.inr ⟨next, step, (tall next low found).1⟩
  · intro next step descends
    obtain ⟨low, found⟩ := leveled next (all next step)
    have higher := asked.above next (all next step) step low found
    exact (tall next low found).2 (descends.of_le higher)

/-! ### Settling -/

theorem Proper.get?_waiting (proper : graph.Proper) (listed : name ∈ graph.order) :
    graph.waiting.get? name = some (graph.localDependencies name).length := by
  have once : ((graph.order.map fun name =>
      (name, (graph.localDependencies name).length)).map Prod.fst).Nodup := by
    rw [List.map_map]
    exact (List.map_id graph.order).symm ▸ proper.distinct
  rw [waiting, Dict.get?_ofList once]
  exact Dict.lookup_of_mem once (List.mem_map.mpr ⟨name, listed, rfl⟩)

theorem missing_nil : graph.missing [] name = (graph.localDependencies name).length := by
  rw [missing, List.countP_eq_length]
  intro next _
  rfl

theorem Proper.mem_leaves (proper : graph.Proper) : name ∈ graph.leaves ↔
    name ∈ graph.order ∧ ∀ next, ¬graph.Edge name next := by
  rw [leaves, List.mem_filter, beq_iff_eq]
  refine and_congr_right fun listed => ?_
  rw [proper.get?_waiting listed, Option.some.injEq, ← missing_nil, missing_eq_zero]
  simp only [List.not_mem_nil, imp_false]

theorem get?_levels_unsettled : graph.unsettled.levels.get? name =
    if name ∈ graph.leaves then some 0 else none :=
  Dict.get?_foldl_insert_same graph.leaves 0 Dict.empty name

theorem Proper.settling_unsettled (proper : graph.Proper) :
    Settling graph graph.unsettled where
  distinct := proper.distinct.filter _
  ready name := by
    show name ∈ [] ++ graph.leaves ↔
      name ∈ graph.order ∧ ∀ next, graph.Edge name next → next ∈ []
    simp only [List.nil_append, proper.mem_leaves, List.not_mem_nil, imp_false]
  counted name listed :=
    (proper.get?_waiting listed).trans (congrArg some missing_nil.symm)
  asked name :=
    { above := fun next member => by cases member
      reached := Or.inl rfl }
  leveled name := by
    show _ ↔ name ∈ [] ++ graph.leaves
    rw [Dict.contains, get?_levels_unsettled, List.nil_append]
    split <;> simp_all
  tall name height found := by
    rw [get?_levels_unsettled] at found
    split at found
    · rename_i leaf
      cases found
      refine ⟨trivial, fun descends => ?_⟩
      obtain ⟨next, step, -⟩ := descends
      exact (proper.mem_leaves.mp leaf).2 next step
    · cases found

namespace Settling

theorem unsettled (settling : Settling graph layering)
    (first : layering.queue = name :: queue) : name ∉ layering.topology := by
  intro before
  have distinct := settling.distinct
  rw [first] at distinct
  exact (List.nodup_append'.mp distinct).2.2 before List.mem_cons_self

/-- A dependent of the target that is settled is freed if all it depends on is
settled then. -/
theorem frees_iff (settling : Settling graph layering)
    (first : layering.queue = name :: queue) (listed : other ∈ graph.order)
    (edge : graph.Edge other name) :
    layering.frees other ↔
      ∀ next, graph.Edge other next → next ∈ layering.topology ++ [name] := by
  have less := missing_append graph other (settling.unsettled first)
  rw [if_pos (hasEdge_iff.mpr edge)] at less
  rw [← missing_eq_zero, Layering.frees, settling.counted other listed,
    Option.any_some, beq_iff_eq, less, Nat.add_sub_cancel]

/-- To settle the first of the queue does what is said of it, on the level that it
has. -/
theorem settles (proper : graph.Proper) (settling : Settling graph layering)
    (first : layering.queue = name :: queue) :
    ∃ level freed, graph.Settles layering name level freed
      (layering.settle graph.dependents name queue) := by
  have queued : name ∈ layering.topology ++ layering.queue := by
    rw [first]
    exact List.mem_append_right _ List.mem_cons_self
  obtain ⟨level, here⟩ :=
    Option.isSome_iff_exists.mp ((settling.leveled name).mpr queued)
  have told := Layering.told_foldl level
    { layering with queue := queue, topology := layering.topology ++ [name] }
    (proper.nodup_dependents name)
  have depends (other : String) :
      other ∈ graph.dependents name ↔ graph.hasEdge other name :=
    proper.mem_dependents.trans hasEdge_iff.symm
  rw [Layering.settle, here, Option.getD_some]
  refine ⟨level, (graph.dependents name).filter layering.frees, here, told.topology,
    ?_, fun other => ?_, fun other => ?_, fun other => ?_,
    (proper.nodup_dependents name).filter _, fun other => ?_⟩
  · rw [told.topology, told.queue, first, List.append_assoc, List.append_assoc]
    rfl
  · rw [told.remaining]
    exact if_congr (depends other) rfl rfl
  · rw [told.tentative, apply_ite (Option.getD · 0), Option.getD_some]
    exact if_congr (depends other) rfl rfl
  · rw [told.levels, told.tentative]
    by_cases freed : other ∈ (graph.dependents name).filter layering.frees
    · have both := List.mem_filter.mp freed
      rw [if_pos freed, if_pos both.1]
      exact if_pos both
    · rw [if_neg freed]
      exact if_neg fun both => freed (List.mem_filter.mpr both)
  · rw [List.mem_filter, proper.mem_dependents, told.topology]
    refine and_congr_right fun edge => settling.frees_iff first ?_ edge
    exact (proper.listed other).mpr (hasTarget_of_edge edge)

end Settling

namespace Settles

variable {level : Nat} {freed : List String} {later : Layering}

/-- What is freed waited for the target, so it was neither settled nor queued. -/
theorem fresh (settles : graph.Settles layering name level freed later)
    (settling : Settling graph layering) (unsettled : name ∉ layering.topology)
    (new : other ∈ freed) : other ∉ layering.topology ++ layering.queue := fun old =>
  unsettled (((settling.ready other).mp old).2 _ ((settles.mem_freed other).mp new).1)

/-- What was settled or queued keeps its level. -/
theorem kept (settles : graph.Settles layering name level freed later)
    (settling : Settling graph layering) (unsettled : name ∉ layering.topology)
    (old : other ∈ layering.topology ++ layering.queue) :
    later.levels.get? other = layering.levels.get? other := by
  rw [settles.levels, if_neg fun new => settles.fresh settling unsettled new old]

/-- What is settled now was settled or queued. -/
theorem known (settles : graph.Settles layering name level freed later)
    (settling : Settling graph layering) (member : other ∈ later.topology) :
    other ∈ layering.topology ++ layering.queue := by
  rw [settles.topology] at member
  rcases List.mem_append.mp member with old | last
  · exact List.mem_append_left _ old
  · rw [List.mem_singleton.mp last, ← settling.leveled, Dict.contains, settles.here]
    rfl

theorem ready (settles : graph.Settles layering name level freed later)
    (proper : graph.Proper) (settling : Settling graph layering) :
    other ∈ later.topology ++ later.queue ↔
      other ∈ graph.order ∧ ∀ next, graph.Edge other next → next ∈ later.topology := by
  rw [settles.places, List.mem_append, settling.ready, settles.mem_freed,
    settles.topology]
  constructor
  · rintro (⟨listed, all⟩ | ⟨edge, all⟩)
    · exact ⟨listed, fun next step => List.mem_append_left _ (all next step)⟩
    · exact ⟨(proper.listed _).mpr (hasTarget_of_edge edge), all⟩
  · rintro ⟨listed, all⟩
    by_cases edge : graph.Edge other name
    · exact Or.inr ⟨edge, all⟩
    · refine Or.inl ⟨listed, fun next step => ?_⟩
      rcases List.mem_append.mp (all next step) with old | last
      · exact old
      · exact absurd (List.mem_singleton.mp last ▸ step) edge

theorem counted (settles : graph.Settles layering name level freed later)
    (settling : Settling graph layering) (unsettled : name ∉ layering.topology)
    (listed : other ∈ graph.order) :
    later.remaining.get? other = some (graph.missing later.topology other) := by
  rw [settles.remaining, settling.counted other listed, settles.topology,
    missing_append graph other unsettled]
  split <;> rfl

theorem asked (settles : graph.Settles layering name level freed later)
    (settling : Settling graph layering) (other : String) :
    graph.IsAsked later.topology layering.levels other
      ((later.tentative.get? other).getD 0) := by
  rw [settles.topology, settles.tentative]
  split
  · rename_i edge
    exact (settling.asked other).tell (hasEdge_iff.mp edge) settles.here
  · rename_i apart
    exact (settling.asked other).ignore fun edge => apart (hasEdge_iff.mpr edge)

theorem leveled (settles : graph.Settles layering name level freed later)
    (settling : Settling graph layering) :
    later.levels.contains other ↔ other ∈ later.topology ++ later.queue := by
  rw [settles.places, List.mem_append, ← settling.leveled, Dict.contains,
    Dict.contains, settles.levels]
  split <;> simp_all

/-- What is freed gets its height as its level. -/
theorem tall (settles : graph.Settles layering name level freed later)
    (settling : Settling graph layering) {height : Nat}
    (found : later.levels.get? other = some height) :
    IsHeight graph.Edge other height := by
  rw [settles.levels] at found
  split at found
  · rename_i new
    cases found
    refine (settles.asked settling other).isHeight ((settles.mem_freed other).mp new).2
      (fun next member => ?_) settling.tall
    exact Option.isSome_iff_exists.mp
      ((settling.leveled next).mpr (settles.known settling member))
  · exact settling.tall other height found

end Settles

namespace Settling

/-- The first of the queue is settled, and those that waited for it last are
queued. -/
theorem step (proper : graph.Proper) (settling : Settling graph layering)
    (first : layering.queue = name :: queue) :
    Settling graph (layering.settle graph.dependents name queue) := by
  obtain ⟨level, freed, settles⟩ := settling.settles proper first
  have unsettled := settling.unsettled first
  exact
    { distinct := by
        rw [settles.places, List.nodup_append']
        exact ⟨settling.distinct, settles.once, fun other old new =>
          settles.fresh settling unsettled new old⟩
      ready := fun other => settles.ready proper settling
      counted := fun other listed => settles.counted settling unsettled listed
      asked := fun other => (settles.asked settling other).of_levels fun next member =>
        settles.kept settling unsettled (settles.known settling member)
      leveled := fun other => settles.leveled settling
      tall := fun other height found => settles.tall settling found }

theorem length_le (settling : Settling graph layering) :
    layering.topology.length ≤ graph.order.length := by
  have inside : layering.topology ⊆ graph.order := fun name member =>
    ((settling.ready name).mp (List.mem_append_left _ member)).1
  have once := (List.nodup_append'.mp settling.distinct).1
  exact (List.subperm_of_subset once inside).length_le

theorem run (proper : graph.Proper) {rounds : Nat}
    (settling : Settling graph layering)
    (enough : graph.order.length < rounds + layering.topology.length) :
    Settling graph (layering.run graph.dependents rounds) ∧
      (layering.run graph.dependents rounds).queue = [] := by
  induction rounds generalizing layering with
  | zero =>
      have short := settling.length_le
      omega
  | succ rounds inductionHypothesis =>
      rw [Layering.run]
      cases first : layering.queue with
      | nil => exact ⟨settling, first⟩
      | cons name queue =>
          obtain ⟨level, freed, settles⟩ := settling.settles proper first
          refine inductionHypothesis (settling.step proper first) ?_
          rw [settles.topology, List.length_append, List.length_singleton]
          omega

end Settling

/-- In the end nothing is queued. -/
theorem Proper.settling_layering (proper : graph.Proper) :
    Settling graph graph.layering ∧ graph.layering.queue = [] := by
  refine proper.settling_unsettled.run proper ?_
  exact Nat.lt_two_pow_self.trans_le (Nat.le_add_right _ _)

theorem nodup_topology (proper : graph.Proper) : graph.layering.topology.Nodup :=
  (List.nodup_append'.mp proper.settling_layering.1.distinct).1

/-- In the end a target is settled exactly if all its dependencies are. -/
theorem mem_topology_of_next (proper : graph.Proper) :
    name ∈ graph.layering.topology ↔
      name ∈ graph.order ∧
        ∀ next, graph.Edge name next → next ∈ graph.layering.topology := by
  obtain ⟨settling, empty⟩ := proper.settling_layering
  have ready := settling.ready name
  rwa [empty, List.append_nil] at ready

/-- In the end a target has a level exactly if it is settled. -/
theorem contains_levels_iff (proper : graph.Proper) :
    graph.layering.levels.contains name ↔ name ∈ graph.layering.topology := by
  obtain ⟨settling, empty⟩ := proper.settling_layering
  rw [settling.leveled, empty, List.append_nil]

/-- Chains of every length go down from a target that is not settled in the
end. -/
theorem descends_of_unsettled (proper : graph.Proper) (listed : name ∈ graph.order)
    (unsettled : name ∉ graph.layering.topology) (length : Nat) :
    Descends graph.Edge length name := by
  induction length generalizing name with
  | zero => trivial
  | succ length inductionHypothesis =>
      have waits : ¬∀ next, graph.Edge name next →
          next ∈ graph.layering.topology :=
        fun all => unsettled ((mem_topology_of_next proper).mpr ⟨listed, all⟩)
      push Not at waits
      obtain ⟨next, edge, missing⟩ := waits
      refine ⟨next, edge, inductionHypothesis ?_ missing⟩
      exact (proper.listed next).mpr (edge_iff.mp edge).1

/-- The targets that are settled in the end are those that have a height. -/
theorem mem_topology_iff (proper : graph.Proper) :
    name ∈ graph.layering.topology ↔
      name ∈ graph.order ∧ ∃ height, IsHeight graph.Edge name height := by
  constructor
  · intro member
    have listed := ((mem_topology_of_next proper).mp member).1
    obtain ⟨height, found⟩ :=
      Option.isSome_iff_exists.mp ((contains_levels_iff proper).mpr member)
    exact ⟨listed, height, proper.settling_layering.1.tall name height found⟩
  · rintro ⟨listed, height, tall⟩
    by_contra unsettled
    exact tall.2 (descends_of_unsettled proper listed unsettled _)

/-- The levels in the end are the heights of the targets that have one. -/
theorem get?_levels_layering (proper : graph.Proper) {height : Nat} :
    graph.layering.levels.get? name = some height ↔
      name ∈ graph.order ∧ IsHeight graph.Edge name height := by
  have tallOf := proper.settling_layering.1.tall name
  constructor
  · intro found
    have member : name ∈ graph.layering.topology := by
      rw [← contains_levels_iff proper, Dict.contains, found]
      rfl
    exact ⟨((mem_topology_iff proper).mp member).1, tallOf height found⟩
  · rintro ⟨listed, tall⟩
    have member := (mem_topology_iff proper).mpr ⟨listed, height, tall⟩
    obtain ⟨level, found⟩ :=
      Option.isSome_iff_exists.mp ((contains_levels_iff proper).mpr member)
    rw [found, tall.unique (tallOf level found)]

/-! ### Levels -/

theorem systemModulesIn_known {known : List String} {name : String}
    (member : (graph.systemModulesIn known).contains name) : name ∈ known := by
  rw [systemModulesIn, NameSet.contains_ofNames] at member
  exact List.contains_iff_mem.mp (List.mem_filter.mp member).2

/-- Platform modules among the targets are put on level zero, and the others are on
the level they were settled on. -/
theorem get?_levels (proper : graph.Proper) (known : List String) (name : String) :
    (graph.analyze known).levels.get? name =
      if graph.hasTarget name ∧ name ∈ known then some 0
      else graph.layering.levels.get? name := by
  have pinned : name ∈ (graph.systemModulesIn known).keys.filter graph.hasTarget ↔
      graph.hasTarget name ∧ name ∈ known := by
    rw [List.mem_filter, Dict.mem_keys_iff, and_comm]
    refine and_congr_right fun has => ⟨systemModulesIn_known, fun platform => ?_⟩
    rw [systemModulesIn, NameSet.contains_ofNames, List.mem_filter]
    refine ⟨List.mem_flatMap.mpr ⟨name, (proper.listed name).mpr has, ?_⟩, ?_⟩
    · exact List.mem_cons_self
    · exact List.contains_iff_mem.mpr platform
  rw [analyze, Dict.get?_foldl_insert_same]
  exact if_congr pinned rfl rfl

/-- A target that is no platform module has its height as its level, and no level
if it has no height. -/
theorem level_eq_assigned (proper : graph.Proper) {known : List String}
    (plain : name ∉ known) {height : Nat} :
    (graph.analyze known).level name = .assigned height ↔
      name ∈ graph.order ∧ IsHeight graph.Edge name height := by
  have notPinned : (graph.analyze known).systemModules.contains name = false := by
    rw [← Bool.not_eq_true]
    exact fun member => plain (systemModulesIn_known member)
  have levels := get?_levels proper known name
  rw [if_neg fun platform => plain platform.2] at levels
  rw [← get?_levels_layering proper, ← levels, Analysis.level, notPinned]
  cases (graph.analyze known).levels.get? name <;> simp

end Graph

end PackageLayers

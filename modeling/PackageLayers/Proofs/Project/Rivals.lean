/-
Purpose: Which of several packages with one name the tables of a new map are about.
Main exports: PackageGraph.node_eq, ProjectMap.entry_eq, ProjectMap.entry_of_first,
  ProjectMap.entry_of_last
-/
import PackageLayers.Proofs.Project.Findings

namespace PackageLayers.Project

/-!
Of several manifests with one name the graph of the packages knows the first.  So
does the table of packages if the first finding stays.  If conflicts are overridden
it knows the last one instead, and then the edges of a package may be those of
another manifest than the one that is recorded under its name.  The two tables
always know the same names.
-/

variable {options : MergeOptions}

/-! ### Nodes -/

namespace PackageGraph

theorem find_nodesOf {seen : List String} {discoveries : List Discovery}
    {name : String} (fresh : name ∉ seen) :
    (nodesOf seen discoveries).find? (·.name = name) =
      discoveries.find? (·.name = name) := by
  induction discoveries generalizing seen with
  | nil => rfl
  | cons discovery discoveries inductionHypothesis =>
      rw [nodesOf]
      split
      · rename_i known
        have other : discovery.name ≠ name := by
          rintro rfl
          exact fresh (List.contains_iff_mem.mp known)
        rw [inductionHypothesis fresh, List.find?_cons_of_neg (by simpa using other)]
      · by_cases here : discovery.name = name
        · rw [List.find?_cons_of_pos (by simpa using here),
            List.find?_cons_of_pos (by simpa using here)]
        · rw [List.find?_cons_of_neg (by simpa using here),
            List.find?_cons_of_neg (by simpa using here)]
          apply inductionHypothesis
          rw [List.mem_cons, not_or]
          exact ⟨fun same => here same.symm, fresh⟩

/-- Nodes have different names. -/
theorem nodup_nodesOf (seen : List String) (discoveries : List Discovery) :
    ((nodesOf seen discoveries).map Discovery.name).Nodup ∧
      ∀ node ∈ nodesOf seen discoveries, node.name ∉ seen := by
  induction discoveries generalizing seen with
  | nil => exact ⟨List.nodup_nil, fun _ member => nomatch member⟩
  | cons discovery discoveries inductionHypothesis =>
      rw [nodesOf]
      split
      · exact inductionHypothesis seen
      · rename_i unknown
        obtain ⟨distinct, apart⟩ := inductionHypothesis (discovery.name :: seen)
        rw [List.map_cons, List.nodup_cons]
        refine ⟨⟨?_, distinct⟩, ?_⟩
        · rw [List.mem_map]
          rintro ⟨node, member, same⟩
          exact apart node member (same ▸ List.mem_cons_self)
        · intro node member
          rcases List.mem_cons.mp member with rfl | later
          · simpa using unknown
          · exact fun known => apart node later (List.mem_cons_of_mem _ known)

theorem lookup_nodes (nodes : List Discovery) (name : String) :
    Dict.lookup name (nodes.map fun node => (node.name, nodeOf node)) =
      (nodes.find? (·.name = name)).map nodeOf := by
  induction nodes with
  | nil => rfl
  | cons node nodes inductionHypothesis =>
      rw [List.map_cons, Dict.lookup, inductionHypothesis]
      split
      · rename_i here
        rw [List.find?_cons_of_pos (by simpa using here)]
        rfl
      · rename_i other
        rw [List.find?_cons_of_neg (by simpa using other)]

/-- The node of a name is the first package that was found with it. -/
theorem node_eq (root : Path) (moment : Timestamp) (discoveries : List Discovery)
    (name : String) :
    (ofDiscoveries root moment discoveries).packages.get? name =
      (discoveries.find? (·.name = name)).map nodeOf := by
  have distinct := (nodup_nodesOf [] discoveries).1
  rw [ofDiscoveries, Dict.get?_ofList, lookup_nodes, find_nodesOf List.not_mem_nil]
  rw [List.map_map]
  exact distinct

end PackageGraph

/-! ### Entries -/

namespace ProjectMap

/-- What a new map records under a name is what the packages of that name leave. -/
theorem entry_eq (discoveries : List Discovery) (name : String) :
    (({} : ProjectMap).collect options discoveries).packages.get? name =
      match discoveries.filter (·.name = name) with
      | [] => none
      | first :: rest =>
          some (packageRule.revised (fun _ => options.overrideConflicts)
            (packageEntry first) (first :: rest)) := by
  have found : Rule.findingsFor name
      (discoveries.map fun discovery => (discovery.name, discovery)) =
        discoveries.filter (·.name = name) := by
    rw [Rule.findingsFor, List.filter_map, List.map_map]
    exact List.map_id _
  rw [collect_eq, adds_eq, packages_found, Rule.get?_puts, found, Dict.get?_empty]
  cases discoveries.filter (·.name = name) with
  | nil => rfl
  | cons first rest => exact Rule.recorded_none first rest

section

variable (root : Path) (moment : Timestamp) (discoveries : List Discovery)
  (name : String)

/-- The first package with a name is what its node is about, and, where the first
finding stays, its entry. -/
theorem entry_of_first (stays : options.overrideConflicts = false) :
    ((({} : ProjectMap).updated options root moment discoveries).packages.get?
        name).map (fun entry => (entry.directory, entry.manifest)) =
      ((PackageGraph.ofDiscoveries root moment discoveries).packages.get? name).map
        fun node => (node.directory, node.manifest) := by
  have entry := @entry_eq options discoveries name
  rw [PackageGraph.node_eq, ← List.head?_filter]
  change ((collect options discoveries {}).packages.get? name).map _ = _
  rw [entry]
  cases discoveries.filter (·.name = name) with
  | nil => rfl
  | cons first rest =>
      -- what the others add is targets
      obtain ⟨targets, same⟩ := withTargets_all (packageEntry first)
        ((first :: rest).filter fun other =>
          packageRule.kindOf (packageEntry first) = packageRule.claimed other)
      have revised := @Rule.revised_of_kept _ _ _ packageRule _
        (fun _ => options.overrideConflicts) (fun _ => stays) (packageEntry first)
        (first :: rest)
      change _ = List.foldl withTargets _ _ at revised
      rw [same] at revised
      simp only [revised]
      rfl

/-- Where conflicts are overridden, the last package with a name is what its entry
is about. -/
theorem entry_of_last (overrides : options.overrideConflicts = true) :
    ((({} : ProjectMap).updated options root moment discoveries).packages.get?
        name).map PackageEntry.manifest =
      ((discoveries.filter (·.name = name)).getLast?).map
        fun last => last.manifest.storedText := by
  have entry := @entry_eq options discoveries name
  change ((collect options discoveries {}).packages.get? name).map _ = _
  rw [entry]
  cases discoveries.filter (·.name = name) with
  | nil => rfl
  | cons first rest =>
      obtain ⟨earlier, last, split⟩ :=
        (List.eq_nil_or_concat (first :: rest)).resolve_left (List.cons_ne_nil _ _)
      rw [List.concat_eq_append] at split
      simp only [Option.map_some]
      rw [split, List.getLast?_concat, Rule.revised, List.foldl_concat]
      exact congrArg some (@Rule.kindOf_revise _ _ _ packageRule _
        (fun _ => options.overrideConflicts) last overrides _)

/-- A name has an entry exactly if it has a node. -/
theorem entry_iff_node :
    ((({} : ProjectMap).updated options root moment discoveries).packages.contains
        name) =
      (PackageGraph.ofDiscoveries root moment discoveries).packages.contains name := by
  have entry := @entry_eq options discoveries name
  rw [Dict.contains, Dict.contains, PackageGraph.node_eq, ← List.head?_filter]
  change ((collect options discoveries {}).packages.get? name).isSome = _
  rw [entry]
  cases discoveries.filter (·.name = name) <;> rfl

end

/-- Two packages with one name. -/
def namesakes : List Discovery :=
  ["/p/A", "/p/B"].map fun directory =>
    { name := "P"
      directory := ⟨directory⟩
      manifest := (⟨directory⟩ : Path).child "Package.swift"
      package := {} }

/-- The entry and the node of a name may be about different packages. -/
example :
    let map := ({} : ProjectMap).updated { overrideConflicts := true } ⟨"/p"⟩
      (.ofMilliseconds 0) namesakes
    (map.packages.get? "P").map PackageEntry.directory = some "/p/B" ∧
      (map.graph.packages.get? "P").map PackageNode.directory = some "/p/A" := by
  decide +kernel

end ProjectMap

end PackageLayers.Project

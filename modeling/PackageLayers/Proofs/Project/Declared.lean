/-
Purpose: The path by which a package is declared leads to it.
Main exports: AreApart, AreRecorded, areRecorded_updated, nodeAt_declared,
  declared_paths_lead_back
-/
import PackageLayers.Project.Lookup
import PackageLayers.Proofs.Files.Directions
import PackageLayers.Proofs.Project.Connections

namespace PackageLayers.Project

open PackageGraph (find_liesIn_iff)

/-!
A package of the project is declared by the path from the directory of the manifest
to the directory that is recorded for the package.  The graph cleans that path and
looks for the package that lies there, so it has to come to the same directory,
wherever the two lie.

The table is searched without regard to letter case, and so names must differ in
more than that for the right entry to be found.
-/

/-- Whether packages lie in different directories, each straight below the root and
holding the manifest, and go by names that differ in more than letter case. -/
structure AreApart (discoveries : List Discovery) : Prop where
  housed : ∀ discovery ∈ discoveries,
    discovery.manifest.parent? = some discovery.directory
  straight : ∀ discovery ∈ discoveries, discovery.directory.IsStraight
  places : discoveries.Pairwise fun first second =>
    first.directory.sameAs second.directory = false
  names : discoveries.Pairwise fun first second =>
    Text.sameFolded first.name second.name = false

/-- Whether a table holds the directories of packages, and no other name in it is
that of one of them, letter case aside. -/
structure AreRecorded (discoveries : List Discovery)
    (packages : Dict PackageEntry) : Prop where
  listed : ∀ discovery ∈ discoveries, ∃ entry,
    packages.get? discovery.name = some entry ∧
      entry.directory = discovery.directory.storedText
  alone : ∀ name, packages.contains name → ∀ discovery ∈ discoveries,
    Text.sameFolded name discovery.name → name = discovery.name

variable {discoveries : List Discovery} {discovery : Discovery}

/-! ### Names of their own -/

/-- Names that differ in more than letter case are told apart. -/
theorem AreApart.eq_of_sameFolded (apart : AreApart discoveries)
    {first second : Discovery} (member : first ∈ discoveries)
    (also : second ∈ discoveries)
    (same : Text.sameFolded first.name second.name) : first = second := by
  by_contra different
  have : Std.Symm fun one other : Discovery =>
      Text.sameFolded one.name other.name = false :=
    ⟨fun one other unlike => by rwa [Text.sameFolded_comm]⟩
  have unlike := apart.names.forall member also different
  rw [same] at unlike
  cases unlike

theorem AreApart.nodup_names (apart : AreApart discoveries) :
    (discoveries.map Discovery.name).Nodup := by
  rw [List.nodup_iff_pairwise_ne, List.pairwise_map]
  refine apart.names.imp fun {first second} unlike same => ?_
  rw [same, Text.sameFolded_refl] at unlike
  cases unlike

/-- Where all names differ, every discovery is a node. -/
theorem nodesOf_eq {seen : List String}
    (distinct : (discoveries.map Discovery.name).Nodup)
    (new : ∀ discovery ∈ discoveries, discovery.name ∉ seen) :
    nodesOf seen discoveries = discoveries := by
  induction discoveries generalizing seen with
  | nil => rfl
  | cons discovery discoveries inductionHypothesis =>
      rw [List.map_cons, List.nodup_cons] at distinct
      rw [List.forall_mem_cons] at new
      rw [nodesOf, if_neg (by simpa using new.1),
        inductionHypothesis distinct.2 fun other member => ?_]
      rw [List.mem_cons, not_or]
      exact ⟨fun same => distinct.1 (same ▸ List.mem_map_of_mem member),
        new.2 other member⟩

theorem filter_name (distinct : (discoveries.map Discovery.name).Nodup)
    (member : discovery ∈ discoveries) :
    discoveries.filter (·.name = discovery.name) = [discovery] := by
  induction discoveries with
  | nil => cases member
  | cons first discoveries inductionHypothesis =>
      rw [List.map_cons, List.nodup_cons] at distinct
      rcases List.mem_cons.mp member with rfl | later
      · rw [List.filter_cons_of_pos (by simp), List.filter_eq_nil_iff.mpr]
        intro other listed
        simp only [decide_eq_true_eq]
        exact fun same => distinct.1 (same ▸ List.mem_map_of_mem listed)
      · have other : first.name ≠ discovery.name := fun same =>
          distinct.1 (same ▸ List.mem_map_of_mem later)
        rw [List.filter_cons_of_neg (by simpa using other),
          inductionHypothesis distinct.2 later]

/-- A new map records the packages that were found. -/
theorem areRecorded_updated (apart : AreApart discoveries) (options : MergeOptions)
    (root : Path) (moment : Timestamp) :
    AreRecorded discoveries
      (({} : ProjectMap).updated options root moment discoveries).packages := by
  have held (name : String) :
      (({} : ProjectMap).updated options root moment discoveries).packages.get? name =
        _ := @ProjectMap.entry_eq options discoveries name
  constructor
  · intro discovery member
    refine ⟨ProjectMap.packageEntry discovery, ?_, rfl⟩
    rw [held, filter_name apart.nodup_names member]
    have kept : ProjectMap.packageRule.revise (fun _ => options.overrideConflicts)
        (ProjectMap.packageEntry discovery) discovery =
          ProjectMap.packageEntry discovery := Rule.revise_alone discovery
    simp only [Rule.revised_cons, kept]
    rfl
  · intro name listed discovery member folded
    rw [Dict.contains, held] at listed
    split at listed
    · cases listed
    · rename_i first rest found
      have here : first ∈ discoveries.filter (·.name = name) := by
        rw [found]
        exact List.mem_cons_self
      rw [List.mem_filter, decide_eq_true_eq] at here
      obtain ⟨there, rfl⟩ := here
      rw [apart.eq_of_sameFolded there member folded]

/-! ### Declared paths -/

variable {map : ProjectMap} {first second : Discovery}

/-- The entry of a recorded package is found under its name. -/
theorem AreRecorded.folded (recorded : AreRecorded discoveries map.packages)
    (member : discovery ∈ discoveries) :
    ∃ entry, ProjectMap.folded? map.packages discovery.name = some entry ∧
      entry.directory = discovery.directory.storedText := by
  obtain ⟨entry, held, directory⟩ := recorded.listed discovery member
  refine ⟨entry, ?_, directory⟩
  have only (other : String × PackageEntry) (listed : other ∈ map.packages.entries)
      (folded : Text.sameFolded other.1 discovery.name) : other.2 = entry := by
    have keys : (map.packages.entries.map Prod.fst).Nodup :=
      map.packages.sorted.imp String.ne_of_lt
    have found : map.packages.get? other.1 = some other.2 :=
      Dict.lookup_of_mem keys listed
    have same := recorded.alone other.1 (by rw [Dict.contains, found]; rfl)
      discovery member folded
    rw [same, held] at found
    exact (Option.some.inj found).symm
  rw [ProjectMap.folded?, Option.map_eq_some_iff]
  cases found : map.packages.entries.find? fun other =>
      Text.sameFolded other.1 discovery.name with
  | some other =>
      have folded := List.find?_some found
      exact ⟨other, rfl, only other (List.mem_of_find?_eq_some found) folded⟩
  | none =>
      have absent := List.find?_eq_none.mp found (discovery.name, entry)
        (Dict.mem_of_lookup held)
      exact absurd (Text.sameFolded_refl _) absent

/-- A recorded package is declared by the path that leads to its directory. -/
theorem provenance_eq (apart : AreApart discoveries)
    (recorded : AreRecorded discoveries map.packages)
    (member : first ∈ discoveries) (also : second ∈ discoveries) :
    map.provenance second.name first.manifest =
      .relative (second.directory.relativeTo first.directory) := by
  obtain ⟨entry, found, directory⟩ := recorded.folded also
  rw [Path.storedText_eq (apart.straight second also).stored] at directory
  rw [ProjectMap.provenance, found]
  simp only [directory, Path.declaredFrom, apart.housed first member, Option.getD_some]

/-- The declared path leads from the one package to the other. -/
theorem nodeAt_declared (apart : AreApart discoveries)
    (member : first ∈ discoveries) (also : second ∈ discoveries) :
    nodeAt? (nodesOf [] discoveries)
      (first.directory.join ⟨second.directory.relativeTo first.directory⟩) =
        some second.name := by
  have here := apart.straight first member
  have there := apart.straight second also
  have lone : discoveries.Pairwise fun one other =>
      liesIn other.directory one = false := by
    refine apart.places.imp_of_mem fun {one other} listed listedToo different => ?_
    have straight := apart.straight one listed
    have straightToo := apart.straight other listedToo
    rw [← Bool.not_eq_true, straight.sameAs_iff straightToo] at different
    rw [← Bool.not_eq_true, liesIn, Path.clean_of_absolute straight.absolute,
      Path.clean_of_absolute straightToo.absolute]
    exact fun same => different
      (Location.eq_of_sameAs one.directory.isPlain_place other.directory.isPlain_place
        same)
  have lies : liesIn
      (first.directory.join ⟨second.directory.relativeTo first.directory⟩) second := by
    rw [liesIn, Path.clean_join_relativeTo here there,
      Path.clean_of_absolute there.absolute, Path.sameAs, beq_iff_eq]
  rw [nodesOf_eq apart.nodup_names fun _ _ => List.not_mem_nil]
  exact congrArg (Option.map Discovery.name)
    ((find_liesIn_iff lone).mpr ⟨also, lies⟩)

/-- From a directory straight below the root the path to another, cleaned, leads to
that directory.  So where packages that lie apart are recorded, as they are in a new
map, each is declared in the manifest of any of them by a path that leads to it. -/
theorem declared_paths_lead_back :
    (∀ base other : Path, base.IsStraight → other.IsStraight →
      (base.join ⟨other.relativeTo base⟩).clean.sameAs other) ∧
    ∀ discoveries, AreApart discoveries →
      (∀ options root moment, AreRecorded discoveries
        (({} : ProjectMap).updated options root moment discoveries).packages) ∧
      ∀ map : ProjectMap, AreRecorded discoveries map.packages →
        ∀ first ∈ discoveries, ∀ second ∈ discoveries, ∃ path,
          map.provenance second.name first.manifest = .relative path ∧
          nodeAt? (nodesOf [] discoveries) (first.directory.join ⟨path⟩) =
            some second.name := by
  refine ⟨fun base other here there => ?_, fun discoveries apart =>
    ⟨areRecorded_updated apart, fun map recorded first member second also =>
      ⟨_, provenance_eq apart recorded member also, nodeAt_declared apart member also⟩⟩⟩
  rw [Path.clean_join_relativeTo here there]
  exact there.sameAs_place

/-- The package of a project's root, one in it, one in that, and one beside them. -/
def nestedSample : List Discovery :=
  [PackageGraph.sampleLeaf "Root" "/p", PackageGraph.sampleLeaf "App" "/p/Apps/App",
    PackageGraph.sampleLeaf "Kit" "/p/Apps/App/Kit",
    PackageGraph.sampleLeaf "Core" "/p/Packages/Core"]

theorem declared_paths_lead_back_nested :
    let map := ({} : ProjectMap).updated {} ⟨"/p"⟩ (.ofMilliseconds 0) nestedSample
    ((⟨"/p/Apps/App/Kit"⟩ : Path).join ⟨"../.."⟩).clean.sameAs ⟨"/p//Apps/"⟩ ∧
    ∃ path, map.provenance "Core" ⟨"/p/Apps/App/Package.swift"⟩ = .relative path ∧
      nodeAt? (nodesOf [] nestedSample) ((⟨"/p/Apps/App"⟩ : Path).join ⟨path⟩) =
        some "Core" := by
  intro map
  have apart : AreApart nestedSample :=
    { housed := by decide +kernel
      straight := by decide +kernel
      places := by decide +kernel
      names := by decide +kernel }
  obtain ⟨paths, projects⟩ := declared_paths_lead_back
  constructor
  · have spelled : (⟨"/p//Apps/"⟩ : Path).relativeTo ⟨"/p/Apps/App/Kit"⟩ = "../.." := by
      decide +kernel
    rw [← spelled]
    exact paths _ _ (by decide +kernel) (by decide +kernel)
  · obtain ⟨recorded, lead⟩ := projects nestedSample apart
    exact lead map (recorded {} ⟨"/p"⟩ (.ofMilliseconds 0))
      (PackageGraph.sampleLeaf "App" "/p/Apps/App") (by decide +kernel)
      (PackageGraph.sampleLeaf "Core" "/p/Packages/Core") (by decide +kernel)

end PackageLayers.Project

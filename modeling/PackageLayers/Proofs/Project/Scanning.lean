/-
Purpose: Which manifests a scan finds, and that storing the map does not change them.
Main exports: Path.Before, Path.precedes_iff, Project.IsFound,
  Project.manifests_are_listed, Project.manifestsBelow_congr,
  Project.discoveriesOf_store
-/
import Mathlib.Data.List.Basic
import Mathlib.Data.List.Lex
import Mathlib.Data.List.Sort
import PackageLayers.Project.Update
import PackageLayers.Proofs.Files.Directions
import PackageLayers.Proofs.Files.Walks

namespace PackageLayers

/-!
The walk of a scan comes to a regular file exactly if it enters the directories
between the root and the file; the root itself may have any name, and may be a
manifest.  One path lies at or below another if it begins with the components of the
other, so an excluded directory is one under the spelling under which the scan comes
to it.  For paths that lead straight down that is the same as to lie there in the
tree.

Paths are ordered by their components, and those are ordered without ties.  No two
files have the same path, so the list ascends strictly.

A scan looks at the names of files and at the texts of those that are manifests.
To store the map makes directories and one file, and that file has the name of no
manifest.  In a tree the listed files are where their paths lead, so every manifest
is read as before.
-/

namespace Files

variable {files : Files} {path : Path}

theorem fileOf_of_locate {location : Location}
    (located : files.locate path = .ok location) :
    files.fileOf? path = files.file? location := by
  rw [fileOf?, entryOf?, located]
  rfl

end Files

/-! ### The order of paths -/

namespace Component

variable {first second : Component}

/-- Whether a component comes before another: by its kind, or as a name by its
text. -/
inductive Before : Component → Component → Prop
  | kind {first second : Component} (lower : first.rank < second.rank) :
      Before first second
  | text {left right : String} (less : left < right) : Before (.name left) (.name right)

theorem precedes_iff : first.precedes second ↔ Before first second := by
  fun_cases precedes first second with
  | case1 left right =>
      constructor
      · intro less
        exact .text (of_decide_eq_true less)
      · rintro (lower | less)
        · exact absurd lower (Nat.lt_irrefl _)
        · exact decide_eq_true less
  | case2 _ _ notNames =>
      constructor
      · intro lower
        exact .kind (of_decide_eq_true lower)
      · intro before
        cases before with
        | kind lower => exact decide_eq_true lower
        | text less => exact (notNames _ _ rfl rfl).elim

/-- Components of one kind are the same or names. -/
theorem eq_of_rank (same : first.rank = second.rank) :
    first = second ∨ ∃ left right, first = .name left ∧ second = .name right := by
  cases first <;> cases second <;> simp [rank] at same ⊢

instance : Std.Asymm Before where
  asymm first second before after := by
    cases before with
    | kind lower =>
        cases after with
        | kind higher => omega
        | text => exact Nat.lt_irrefl _ lower
    | text less =>
        cases after with
        | kind lower => exact Nat.lt_irrefl _ lower
        | text more => exact String.lt_asymm less more

instance : Std.Trichotomous Before where
  trichotomous first second notBefore notAfter := by
    have kinds : first.rank = second.rank :=
      Nat.le_antisymm (Nat.not_lt.mp fun lower => notAfter (.kind lower))
        (Nat.not_lt.mp fun lower => notBefore (.kind lower))
    rcases eq_of_rank kinds with same | ⟨left, right, rfl, rfl⟩
    · exact same
    · congr 1
      exact String.le_antisymm (String.not_lt.mp fun less => notAfter (.text less))
        (String.not_lt.mp fun less => notBefore (.text less))

instance : IsOrderConnected Component Before where
  conn first between second before := by
    cases before with
    | kind lower =>
        by_cases below : first.rank < between.rank
        · exact Or.inl (.kind below)
        · exact Or.inr (.kind (Nat.lt_of_le_of_lt (Nat.not_lt.mp below) lower))
    | @text left right less =>
        cases between with
        | name middle =>
            by_cases below : left < middle
            · exact Or.inl (.text below)
            · refine Or.inr (.text (String.not_le.mp fun above => ?_))
              exact String.not_lt.mpr (String.le_trans above (String.not_lt.mp below)) less
        | root | here | parent => exact Or.inr (.kind (by simp [rank]))

end Component

namespace Path

variable {first second third : Path}

theorem componentsPrecede_iff {left right : List Component} :
    componentsPrecede left right ↔ List.Lex Component.Before left right := by
  fun_induction componentsPrecede left right with
  | case1 => simp
  | case2 => simp
  | case3 left lefts right rights inductionHypothesis =>
      rw [Bool.or_eq_true, Bool.and_eq_true, beq_iff_eq, Component.precedes_iff,
        inductionHypothesis]
      constructor
      · rintro (before | ⟨rfl, later⟩)
        · exact .rel before
        · exact .cons later
      · rintro (_ | before | later)
        · exact Or.inl before
        · exact Or.inr ⟨rfl, later⟩

/-- Whether a path comes before another: by the first component in which they
differ, or because the other goes on. -/
def Before (first second : Path) : Prop :=
  List.Lex Component.Before first.components second.components

instance : Std.Asymm Before where
  asymm first second before after := by
    rw [Before] at before after
    exact asymm before after

theorem precedes_iff : first.precedes second ↔ Before first second :=
  componentsPrecede_iff

theorem precedes_total (first second : Path) :
    !second.precedes first ∨ !first.precedes second := by
  rw [Bool.not_eq_true', Bool.not_eq_true', ← Bool.not_eq_true, ← Bool.not_eq_true,
    precedes_iff, precedes_iff, ← not_and_or, Before, Before]
  exact fun both => asymm both.1 both.2

theorem precedes_trans (first second third : Path) (early : !second.precedes first)
    (late : !third.precedes second) : !third.precedes first := by
  rw [Bool.not_eq_true', ← Bool.not_eq_true, precedes_iff, Before] at *
  exact IsOrderConnected.neg_trans late early

theorem before_of_ne (notAfter : !second.precedes first)
    (different : first.components ≠ second.components) : first.Before second := by
  rw [Bool.not_eq_true', ← Bool.not_eq_true, precedes_iff, Before] at notAfter
  rw [Before]
  by_contra notBefore
  exact different (Std.Trichotomous.trichotomous _ _ notBefore notAfter)

end Path

namespace Project

variable {tree : FileTree} {root : Path} {excluded : List Path}
  {names between lead : List String}

/-! ### What is entered -/

/-- Whether a scan from a root enters the directory that names lead to: it is none
of those that hold what is fetched or built, and does not lie at or below one that
is excluded. -/
structure IsEntered (root : Path) (excluded : List Path) (names : List String) :
    Prop where
  own : ∀ name ∈ names.getLast?, name ∉ [".build", ".git", ".swiftpm", "DerivedData",
    "Pods", "Carthage", "node_modules"]
  outside : ∀ directory ∈ excluded,
    ¬directory.components <+: (root.descend names).components

/-- The root passes, and a directory below it if it is entered. -/
theorem isExcluded_directory (plain : ∀ name ∈ names, IsName name) :
    isExcluded excluded ⟨root.descend names, names.length, .directory⟩ = false ↔
      (names ≠ [] → IsEntered root excluded names) := by
  rw [isExcluded]
  cases ends : names.getLast? with
  | none =>
      rw [List.getLast?_eq_none_iff] at ends
      simp [ends]
  | some last =>
      have filled : names ≠ [] := by
        rintro rfl
        cases ends
      have name : (Visit.mk (root.descend names) names.length .directory).name =
          last := by
        rw [Visit.name, Path.fileName_descend root plain, ends]
        rfl
      have deep : names.length ≠ 0 := mt List.length_eq_zero_iff.mp filled
      have own : foreignDirectories.contains last = false ↔
          ∀ name ∈ names.getLast?, name ∉ foreignDirectories := by
        rw [ends]
        simp
      have outside : (excluded.any fun directory =>
            (root.descend names).isBelow directory) = false ↔
          ∀ directory ∈ excluded,
            ¬directory.components <+: (root.descend names).components := by
        simp [List.any_eq_false, Path.isBelow]
      rw [if_neg (by simpa using deep), name, Bool.or_eq_false_iff, own, outside]
      constructor
      · rintro ⟨own, outside⟩ -
        exact ⟨own, outside⟩
      · intro entered
        obtain ⟨own, outside⟩ := entered filled
        exact ⟨own, outside⟩

theorem isExcluded_regular (path : Path) (depth : Nat) :
    isExcluded excluded ⟨path, depth, .regular⟩ = false := by
  have other : FileKind.regular ≠ .directory := by decide
  rw [isExcluded, if_pos (Or.inl other)]

/-- A walk comes to a regular file if the directories between the root and the file
are entered. -/
theorem reaches_regular_iff (proper : tree.isProper)
    (plain : ∀ name ∈ lead, IsName name) :
    tree.Reaches (fun visit => !isExcluded excluded visit) (root.descend lead)
        lead.length names .regular ↔
      tree.Leads names .regular ∧ ∀ between, between <+: names → between ≠ names →
        lead ++ between ≠ [] → IsEntered root excluded (lead ++ between) := by
  have passes {lead : List String} (plain : ∀ name ∈ lead, IsName name) :
      (!isExcluded excluded ⟨root.descend lead, lead.length, .directory⟩) = true ↔
        (lead ≠ [] → IsEntered root excluded lead) := by
    rw [Bool.not_eq_true', isExcluded_directory plain]
  induction names generalizing tree lead with
  | nil =>
      constructor
      · intro reaches
        refine ⟨reaches.leads, fun between starts other => ?_⟩
        exact absurd (List.prefix_nil.mp starts) other
      · rintro ⟨leads, -⟩
        cases leads
        exact .here (congrArg not (isExcluded_regular _ _))
  | cons name names inductionHypothesis =>
      have deeper {next : FileTree} (properNext : next.isProper)
          (named : IsName name) :=
        @inductionHypothesis next (lead ++ [name]) properNext
          (by simpa [or_imp, forall_and] using ⟨plain, named⟩)
      simp only [Path.descend_concat, List.length_append, List.length_singleton,
        List.append_assoc, List.singleton_append] at deeper
      constructor
      · intro reaches
        cases reaches with
        | through passed member further =>
            obtain ⟨named, properNext⟩ := (FileTree.isProper_directory.mp proper).2 _ member
            obtain ⟨leads, entered⟩ := (deeper properNext named).mp further
            refine ⟨.through member leads, fun between starts other filled => ?_⟩
            cases between with
            | nil =>
                rw [List.append_nil] at filled ⊢
                exact (passes plain).mp passed filled
            | cons first between =>
                obtain ⟨rfl, inner⟩ := List.cons_prefix_cons.mp starts
                exact entered between inner (fun same => other (by rw [same])) (by simp)
      · rintro ⟨leads, entered⟩
        cases leads with
        | through member further =>
            obtain ⟨named, properNext⟩ := (FileTree.isProper_directory.mp proper).2 _ member
            have passed := entered [] List.nil_prefix (by simp)
            rw [List.append_nil] at passed
            refine .through ((passes plain).mpr passed) member ?_
            refine (deeper properNext named).mpr ⟨further, ?_⟩
            intro between starts other filled
            exact entered (name :: between) (List.cons_prefix_cons.mpr ⟨rfl, starts⟩)
              (by simpa using other) (by simp)

/-! ### What is listed -/

/-- A manifest that a scan from a root finds: the regular file of that name to which
names lead, through directories that the scan enters.  Where no names are left, the
root itself is the file. -/
structure IsFound (tree : FileTree) (root : Path) (excluded : List Path)
    (names : List String) : Prop where
  regular : tree.Leads names .regular
  named : names.getLast?.or root.fileName? = some "Package.swift"
  entered : ∀ between, between <+: names → between ≠ [] → between ≠ names →
    IsEntered root excluded between

/-- What is visited has the name of manifests if that is the last name that leads
there. -/
theorem name_iff (plain : ∀ name ∈ names, IsName name) (depth : Nat)
    (kind : FileKind) :
    (Visit.mk (root.descend names) depth kind).name = manifestName ↔
      names.getLast?.or root.fileName? = some "Package.swift" := by
  rw [Visit.name, Path.fileName_descend root plain]
  cases last : names.getLast?.or root.fileName? with
  | some name => simp [manifestName]
  | none =>
      obtain ⟨none, unnamed⟩ := Option.or_eq_none_iff.mp last
      rw [List.getLast?_eq_none_iff] at none
      subst none
      constructor
      · intro whole
        obtain rfl : root = ⟨"Package.swift"⟩ := congrArg Path.mk whole
        revert unnamed
        decide
      · intro impossible
        cases impossible

section

variable (proper : tree.isProper)

include proper

theorem mem_scan_iff {path : Path} : path ∈ scan tree root excluded ↔
    ∃ names, IsFound tree root excluded names ∧ path = root.descend names := by
  simp only [scan, mem_sortBy, List.mem_map, List.mem_filter, FileTree.mem_walk,
    Bool.and_eq_true, beq_iff_eq]
  have lead := @reaches_regular_iff tree root excluded
  constructor
  · rintro ⟨visit, ⟨⟨names, part, reaches, rfl⟩, regular, named⟩, rfl⟩
    obtain rfl : part = .regular := by
      cases part with
      | regular => rfl
      | other => cases regular
      | directory => cases regular
    have plain := reaches.leads.plain proper
    obtain ⟨leads, entered⟩ := (@lead names [] proper (by simp)).mp reaches
    refine ⟨names, ⟨leads, (name_iff plain _ _).mp named, ?_⟩, rfl⟩
    exact fun between starts filled other => entered between starts other filled
  · rintro ⟨names, ⟨leads, named, entered⟩, rfl⟩
    refine ⟨_, ⟨⟨names, .regular, ?_, rfl⟩, rfl, ?_⟩, rfl⟩
    · refine (@lead names [] proper (by simp)).mpr ⟨leads, ?_⟩
      exact fun between starts other filled => entered between starts filled other
    · exact (name_iff (leads.plain proper) _ _).mpr named

/-- The paths of different manifests are different. -/
theorem apart_scan : (scan tree root excluded).Pairwise fun first second =>
    first.components ≠ second.components := by
  rw [scan, (sortBy_perm _).pairwise_iff Ne.symm, List.pairwise_map]
  exact (FileTree.apart_walk proper).filter _

/-- The manifests are listed in the order of their paths. -/
theorem ascending_scan : (scan tree root excluded).Pairwise Path.Before := by
  have sorted : (scan tree root excluded).Pairwise fun first second =>
      !second.precedes first :=
    sortBy_pairwise Path.precedes_total Path.precedes_trans _
  exact (sorted.and (apart_scan proper)).imp fun both =>
    Path.before_of_ne both.1 both.2

/-- A scan of a tree lists, from whatever root and whatever is excluded, the regular
files named `Package.swift` that lie in no directory it does not enter, each once and
in the order of the paths that lead to them. -/
theorem manifests_are_listed (root : Path) (excluded : List Path) :
    let listed := scan tree root excluded
    listed.Pairwise Path.Before ∧ listed.Nodup ∧
      ∀ path, path ∈ listed ↔
        ∃ names, IsFound tree root excluded names ∧ path = root.descend names := by
  intro listed
  refine ⟨ascending_scan proper, ?_, fun path => mem_scan_iff proper⟩
  refine (apart_scan proper).imp fun different same => ?_
  exact different (congrArg _ same)

end

/-- A tree with manifests of the project, of what was fetched for it, and of its
cache, out of order, and with a link by the name of manifests. -/
def treeSample : FileTree :=
  .directory
    [("Core", .directory [("Package.swift", .regular)]),
      ("App", .directory
        [(".build", .directory [("Package.swift", .regular)]),
          ("Package.swift", .regular), ("Package.swift.orig", .regular)]),
      ("Linked", .directory [("Package.swift", .other)]),
      ("Pods", .regular),
      ("cache", .directory [("old", .directory [("Package.swift", .regular)])])]

theorem manifests_are_listed_sample :
    let listed := scan treeSample ⟨"Pods"⟩ [⟨"Pods/./cache/"⟩]
    treeSample.isProper ∧ listed.Pairwise Path.Before ∧
      (∃ names, IsFound treeSample ⟨"Pods"⟩ [⟨"Pods/./cache/"⟩] names ∧
        (⟨"Pods/Core/Package.swift"⟩ : Path) = Path.descend ⟨"Pods"⟩ names) ∧
      ¬IsFound treeSample ⟨"Pods"⟩ [⟨"Pods/./cache/"⟩]
        ["cache", "old", "Package.swift"] := by
  intro listed
  have proper : treeSample.isProper := by decide +kernel
  obtain ⟨ascending, -, exact⟩ :=
    manifests_are_listed proper ⟨"Pods"⟩ [⟨"Pods/./cache/"⟩]
  refine ⟨proper, ascending, (exact _).mp (by decide +kernel), fun found => ?_⟩
  have entered := found.entered ["cache"] (by decide) (by decide) (by decide)
  exact entered.outside ⟨"Pods/./cache/"⟩ List.mem_cons_self (by decide)

/-- Copies, links and what is excluded are left out, and the rest comes in order. -/
example :
    scan treeSample ⟨"Pods"⟩ [⟨"Pods/./cache/"⟩] =
      [⟨"Pods/App/Package.swift"⟩, ⟨"Pods/Core/Package.swift"⟩] := by
  decide +kernel

/-! ### The files of a machine -/

section

variable {files later : Files} {location : Location} {path : Path}

theorem manifestsBelow_eq (located : files.locate root = .ok location)
    (excluded : List Path) :
    manifestsBelow files root excluded = scan (files.tree location) root excluded := by
  rw [manifestsBelow, located]

variable (whole : files.IsTree) (located : files.locate root = .ok location)

include whole located

theorem locate_descend {file : File}
    (found : files.file? (location ++ names) = some file) :
    files.locate (root.descend names) = .ok (location ++ names) :=
  whole.locate_below located (Files.mem_entries_of_file found)

theorem mem_manifestsBelow_iff : path ∈ manifestsBelow files root excluded ↔
    ∃ names, IsFound (files.tree location) root excluded names ∧
      path = root.descend names := by
  rw [manifestsBelow_eq located, mem_scan_iff (Files.isProper_tree whole location)]

theorem ascending_manifestsBelow :
    (manifestsBelow files root excluded).Pairwise Path.Before := by
  rw [manifestsBelow_eq located]
  exact ascending_scan (Files.isProper_tree whole location)

/-- A scan of the files of a machine finds the files by the name of manifests to whose
locations names lead through directories that it enters. -/
theorem isFound_tree_iff : IsFound (files.tree location) root excluded names ↔
    (files.file? (location ++ names)).isSome ∧
      (location ++ names).getLast? = some manifestName ∧
      ∀ between, between <+: names → between ≠ [] → between ≠ names →
        IsEntered root excluded between := by
  have named (found : (files.file? (location ++ names)).isSome) :
      names.getLast?.or root.fileName? = (location ++ names).getLast? := by
    obtain ⟨file, found⟩ := Option.isSome_iff_exists.mp found
    have plain : ∀ name ∈ names, IsName name := fun name member =>
      (whole.named _ (Files.mem_entries_of_file found)).2 name
        (List.mem_append_right location member)
    obtain ⟨parent, name, place, spelled, -⟩ :=
      Files.parent_of_file (locate_descend whole located found) found
    rw [← Path.fileName_descend root plain, spelled, place, List.getLast?_concat]
  constructor
  · rintro ⟨regular, last, entered⟩
    have found := (Files.leads_tree whole).mp regular
    exact ⟨found, named found ▸ last, entered⟩
  · rintro ⟨found, last, entered⟩
    exact ⟨(Files.leads_tree whole).mpr found, (named found).trans last, entered⟩

/-- The manifests that are listed are determined by which files of that name there
are. -/
theorem manifestsBelow_congr (wholeLater : later.IsTree)
    (locatedLater : later.locate root = .ok location)
    (same : ∀ place, place.getLast? = some manifestName →
      (later.file? place).isSome = (files.file? place).isSome) :
    manifestsBelow later root excluded = manifestsBelow files root excluded := by
  have : Std.Antisymm Path.Before :=
    ⟨fun first second less more => absurd more (asymm less)⟩
  refine List.Pairwise.eq_of_mem_iff
    (ascending_manifestsBelow wholeLater locatedLater)
    (ascending_manifestsBelow whole located) fun path => ?_
  rw [mem_manifestsBelow_iff wholeLater locatedLater,
    mem_manifestsBelow_iff whole located]
  refine exists_congr fun names => and_congr_left fun _ => ?_
  rw [isFound_tree_iff wholeLater locatedLater, isFound_tree_iff whole located]
  constructor
  · rintro ⟨found, named, entered⟩
    exact ⟨same _ named ▸ found, named, entered⟩
  · rintro ⟨found, named, entered⟩
    exact ⟨(same _ named).symm ▸ found, named, entered⟩

/-- The path of a manifest leads to a file of that name. -/
theorem locate_manifest {cache manifest : Path}
    (listed : manifest ∈ manifestsOf files root cache) :
    ∃ place, files.locate manifest = .ok place ∧
      place.getLast? = some manifestName := by
  obtain ⟨names, found, rfl⟩ := (mem_manifestsBelow_iff whole located).mp listed
  obtain ⟨here, named, -⟩ := (isFound_tree_iff whole located).mp found
  obtain ⟨file, here⟩ := Option.isSome_iff_exists.mp here
  exact ⟨_, locate_descend whole located here, named⟩

end

/-! ### Storing the map -/

theorem isName_mapFile : IsName "project-map.json" := by decide

/-- The file of the map is no manifest. -/
theorem mapPath_apart (cache : Path) :
    (mapPath cache).place.getLast? ≠ some manifestName := by
  rw [mapPath, Path.place_child cache isName_mapFile, List.getLast?_concat]
  decide

section

variable {cache : Path} {files later : Files} {location : Location}
  {content : Content} {modified : Nat}

variable (whole : files.IsTree) (located : files.locate root = .ok location)
  (stored : files.store (mapPath cache) content modified = .ok later)

include whole located stored

/-- To store the map leaves the same manifests to be found. -/
theorem manifestsOf_store :
    manifestsOf later root cache = manifestsOf files root cache := by
  refine manifestsBelow_congr whole located (whole.store stored)
    (Files.locate_store stored located) fun place named => ?_
  rw [Files.file_store stored place fun same => mapPath_apart cache (same ▸ named)]

/-- To store the map leaves the same to be found in the manifests of a tree. -/
theorem discoveriesOf_store :
    discoveriesOf later root cache = discoveriesOf files root cache := by
  rw [discoveriesOf, discoveriesOf, manifestsOf_store whole located stored]
  refine List.filterMap_congr fun manifest listed => ?_
  obtain ⟨place, led, named⟩ := locate_manifest whole located listed
  have same : later.fileOf? manifest = files.fileOf? manifest := by
    rw [Files.fileOf_of_locate led, Files.fileOf_of_locate (Files.locate_store stored led),
      Files.file_store stored place fun same => mapPath_apart cache (same ▸ named)]
  rw [Discovery.ofFile?, Discovery.ofFile?, Files.textOf?, Files.textOf?, same]

end

end Project

end PackageLayers

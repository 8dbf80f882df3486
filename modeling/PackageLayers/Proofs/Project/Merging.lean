/-
Purpose: What an update leaves of the tables of a map.
Main exports: Dict.Grows, ProjectMap.Keeps, ProjectMap.keeps_updated,
  ProjectMap.schemaVersion_updated, updateMap_cases
-/
import PackageLayers.Project.Update
import PackageLayers.Proofs.Tables

namespace PackageLayers

/-!
No finding takes a name out of a table.  What is recorded under a name may change
only as the table's own rule says: nothing but the targets of a package, the
targets of a product that had none, and nothing of an origin.  Where conflicts are
to be overridden that holds of the names alone, but an origin still gives way only
to a declaration that states the name.

Every finding is one insertion, so each rule is shown once for an insertion, and
the passes over the discoveries are folds of such steps.
-/

namespace Dict

variable {α : Type} {first second third : Dict α}

/-- Whether every name is still held, with a value that `fits` the one before. -/
def Grows (fits : String → α → α → Prop) (before after : Dict α) : Prop :=
  ∀ name value, before.get? name = some value →
    ∃ later, after.get? name = some later ∧ fits name value later

namespace Grows

variable {fits wider : String → α → α → Prop}

theorem refl (same : ∀ name value, fits name value value) (dict : Dict α) :
    dict.Grows fits dict :=
  fun name value held => ⟨value, held, same name value⟩

theorem trans
    (chain : ∀ name value middle later, fits name value middle →
      fits name middle later → fits name value later)
    (early : first.Grows fits second) (late : second.Grows fits third) :
    first.Grows fits third := by
  intro name value held
  obtain ⟨middle, between, kept⟩ := early name value held
  obtain ⟨later, after, keptAgain⟩ := late name middle between
  exact ⟨later, after, chain name value middle later kept keptAgain⟩

theorem mono (implies : ∀ name value later, fits name value later →
      wider name value later) (grows : first.Grows fits second) :
    first.Grows wider second := by
  intro name value held
  obtain ⟨later, after, kept⟩ := grows name value held
  exact ⟨later, after, implies name value later kept⟩

/-- A value that fits the one of its name may be put in its place. -/
theorem insert (same : ∀ name value, fits name value value) (dict : Dict α)
    {name : String} {value : α}
    (fit : ∀ old, dict.get? name = some old → fits name old value) :
    dict.Grows fits (dict.insert name value) := by
  intro other old held
  rw [get?_insert]
  by_cases here : other = name
  · subst here
    exact ⟨value, if_pos rfl, fit old held⟩
  · exact ⟨old, by rw [if_neg here, held], same other old⟩

theorem contains (grows : first.Grows fits second) {name : String}
    (held : first.contains name) : second.contains name := by
  rw [Dict.contains, Option.isSome_iff_exists] at held ⊢
  obtain ⟨value, held⟩ := held
  obtain ⟨later, after, -⟩ := grows name value held
  exact ⟨later, after⟩

end Grows

end Dict

namespace Project

/-! ### What is kept -/

/-- Whether an entry is of the same package at the same place. -/
structure PackageEntry.Stays (entry later : PackageEntry) : Prop where
  directory : later.directory = entry.directory
  manifest : later.manifest = entry.manifest

/-- Whether an entry is of the same product, with the same targets if any were
known. -/
structure ProductEntry.Stays (entry later : ProductEntry) : Prop where
  name : later.name = entry.name
  kind : later.kind = entry.kind
  package : later.package = entry.package
  targets : entry.targets ≠ [] → later.targets = entry.targets

/-- Whether a discovery declares an origin and states its name. -/
def DeclaresByName (discoveries : List Discovery) (name : String) (origin : Origin) :
    Prop :=
  ∃ discovery ∈ discoveries, ∃ declaration ∈ discovery.package.declarations,
    declaration.name = some name ∧
      ProjectMap.originOf? discovery.directory declaration = some origin

namespace ProjectMap

/-- What a later map keeps of an earlier one: all names and the policy, and where
the first finding for a name is to stay (`firstStays`) what was found first.  An
origin gives way at most to one that is declared by name. -/
structure Keeps (firstStays : Prop) (declared : String → Origin → Prop)
    (before after : ProjectMap) : Prop where
  packages : before.packages.Grows
    (fun _ entry later => firstStays → entry.Stays later) after.packages
  products : before.products.Grows
    (fun _ entry later => firstStays → entry.Stays later) after.products
  origins : before.origins.Grows
    (fun name origin later =>
      later = origin ∨ ¬firstStays ∧ declared name later) after.origins
  policy : after.policy = before.policy

namespace Keeps

variable {firstStays : Prop} {declared : String → Origin → Prop}
  {first second third : ProjectMap}

theorem refl (map : ProjectMap) : Keeps firstStays declared map map where
  packages := .refl (fun _ _ _ => ⟨rfl, rfl⟩) map.packages
  products := .refl (fun _ _ _ => ⟨rfl, rfl, rfl, fun _ => rfl⟩) map.products
  origins := fun _ origin held => ⟨origin, held, Or.inl rfl⟩
  policy := rfl

theorem trans (early : Keeps firstStays declared first second)
    (late : Keeps firstStays declared second third) :
    Keeps firstStays declared first third where
  packages := early.packages.trans (fun _ _ _ _ kept again stays =>
    ⟨(again stays).directory.trans (kept stays).directory,
      (again stays).manifest.trans (kept stays).manifest⟩) late.packages
  products := early.products.trans (fun _ _ _ _ kept again stays =>
    { name := (again stays).name.trans (kept stays).name
      kind := (again stays).kind.trans (kept stays).kind
      package := (again stays).package.trans (kept stays).package
      targets := fun known => by
        have same := (kept stays).targets known
        rw [(again stays).targets (same ▸ known), same] }) late.products
  origins := early.origins.trans (fun name origin middle later kept again => by
    rcases again with rfl | named
    · exact kept
    · exact Or.inr named) late.origins
  policy := late.policy.trans early.policy

/-- Less is kept if first findings need not stay or more origins are declared. -/
theorem mono {stays : Prop} {wider : String → Origin → Prop}
    (weaker : stays → firstStays)
    (more : ∀ name origin, declared name origin → wider name origin)
    (keeps : Keeps firstStays declared first second) :
    Keeps stays wider first second where
  packages := keeps.packages.mono fun _ _ _ kept still => kept (weaker still)
  products := keeps.products.mono fun _ _ _ kept still => kept (weaker still)
  origins := keeps.origins.mono fun name _ later kept =>
    kept.imp_right fun ⟨loose, named⟩ =>
      ⟨fun still => loose (weaker still), more name later named⟩
  policy := keeps.policy

/-- Where first findings stay, it does not matter what is declared. -/
theorem settle {stays : Prop} {other : String → Origin → Prop}
    (keeps : Keeps firstStays declared first second) (known : firstStays) :
    Keeps stays other first second where
  packages := keeps.packages.mono fun _ _ _ kept _ => kept known
  products := keeps.products.mono fun _ _ _ kept _ => kept known
  origins := keeps.origins.mono fun _ _ _ kept =>
    Or.inl (kept.resolve_right fun loose => loose.1 known)
  policy := keeps.policy

/-- What every step keeps is kept by all steps. -/
theorem foldl {α : Type} {step : ProjectMap → α → ProjectMap} {items : List α}
    (each : ∀ map, ∀ item ∈ items, Keeps firstStays declared map (step map item))
    (map : ProjectMap) : Keeps firstStays declared map (items.foldl step map) := by
  induction items generalizing map with
  | nil => exact refl map
  | cons item items inductionHypothesis =>
      exact (each map item List.mem_cons_self).trans
        (inductionHypothesis
          (fun map other member => each map other (List.mem_cons_of_mem _ member)) _)

end Keeps

/-! ### Findings -/

variable {options : MergeOptions} {declared : String → Origin → Prop}

theorem keeps_putPackage (map : ProjectMap) {firstStays : Prop} {name : String}
    {entry : PackageEntry}
    (fit : ∀ old, map.packages.get? name = some old → firstStays →
      old.Stays entry) :
    Keeps firstStays declared map
      { map with packages := map.packages.insert name entry } :=
  { packages := .insert (fun _ _ _ => ⟨rfl, rfl⟩) map.packages fit
    products := (@Keeps.refl firstStays declared map).products
    origins := (@Keeps.refl firstStays declared map).origins
    policy := rfl }

theorem keeps_putProduct (map : ProjectMap) {firstStays : Prop} {name : String}
    {entry : ProductEntry}
    (fit : ∀ old, map.products.get? name = some old → firstStays →
      old.Stays entry) :
    Keeps firstStays declared map
      { map with products := map.products.insert name entry } :=
  { packages := (@Keeps.refl firstStays declared map).packages
    products := .insert (fun _ _ _ => ⟨rfl, rfl, rfl, fun _ => rfl⟩) map.products
      fit
    origins := (@Keeps.refl firstStays declared map).origins
    policy := rfl }

theorem keeps_putOrigin (map : ProjectMap) {firstStays : Prop} {name : String}
    {origin : Origin}
    (fit : ∀ old, map.origins.get? name = some old →
      origin = old ∨ ¬firstStays ∧ declared name origin) :
    Keeps firstStays declared map
      { map with origins := map.origins.insert name origin } :=
  { packages := (@Keeps.refl firstStays declared map).packages
    products := (@Keeps.refl firstStays declared map).products
    origins := by
      refine .insert (fun _ _ => ?_) map.origins fit
      exact Or.inl rfl
    policy := rfl }

theorem keeps_addPackage (map : ProjectMap) (discovery : Discovery) :
    Keeps (options.overrideConflicts = false) declared map
      (map.addPackage options discovery) := by
  rw [addPackage]
  dsimp only
  split
  · rename_i free
    refine keeps_putPackage map fun old held => ?_
    rw [free] at held
    cases held
  · rename_i recorded found
    split
    · refine keeps_putPackage map fun old held _ => ?_
      rw [found] at held
      cases held
      exact ⟨rfl, rfl⟩
    · split
      · rename_i override
        refine keeps_putPackage map fun old held kept => ?_
        rw [kept] at override
        cases override
      · exact .refl map

theorem keeps_addProduct (map : ProjectMap) (entry : ProductEntry) :
    Keeps (options.overrideConflicts = false) declared map
      (map.addProduct options entry) := by
  rw [addProduct]
  dsimp only
  split
  · rename_i free
    refine keeps_putProduct map fun old held => ?_
    rw [free] at held
    cases held
  · rename_i recorded found
    split
    · split
      · rename_i news
        refine keeps_putProduct map fun old held _ => ?_
        rw [found] at held
        cases held
        rw [Bool.and_eq_true, List.isEmpty_iff] at news
        exact ⟨rfl, rfl, rfl, fun known => absurd news.1 known⟩
      · exact .refl map
    · split
      · rename_i override
        refine keeps_putProduct map fun old held kept => ?_
        rw [kept] at override
        cases override
      · exact .refl map

/-- An origin gives way to one of a stated name only where conflicts are to be
overridden. -/
theorem keeps_addOrigin (map : ProjectMap) {name : String} {implied : Bool}
    {origin : Origin} (stated : implied = false → declared name origin) :
    Keeps (options.overrideConflicts = false) declared map
      (addOrigin options map name implied origin) := by
  rw [addOrigin]
  split
  · rename_i free
    refine keeps_putOrigin map fun old held => ?_
    rw [free] at held
    cases held
  · split
    · exact .refl map
    · rename_i conflict
      simp only [Bool.or_eq_true, Bool.not_eq_true', not_or, Bool.not_eq_true,
        Bool.not_eq_false] at conflict
      refine keeps_putOrigin map fun old _ => Or.inr ⟨fun kept => ?_, ?_⟩
      · rw [conflict.2] at kept
        cases kept
      · exact stated conflict.1.2

theorem name_of_stated {declaration : Manifest.Declaration} {name : String}
    (named : nameOf? options declaration = some (name, false)) :
    declaration.name = some name := by
  rw [nameOf?] at named
  split at named
  · rename_i stated
    cases named
    exact stated
  · split at named
    · obtain ⟨_, -, same⟩ := Option.map_eq_some_iff.mp named
      cases same
    · cases named

theorem keeps_addDeclaration (map : ProjectMap) {directory : Path}
    {declaration : Manifest.Declaration}
    (stated : ∀ name origin, declaration.name = some name →
      originOf? directory declaration = some origin → declared name origin) :
    Keeps (options.overrideConflicts = false) declared map
      (addDeclaration options directory map declaration) := by
  rw [addDeclaration]
  split
  · rename_i name implied origin named given
    refine keeps_addOrigin map fun explicit => ?_
    subst explicit
    exact stated name origin (name_of_stated named) given
  · exact .refl map

theorem keeps_addProducts (map : ProjectMap) (discovery : Discovery) :
    Keeps (options.overrideConflicts = false) declared map
      (addProducts options map discovery) :=
  .foldl (fun map _ _ => keeps_addProduct map _) map

theorem keeps_addUses (map : ProjectMap) {discovery : Discovery}
    {discoveries : List Discovery} (listed : discovery ∈ discoveries) :
    Keeps (options.overrideConflicts = false) (DeclaresByName discoveries) map
      (addUses options map discovery) := by
  refine Keeps.trans
    (.foldl (fun map _ _ => keeps_addProduct map _) map)
    (.foldl (fun map declaration inside => ?_) _)
  exact keeps_addDeclaration map fun name origin named given =>
    ⟨discovery, listed, declaration, inside, named, given⟩

/-- To add discoveries keeps what the tables hold. -/
theorem keeps_collect (discoveries : List Discovery) (map : ProjectMap) :
    Keeps (options.overrideConflicts = false) (DeclaresByName discoveries) map
      (map.collect options discoveries) :=
  (Keeps.foldl (fun map discovery _ => keeps_addPackage map discovery) map).trans
    ((Keeps.foldl (fun map discovery _ => keeps_addProducts map discovery) _).trans
      (Keeps.foldl (fun map _ listed => keeps_addUses map listed) _))

/-- An update keeps what the tables hold. -/
theorem keeps_updated (options : MergeOptions) (root : Path) (moment : Timestamp)
    (discoveries : List Discovery) (previous : ProjectMap) :
    Keeps (options.overrideConflicts = false) (DeclaresByName discoveries) previous
      (previous.updated options root moment discoveries) :=
  have collected : Keeps (options.overrideConflicts = false)
      (DeclaresByName discoveries) { previous with schemaVersion := currentSchema }
      (ProjectMap.collect options discoveries _) := keeps_collect discoveries _
  ⟨collected.packages, collected.products, collected.origins, collected.policy⟩

/-! ### The version of an updated map -/

theorem schemaVersion_foldl {α : Type} {step : ProjectMap → α → ProjectMap}
    (each : ∀ map item, (step map item).schemaVersion = map.schemaVersion)
    (items : List α) (map : ProjectMap) :
    (items.foldl step map).schemaVersion = map.schemaVersion := by
  induction items generalizing map with
  | nil => rfl
  | cons item items inductionHypothesis =>
      rw [List.foldl_cons, inductionHypothesis, each]

theorem schemaVersion_addPackage (map : ProjectMap) (discovery : Discovery) :
    (map.addPackage options discovery).schemaVersion = map.schemaVersion := by
  rw [addPackage]
  repeat' split
  all_goals rfl

theorem schemaVersion_addProduct (map : ProjectMap) (entry : ProductEntry) :
    (map.addProduct options entry).schemaVersion = map.schemaVersion := by
  rw [addProduct]
  repeat' split
  all_goals rfl

theorem schemaVersion_addDeclaration (map : ProjectMap) (directory : Path)
    (declaration : Manifest.Declaration) :
    (addDeclaration options directory map declaration).schemaVersion =
      map.schemaVersion := by
  rw [addDeclaration]
  split
  · rw [addOrigin]
    repeat' split
    all_goals rfl
  · rfl

/-- An updated map has the present layout, whatever the one before had. -/
theorem schemaVersion_updated (options : MergeOptions) (root : Path)
    (moment : Timestamp) (discoveries : List Discovery) (previous : ProjectMap) :
    (previous.updated options root moment discoveries).schemaVersion =
      currentSchema := by
  change (ProjectMap.collect options discoveries _).schemaVersion = _
  rw [collect, schemaVersion_foldl fun map discovery => ?uses,
    schemaVersion_foldl fun map discovery => ?products,
    schemaVersion_foldl schemaVersion_addPackage]
  case products =>
    exact schemaVersion_foldl (fun map _ => schemaVersion_addProduct map _) _ map
  case uses =>
    rw [addUses, schemaVersion_foldl (schemaVersion_addDeclaration · _),
      schemaVersion_foldl fun map _ => schemaVersion_addProduct map _]

end ProjectMap

/-! ### Updates -/

/-- An update that is made leaves the world as it was, or stores the map if it
differs from the one before. -/
theorem updateMap_eq_ok {options : MergeOptions} {root cache : Path}
    {world later : World} {summary : UpdateSummary}
    (updated : updateMap options root cache world = .ok (summary, later)) :
    ∃ previous map, storedMap? world.files cache = .ok previous ∧
      map = (previous.getD {}).updated options root world.moment
        (discoveriesOf world.files root cache) ∧
      summary = ⟨differs previous map, (manifestsOf world.files root cache).length⟩ ∧
      (differs previous map = false ∧ later = world ∨
        world.store (mapPath cache) (.text (documentText map.toJson)) =
          .ok later) := by
  simp only [updateMap, bind, Except.bind] at updated
  split at updated
  · cases updated
  · rename_i previous read
    refine ⟨previous, _, read, rfl, ?_⟩
    split at updated
    · split at updated
      · cases updated
      · rename_i stored
        cases updated
        exact ⟨rfl, Or.inr stored⟩
    · rename_i same
      cases updated
      exact ⟨rfl, Or.inl ⟨by simpa using same, rfl⟩⟩

/-- An update that is made leaves the world as it was, or stores the map. -/
theorem updateMap_cases {options : MergeOptions} {root cache : Path}
    {world later : World} {summary : UpdateSummary}
    (updated : updateMap options root cache world = .ok (summary, later)) :
    ∃ previous, storedMap? world.files cache = .ok previous ∧
      (later = world ∨
        world.store (mapPath cache)
          (.text (documentText ((previous.getD {}).updated options root world.moment
            (discoveriesOf world.files root cache)).toJson)) = .ok later) := by
  obtain ⟨previous, map, read, rfl, -, done⟩ := updateMap_eq_ok updated
  exact ⟨previous, read, done.imp_left And.right⟩

end Project

end PackageLayers

/-
Purpose: Adding findings to the tables of a map, each by its own rule.
Main exports: ProjectMap.adds_eq, ProjectMap.collect_again, ProjectMap.updated_again
-/
import Mathlib.Data.List.Induction
import PackageLayers.Project.Update
import PackageLayers.Proofs.Project.Rules

namespace PackageLayers.Project.ProjectMap

/-!
Each table of a map has its own rule.  Packages agree if they have the same
manifest, and then the later one says what the targets are.  Products agree if
they are of the same package, and then the first one with targets says what these
are.  Origins agree if they are the same place, and then the first one stays; one
that is only implied contradicts nothing.

The passes over the discoveries put one finding after the other, and no finding
touches a table but its own.  So what becomes of a table is a matter of the
findings for it alone.
-/

variable {options : MergeOptions}

/-! ### Packages -/

/-- A package with the targets of a discovery. -/
def withTargets (entry : PackageEntry) (discovery : Discovery) : PackageEntry :=
  { entry with targets := some discovery.targets }

theorem withTargets_all (entry : PackageEntry) (discoveries : List Discovery) :
    ∃ targets, discoveries.foldl withTargets entry =
      { entry with targets := targets } := by
  induction discoveries generalizing entry with
  | nil => exact ⟨entry.targets, rfl⟩
  | cons discovery discoveries inductionHypothesis =>
      obtain ⟨targets, same⟩ := inductionHypothesis (withTargets entry discovery)
      exact ⟨targets, same⟩

/-- The last discovery says what the targets are, however often it is asked. -/
theorem withTargets_again (discoveries : List Discovery) (entry : PackageEntry) :
    discoveries.foldl withTargets (discoveries.foldl withTargets entry) =
      discoveries.foldl withTargets entry := by
  cases discoveries using List.reverseRecOn with
  | nil => rfl
  | append_singleton earlier last =>
      obtain ⟨targets, same⟩ := withTargets_all
        (withTargets (earlier.foldl withTargets entry) last) earlier
      rw [List.foldl_concat, List.foldl_concat, same]
      rfl

/-- Packages with the same manifest agree. -/
def packageRule : Rule Discovery PackageEntry String where
  kindOf := PackageEntry.manifest
  claimed discovery := discovery.manifest.storedText
  alone := packageEntry
  merge := withTargets
  kindOf_alone _ := rfl
  kindOf_merge _ _ := rfl
  merge_alone _ := rfl
  merge_again := withTargets_again

/-! ### Products -/

/-- A product with the targets of another if it has none. -/
def filledFrom (entry other : ProductEntry) : ProductEntry :=
  if entry.targets.isEmpty && !other.targets.isEmpty then
    { entry with targets := other.targets }
  else entry

theorem filledFrom_of_filled {entry : ProductEntry}
    (filled : entry.targets.isEmpty = false) (other : ProductEntry) :
    filledFrom entry other = entry := by
  rw [filledFrom, filled]
  exact if_neg Bool.false_ne_true

theorem filledFrom_of_empty {other : ProductEntry}
    (empty : other.targets.isEmpty) (entry : ProductEntry) :
    filledFrom entry other = entry := by
  rw [filledFrom, empty, Bool.not_true, Bool.and_false]
  exact if_neg Bool.false_ne_true

/-- Where the other one has targets, the product has some afterwards. -/
theorem filled_filledFrom {other : ProductEntry}
    (filled : other.targets.isEmpty = false) (entry : ProductEntry) :
    (filledFrom entry other).targets.isEmpty = false := by
  cases empty : entry.targets.isEmpty with
  | false => rw [filledFrom_of_filled empty, empty]
  | true =>
      rw [filledFrom, empty, filled]
      exact filled

theorem filledFrom_all {entry : ProductEntry}
    (filled : entry.targets.isEmpty = false) (others : List ProductEntry) :
    others.foldl filledFrom entry = entry := by
  induction others with
  | nil => rfl
  | cons other others inductionHypothesis =>
      rw [List.foldl_cons, filledFrom_of_filled filled, inductionHypothesis]

/-- Once the products are gone through, none of them has anything to add. -/
theorem filledFrom_settled (others : List ProductEntry) (entry : ProductEntry) :
    ∀ other ∈ others,
      filledFrom (others.foldl filledFrom entry) other =
        others.foldl filledFrom entry := by
  induction others generalizing entry with
  | nil => exact fun _ member => nomatch member
  | cons first others inductionHypothesis =>
      intro other member
      rw [List.foldl_cons]
      rcases List.mem_cons.mp member with rfl | later
      · cases targets : other.targets.isEmpty with
        | true => exact filledFrom_of_empty targets _
        | false =>
            have filled := filled_filledFrom targets entry
            rw [filledFrom_all filled, filledFrom_of_filled filled]
      · exact inductionHypothesis _ other later

theorem filledFrom_again (others : List ProductEntry) (entry : ProductEntry) :
    others.foldl filledFrom (others.foldl filledFrom entry) =
      others.foldl filledFrom entry := by
  have settled := filledFrom_settled others entry
  generalize others.foldl filledFrom entry = final at settled
  induction others with
  | nil => rfl
  | cons other others inductionHypothesis =>
      rw [List.forall_mem_cons] at settled
      rw [List.foldl_cons, settled.1, inductionHypothesis settled.2]

/-- Products of packages whose names differ at most in the case of letters
agree. -/
def productRule : Rule ProductEntry ProductEntry String where
  kindOf entry := Text.fold entry.package
  claimed entry := Text.fold entry.package
  alone := id
  merge := filledFrom
  kindOf_alone _ := rfl
  kindOf_merge entry other := by
    rw [filledFrom]
    split <;> rfl
  merge_alone entry := by
    cases targets : entry.targets.isEmpty with
    | true => exact filledFrom_of_empty targets entry
    | false => exact filledFrom_of_filled targets entry
  merge_again := filledFrom_again

/-! ### Origins -/

/-- Origins at the same place agree.  A finding is an origin, and whether its name
is only implied. -/
def originRule : Rule (Bool × Origin) Origin (Option String × Option String) where
  kindOf origin := (origin.url, origin.path)
  claimed finding := (finding.2.url, finding.2.path)
  alone := Prod.snd
  merge origin _ := origin
  kindOf_alone _ := rfl
  kindOf_merge _ _ := rfl
  merge_alone _ := rfl
  merge_again findings origin := by
    have stays (origin : Origin) :
        findings.foldl (fun origin _ => origin) origin = origin := by
      induction findings <;> simp_all
    rw [stays, stays]

/-- Whether an origin takes the place of one that it contradicts. -/
def originPrevails (options : MergeOptions) (finding : Bool × Origin) : Bool :=
  options.overrideConflicts && !finding.1

/-- A record of an origin takes nothing from others at the same place. -/
theorem isClear_origins : originRule.IsClear (originPrevails options) :=
  Or.inr fun _ _ _ => rfl

/-! ### Findings -/

/-- What a manifest may contribute to a table. -/
inductive Finding where
  | package (discovery : Discovery)
  | product (entry : ProductEntry)
  | origin (name : String) (implied : Bool) (origin : Origin)

namespace Finding

/-- The package that a finding is about. -/
def package? : Finding → Option (String × Discovery)
  | .package discovery => some (discovery.name, discovery)
  | _ => none

/-- The product that a finding is about. -/
def product? : Finding → Option (String × ProductEntry)
  | .product entry => some (entry.name, entry)
  | _ => none

/-- The origin that a finding is about, and whether its name is only implied. -/
def origin? : Finding → Option (String × Bool × Origin)
  | .origin name implied found => some (name, implied, found)
  | _ => none

/-- The origin that a declaration in a directory gives, as a finding. -/
def ofDeclaration? (options : MergeOptions) (directory : Path)
    (declaration : Manifest.Declaration) : Option Finding :=
  (nameOf? options declaration).bind fun named =>
    (originOf? directory declaration).map fun origin =>
      .origin named.1 named.2 origin

/-- The products that a discovery declares, as findings. -/
def declaredBy (discovery : Discovery) : List Finding :=
  discovery.package.products.map fun product =>
    .product (productEntry product.name discovery.name product.targets)

/-- The products that a discovery uses and the origins that it declares, as
findings. -/
def usedBy (options : MergeOptions) (discovery : Discovery) : List Finding :=
  (discovery.package.productUsages.map fun usage =>
      .product (productEntry usage.1 usage.2 [])) ++
    discovery.package.declarations.filterMap
      (ofDeclaration? options discovery.directory)

/-- What discoveries find, in the order in which it is added. -/
def ofDiscoveries (options : MergeOptions) (discoveries : List Discovery) :
    List Finding :=
  discoveries.map .package ++ discoveries.flatMap declaredBy ++
    discoveries.flatMap (usedBy options)

end Finding

/-- Add a finding to its table. -/
def add (options : MergeOptions) (map : ProjectMap) : Finding → ProjectMap
  | .package discovery => map.addPackage options discovery
  | .product entry => map.addProduct options entry
  | .origin name implied origin => addOrigin options map name implied origin

theorem addDeclaration_eq (directory : Path) (map : ProjectMap)
    (declaration : Manifest.Declaration) :
    addDeclaration options directory map declaration =
      (Finding.ofDeclaration? options directory declaration).toList.foldl
        (add options) map := by
  rw [addDeclaration, Finding.ofDeclaration?]
  cases nameOf? options declaration with
  | none => rfl
  | some named => cases originOf? directory declaration <;> rfl

theorem addProducts_eq (map : ProjectMap) (discovery : Discovery) :
    addProducts options map discovery =
      (Finding.declaredBy discovery).foldl (add options) map := by
  rw [addProducts, Finding.declaredBy, List.foldl_map]
  rfl

theorem addUses_eq (map : ProjectMap) (discovery : Discovery) :
    addUses options map discovery =
      (Finding.usedBy options discovery).foldl (add options) map := by
  have declarations : addDeclaration options discovery.directory = _ :=
    funext₂ (addDeclaration_eq discovery.directory)
  rw [addUses, declarations, Finding.usedBy, List.foldl_append, List.foldl_map,
    List.filterMap_eq_flatMap_toList, List.foldl_flatMap]
  rfl

/-- The passes over the discoveries add what these find, one after the other. -/
theorem collect_eq (discoveries : List Discovery) (map : ProjectMap) :
    map.collect options discoveries =
      (Finding.ofDiscoveries options discoveries).foldl (add options) map := by
  have products : addProducts options = _ := funext₂ addProducts_eq
  have uses : addUses options = _ := funext₂ addUses_eq
  rw [collect, products, uses, Finding.ofDiscoveries, List.foldl_append,
    List.foldl_append, List.foldl_flatMap, List.foldl_flatMap, List.foldl_map]
  rfl

/-! ### What is found -/

/-- The packages among the findings are the discoveries. -/
theorem packages_found (discoveries : List Discovery) :
    (Finding.ofDiscoveries options discoveries).filterMap Finding.package? =
      discoveries.map fun discovery => (discovery.name, discovery) := by
  have declared (discovery : Discovery) :
      (Finding.declaredBy discovery).filterMap Finding.package? = [] := by
    rw [Finding.declaredBy, List.filterMap_map, List.filterMap_eq_nil_iff]
    exact fun _ _ => rfl
  have used (discovery : Discovery) :
      (Finding.usedBy options discovery).filterMap Finding.package? = [] := by
    rw [Finding.usedBy, List.filterMap_append, List.append_eq_nil_iff,
      List.filterMap_map, List.filterMap_filterMap, List.filterMap_eq_nil_iff,
      List.filterMap_eq_nil_iff]
    refine ⟨fun _ _ => rfl, fun declaration _ => ?_⟩
    rw [Finding.ofDeclaration?]
    cases nameOf? options declaration with
    | none => rfl
    | some named => cases originOf? discovery.directory declaration <;> rfl
  rw [Finding.ofDiscoveries, List.filterMap_append, List.filterMap_append,
    List.filterMap_map, List.filterMap_flatMap, List.filterMap_flatMap]
  have nothing : discoveries.flatMap (fun _ => ([] : List (String × Discovery))) = [] := by
    simp
  simp only [declared, used, nothing, List.append_nil]
  exact congrFun List.filterMap_eq_map discoveries

theorem ofDeclaration_eq_some {directory : Path} {declaration : Manifest.Declaration}
    {finding : Finding} :
    Finding.ofDeclaration? options directory declaration = some finding ↔
      ∃ named origin, nameOf? options declaration = some named ∧
        originOf? directory declaration = some origin ∧
        finding = .origin named.1 named.2 origin := by
  simp only [Finding.ofDeclaration?, Option.bind_eq_some_iff, Option.map_eq_some_iff,
    eq_comm (b := finding)]
  constructor
  · rintro ⟨named, known, origin, located, same⟩
    exact ⟨named, origin, known, located, same⟩
  · rintro ⟨named, origin, known, located, same⟩
    exact ⟨named, known, origin, located, same⟩

/-- The products among the findings are those that are declared and those that are
used. -/
theorem mem_products_iff {discoveries : List Discovery} {name : String}
    {entry : ProductEntry} :
    (name, entry) ∈
        (Finding.ofDiscoveries options discoveries).filterMap Finding.product? ↔
      entry.name = name ∧ ∃ discovery ∈ discoveries,
        (∃ product ∈ discovery.package.products,
          entry = productEntry product.name discovery.name product.targets) ∨
        ∃ usage ∈ discovery.package.productUsages,
          entry = productEntry usage.1 usage.2 [] := by
  have isProduct {finding : Finding} : finding.product? = some (name, entry) ↔
      entry.name = name ∧ finding = .product entry := by
    cases finding with
    | product other =>
        simp only [Finding.product?, Option.some.injEq, Prod.mk.injEq,
          Finding.product.injEq]
        constructor
        · rintro ⟨named, rfl⟩
          exact ⟨named, rfl⟩
        · rintro ⟨named, rfl⟩
          exact ⟨named, rfl⟩
    | _ => simp [Finding.product?]
  simp only [List.mem_filterMap, isProduct, Finding.ofDiscoveries, List.mem_append,
    List.mem_map, List.mem_flatMap, Finding.declaredBy, Finding.usedBy,
    ofDeclaration_eq_some]
  constructor
  · rintro ⟨_, member, named, rfl⟩
    refine ⟨named, ?_⟩
    rcases member with (⟨_, _, ⟨⟩⟩ | ⟨discovery, found, product, declared, same⟩) |
      ⟨discovery, found, ⟨usage, used, same⟩ | ⟨_, _, _, _, _, _, ⟨⟩⟩⟩
    · cases same
      exact ⟨discovery, found, Or.inl ⟨product, declared, rfl⟩⟩
    · cases same
      exact ⟨discovery, found, Or.inr ⟨usage, used, rfl⟩⟩
  · rintro ⟨named, discovery, found, ⟨product, declared, rfl⟩ | ⟨usage, used, rfl⟩⟩
    · exact ⟨_, Or.inl (Or.inr ⟨discovery, found, product, declared, rfl⟩), named, rfl⟩
    · exact ⟨_, Or.inr ⟨discovery, found, Or.inl ⟨usage, used, rfl⟩⟩, named, rfl⟩

/-- The origins among the findings are those that declarations with a name give. -/
theorem mem_origins_iff {discoveries : List Discovery} {entry : String × Bool × Origin} :
    entry ∈ (Finding.ofDiscoveries options discoveries).filterMap Finding.origin? ↔
      ∃ discovery ∈ discoveries, ∃ declaration ∈ discovery.package.declarations,
        nameOf? options declaration = some (entry.1, entry.2.1) ∧
        originOf? discovery.directory declaration = some entry.2.2 := by
  have isOrigin {finding : Finding} : finding.origin? = some entry ↔
      finding = .origin entry.1 entry.2.1 entry.2.2 := by
    obtain ⟨name, implied, origin⟩ := entry
    cases finding <;> simp [Finding.origin?]
  simp only [List.mem_filterMap, isOrigin, Finding.ofDiscoveries, List.mem_append,
    List.mem_map, List.mem_flatMap, Finding.declaredBy, Finding.usedBy,
    ofDeclaration_eq_some]
  constructor
  · rintro ⟨_, member, rfl⟩
    rcases member with (⟨_, _, ⟨⟩⟩ | ⟨_, _, _, _, ⟨⟩⟩) | ⟨discovery, found,
      ⟨_, _, ⟨⟩⟩ | ⟨declaration, declared, named, origin, known, located, same⟩⟩
    rw [Finding.origin.injEq] at same
    obtain ⟨first, second, rfl⟩ := same
    refine ⟨discovery, found, declaration, declared, ?_, located⟩
    rw [first, second]
    exact known
  · rintro ⟨discovery, found, declaration, declared, known, located⟩
    exact ⟨_, Or.inr ⟨discovery, found, Or.inr ⟨declaration, declared, _, _, known,
      located, rfl⟩⟩, rfl⟩

/-! ### The tables -/

/-- To add the package of a discovery is to put it in the table of packages. -/
theorem addPackage_eq (map : ProjectMap) (discovery : Discovery) :
    map.addPackage options discovery =
      { map with
        packages :=
          packageRule.put (fun _ => options.overrideConflicts) map.packages
            (discovery.name, discovery) } := by
  rw [addPackage, Rule.put]
  cases found : map.packages.get? discovery.name with
  | none => rfl
  | some entry =>
      change _ = { map with
        packages := map.packages.insert discovery.name
          (if entry.manifest = (packageEntry discovery).manifest then
            withTargets entry discovery
          else if options.overrideConflicts then packageEntry discovery
          else entry) }
      dsimp only
      split
      · rfl
      · split
        · rfl
        · rw [Dict.insert_held found]

/-- To add a product is to put it in the table of products. -/
theorem addProduct_eq (map : ProjectMap) (entry : ProductEntry) :
    map.addProduct options entry =
      { map with
        products :=
          productRule.put (fun _ => options.overrideConflicts) map.products
            (entry.name, entry) } := by
  rw [addProduct, Rule.put]
  cases found : map.products.get? entry.name with
  | none => rfl
  | some recorded =>
      change _ = { map with
        products := map.products.insert entry.name
          (if Text.fold recorded.package = Text.fold entry.package then
            filledFrom recorded entry
          else if options.overrideConflicts then entry
          else recorded) }
      simp only [Text.sameFolded, beq_iff_eq]
      split
      · rw [filledFrom]
        split
        · rfl
        · rw [Dict.insert_held found]
      · split
        · rfl
        · rw [Dict.insert_held found]

/-- To record an origin is to put it in the table of origins. -/
theorem addOrigin_eq (map : ProjectMap) (name : String) (implied : Bool)
    (origin : Origin) :
    addOrigin options map name implied origin =
      { map with
        origins :=
          originRule.put (originPrevails options) map.origins
            (name, implied, origin) } := by
  rw [addOrigin, Rule.put]
  cases found : map.origins.get? name with
  | none => rfl
  | some recorded =>
      have agrees : recorded.samePlace origin ↔
          (recorded.url, recorded.path) = (origin.url, origin.path) := by
        rw [Origin.samePlace, Bool.and_eq_true, beq_iff_eq, beq_iff_eq,
          Prod.mk.injEq]
      change _ = { map with
        origins := map.origins.insert name
          (if (recorded.url, recorded.path) = (origin.url, origin.path) then
            recorded
          else if options.overrideConflicts && !implied then origin
          else recorded) }
      simp only [← agrees]
      cases recorded.samePlace origin <;> cases options.overrideConflicts <;>
        cases implied <;> simp [Dict.insert_held found]

/-- What findings leave of a map: each table is a matter of the findings for it. -/
theorem adds_eq (findings : List Finding) (map : ProjectMap) :
    findings.foldl (add options) map =
      { map with
        packages := (findings.filterMap Finding.package?).foldl
          (packageRule.put fun _ => options.overrideConflicts) map.packages
        products := (findings.filterMap Finding.product?).foldl
          (productRule.put fun _ => options.overrideConflicts) map.products
        origins := (findings.filterMap Finding.origin?).foldl
          (originRule.put (originPrevails options)) map.origins } := by
  induction findings generalizing map with
  | nil => rfl
  | cons finding findings inductionHypothesis =>
      rw [List.foldl_cons, inductionHypothesis]
      cases finding with
      | package discovery =>
          rw [add, addPackage_eq]
          rfl
      | product entry =>
          rw [add, addProduct_eq]
          rfl
      | origin name implied origin =>
          rw [add, addOrigin_eq]
          rfl

/-- Findings are nothing new to a map to which they were added, whatever was in it
before and in which way conflicts between them are settled. -/
theorem collect_again (discoveries : List Discovery) (map : ProjectMap) :
    (map.collect options discoveries).collect options discoveries =
      map.collect options discoveries := by
  simp only [collect_eq, adds_eq, Rule.puts_again (Rule.isClear_constant _),
    Rule.puts_again isClear_origins]

/-- The tables after an update: each is a matter of the findings for it. -/
theorem tables_updated (options : MergeOptions) (root : Path) (moment : Timestamp)
    (discoveries : List Discovery) (map : ProjectMap) :
    let findings := Finding.ofDiscoveries options discoveries
    let later := map.updated options root moment discoveries
    later.packages = (findings.filterMap Finding.package?).foldl
        (packageRule.put fun _ => options.overrideConflicts) map.packages ∧
      later.products = (findings.filterMap Finding.product?).foldl
        (productRule.put fun _ => options.overrideConflicts) map.products ∧
      later.origins = (findings.filterMap Finding.origin?).foldl
        (originRule.put (originPrevails options)) map.origins := by
  simp only [updated, collect_eq, adds_eq, and_self]

/-- The moment is all that tells updates of a map with the same findings apart. -/
theorem timeless_updated (options : MergeOptions) (root : Path)
    (moment other : Timestamp) (discoveries : List Discovery) (map : ProjectMap) :
    (map.updated options root moment discoveries).timeless =
      (map.updated options root other discoveries).timeless := rfl

/-- What one update makes of a map the next one leaves as it is, the moment of its
making aside. -/
theorem updated_again (options : MergeOptions) (root : Path)
    (moment later : Timestamp) (discoveries : List Discovery) (map : ProjectMap) :
    ((map.updated options root moment discoveries).updated options root later
        discoveries).timeless =
      (map.updated options root moment discoveries).timeless := by
  simp only [updated, collect_eq, adds_eq, Rule.puts_again (Rule.isClear_constant _),
    Rule.puts_again isClear_origins]
  rfl

end PackageLayers.Project.ProjectMap

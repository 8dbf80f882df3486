/-
Purpose: What a map knows after a product was added to one of its packages.
Main exports: ProjectMap.Follows, ProjectMap.follows_of_productAdded,
  ProjectMap.Follows.owner, PackageGraph.packageOf_revised,
  PackageGraph.cycleThrough_revised
-/
import PackageLayers.Project.Lookup
import PackageLayers.Proofs.Project.Additions
import PackageLayers.Proofs.Project.Findings

namespace PackageLayers.Project

open Manifest (Addition Declaration Package ProductAdded ProductContext)
open Relation (ReflTransGen)

/-!
A map to which some packages are nothing new stays nearly the same when one of them
gets the product of an owner.  The declaration that is written has no name, so no
origin is found by it.  Only the use of the product may be new: if no product of that
name is recorded, it is, as one of the package that the manifest names.  So a name
has the owner that it had, or the one that the manifest names for the product.
-/

variable {user other : Discovery} {discoveries : List Discovery} {package : Package}
  {context : ProductContext} {origin listed name : String} {root : Path}
  {moment moment' : Timestamp}

/-- What a discovery is after a package was read anew in its place. -/
theorem isRevision_of_addition {destination : String} {added : Option ProductContext}
    (addition : Addition origin destination user.package package added) :
    IsRevision user { user with package := package } :=
  ⟨rfl, rfl, rfl, addition.targets⟩

/-- The name under which the origin of the declaration of an owner would be recorded
is not stated there. -/
theorem name_of_written {declaration : Declaration}
    (written : context.declaration? = some declaration) : declaration.name = none := by
  rw [ProductContext.declaration?] at written
  split at written <;> cases written <;> rfl

/-! ### The tables -/

namespace ProjectMap

variable {options : MergeOptions} {map later : ProjectMap}

/-- A map to which discoveries are nothing new has tables to which the findings are
nothing new. -/
theorem tables_of_settled
    (settled : (map.updated options root moment discoveries).timeless = map.timeless) :
    let findings := Finding.ofDiscoveries options discoveries
    (findings.filterMap Finding.package?).foldl
        (packageRule.put fun _ => options.overrideConflicts) map.packages =
          map.packages ∧
      (findings.filterMap Finding.product?).foldl
        (productRule.put fun _ => options.overrideConflicts) map.products =
          map.products ∧
      (findings.filterMap Finding.origin?).foldl
        (originRule.put (originPrevails options)) map.origins = map.origins := by
  have packages : _ = map.timeless.packages := congrArg packages settled
  have products : _ = map.timeless.products := congrArg products settled
  have origins : _ = map.timeless.origins := congrArg origins settled
  obtain ⟨first, second, third⟩ := tables_updated options root moment discoveries map
  exact ⟨first.symm.trans packages, second.symm.trans products,
    third.symm.trans origins⟩

/-- The package of a discovery is recorded in the same way after it was read anew. -/
theorem addPackage_revised {next : Discovery} (revision : IsRevision user next)
    (map : ProjectMap) (other : Discovery) :
    map.addPackage options (revised user next other) = map.addPackage options other := by
  have entry : packageEntry (revised user next other) = packageEntry other := by
    rw [revised]
    split
    · rename_i same
      rw [same, packageEntry, packageEntry, revision.directory, revision.manifest,
        revision.targets]
    · rfl
  rw [addPackage, addPackage, entry, revision.name_revised]

/-- A map to which the package of a discovery is nothing new knows the same packages
after it was read anew. -/
theorem packages_revised {next : Discovery} (revision : IsRevision user next)
    (settled : (map.updated options root moment discoveries).timeless = map.timeless) :
    (map.updated options root moment'
      (discoveries.map (revised user next))).packages = map.packages := by
  have put (table : Dict PackageEntry) (other : Discovery) :
      packageRule.put (fun _ => options.overrideConflicts) table
          ((revised user next other).name, revised user next other) =
        packageRule.put (fun _ => options.overrideConflicts) table
          (other.name, other) := by
    have same := congrArg packages
      (@addPackage_revised user options next revision { packages := table } other)
    rw [addPackage_eq, addPackage_eq] at same
    exact same
  have before := (tables_of_settled settled).1
  have after := (tables_updated options root moment'
    (discoveries.map (revised user next)) map).1
  rw [packages_found, List.foldl_map] at before after
  rw [List.foldl_map] at after
  simp only [put] at after
  rw [after, before]

/-- A product that is known is nothing new. -/
theorem absorbs_product (stays : options.overrideConflicts = false)
    (settled : (map.updated options root moment discoveries).timeless = map.timeless)
    {entry : String × ProductEntry}
    (found : entry ∈
      (Finding.ofDiscoveries options discoveries).filterMap Finding.product?) :
    productRule.Absorbs (fun _ => options.overrideConflicts) map.products entry := by
  exact Rule.absorbs_of_puts (fun _ => stays)
    (fun findings record => filledFrom_settled findings record)
    (tables_of_settled settled).2.1 found

/-- An origin is nothing new where one is recorded under the name, if the first
finding stays. -/
theorem absorbs_origin (stays : options.overrideConflicts = false)
    {entry : String × Bool × Origin} {record : Origin}
    (held : map.origins.get? entry.1 = some record) :
    originRule.Absorbs (originPrevails options) map.origins entry := by
  refine Rule.absorbs_iff.mpr ⟨record, held, ?_⟩
  rw [Rule.revise, originPrevails, stays, Bool.false_and, if_neg Bool.false_ne_true,
    ite_eq_right_iff]
  exact fun _ => rfl

/-- The origin that a declaration gives has the same place without the requirement. -/
theorem originOf_located (directory : Path) (declaration : Declaration) :
    originOf? directory declaration.located =
      (originOf? directory declaration).map fun origin =>
        { origin with requirement := none } := by
  rw [originOf?, originOf?, apply_ite (Option.map _)]
  rfl

/-- After a product was added to a package, no origin is found but those that were. -/
theorem origins_of_productAdded (stays : options.overrideConflicts = false)
    (unnamed : options.aggressive = false)
    (settled : (map.updated options root moment discoveries).timeless = map.timeless)
    (added : ProductAdded context origin user.package package) :
    (map.updated options root moment' (discoveries.map
      (revised user { user with package := package }))).origins = map.origins := by
  rw [(tables_updated options root moment' _ map).2.2]
  refine Rule.puts_of_absorbs fun entry found => ?_
  obtain ⟨next, member, declaration, declared, known, located⟩ :=
    mem_origins_iff.mp found
  obtain ⟨other, listed, rfl⟩ := List.mem_map.mp member
  -- all that counts is that an origin was found by that name before
  suffices before : ∃ earlier, (entry.1, entry.2.1, earlier) ∈
      (Finding.ofDiscoveries options discoveries).filterMap Finding.origin? by
    obtain ⟨earlier, before⟩ := before
    have kept (finding : Bool × Origin) : originPrevails options finding = false := by
      rw [originPrevails, stays, Bool.false_and]
    obtain ⟨record, held, -⟩ := Rule.absorbs_iff.mp
      (Rule.absorbs_of_puts kept (fun _ _ _ _ => rfl) (tables_of_settled settled).2.2
        before)
    exact absorbs_origin stays held
  by_cases isUser : other = user
  · subst isUser
    rw [revised_self] at declared located
    rcases (declarations_of_productAdded added).1 _ (List.mem_map_of_mem declared) with
      old | written
    · obtain ⟨earlier, here, alike⟩ := List.mem_map.mp old
      have named : nameOf? options earlier.located = nameOf? options declaration.located :=
        congrArg (nameOf? options) alike
      have place := congrArg (originOf? other.directory) alike
      rw [originOf_located, originOf_located, located, Option.map_some,
        Option.map_eq_some_iff] at place
      obtain ⟨before, there, -⟩ := place
      exact ⟨before, mem_origins_iff.mpr
        ⟨other, listed, earlier, here, named.trans known, there⟩⟩
    · have unstated : declaration.located.name = none := name_of_written written
      have unknown : nameOf? options declaration.located = none := by
        rw [nameOf?, unstated, unnamed]
        rfl
      cases known.symm.trans unknown
  · rw [revised_other isUser] at declared located
    exact ⟨_, mem_origins_iff.mpr ⟨other, listed, declaration, declared, known, located⟩⟩

/-- After a product was added to a package, its use is all that may be new. -/
theorem products_of_productAdded (stays : options.overrideConflicts = false)
    (settled : (map.updated options root moment discoveries).timeless = map.timeless)
    (added : ProductAdded context origin user.package package)
    (uses : ∀ usage ∈ package.productUsages,
      usage ∈ user.package.productUsages ∨ usage = (context.product, listed)) :
    let later := map.updated options root moment' (discoveries.map
      (revised user { user with package := package }))
    later.products = map.products ∨ map.products.get? context.product = none ∧
      later.products = map.products.insert context.product
        (productEntry context.product listed []) := by
  intro later
  have known : ∀ entry ∈ (Finding.ofDiscoveries options (discoveries.map
      (revised user { user with package := package }))).filterMap Finding.product?,
      productRule.Absorbs (fun _ => options.overrideConflicts) map.products entry ∨
        entry = (context.product, productEntry context.product listed []) := by
    rintro ⟨name, entry⟩ found
    obtain ⟨rfl, next, member, found⟩ := mem_products_iff.mp found
    obtain ⟨other, here, rfl⟩ := List.mem_map.mp member
    by_cases isUser : other = user
    · subst isUser
      rw [revised_self] at found
      dsimp only at found
      rw [added.products] at found
      rcases found with ⟨product, declared, rfl⟩ | ⟨usage, used, rfl⟩
      · exact Or.inl (absorbs_product stays settled (mem_products_iff.mpr
          ⟨rfl, other, here, Or.inl ⟨product, declared, rfl⟩⟩))
      · rcases uses usage used with old | rfl
        · exact Or.inl (absorbs_product stays settled (mem_products_iff.mpr
            ⟨rfl, other, here, Or.inr ⟨usage, old, rfl⟩⟩))
        · exact Or.inr rfl
    · rw [revised_other isUser] at found
      exact Or.inl (absorbs_product stays settled (mem_products_iff.mpr
        ⟨rfl, other, here, found⟩))
  rw [(tables_updated options root moment' _ map).2.1]
  cases held : map.products.get? context.product with
  | none => exact (Rule.puts_of_fresh held known).imp_right fun same => ⟨rfl, same⟩
  | some record =>
      refine Or.inl (Rule.puts_of_absorbs fun entry found => ?_)
      rcases known entry found with absorbed | rfl
      · exact absorbed
      · refine Rule.absorbs_iff.mpr ⟨record, held, ?_⟩
        rw [Rule.revise, stays, if_neg Bool.false_ne_true, ite_eq_right_iff]
        exact fun _ => filledFrom_of_empty rfl record

/-- What a map knows after the use of a product was found. -/
structure Follows (map later : ProjectMap) (context : ProductContext)
    (listed : String) : Prop where
  packages : later.packages = map.packages
  origins : later.origins = map.origins
  products : later.products = map.products ∨
    map.products.get? context.product = none ∧
      later.products = map.products.insert context.product
        (productEntry context.product listed [])

/-- A map to which the packages are nothing new learns of the product that is added to
one of them, and of nothing else. -/
theorem follows_of_productAdded (stays : options.overrideConflicts = false)
    (unnamed : options.aggressive = false)
    (settled : (map.updated options root moment discoveries).timeless = map.timeless)
    (added : ProductAdded context origin user.package package)
    (uses : ∀ usage ∈ package.productUsages,
      usage ∈ user.package.productUsages ∨ usage = (context.product, listed)) :
    map.Follows (map.updated options root moment' (discoveries.map
      (revised user { user with package := package }))) context listed where
  packages := packages_revised
    (isRevision_of_addition (@Addition.product origin "" _ _ _ added)) settled
  origins := origins_of_productAdded stays unnamed settled added
  products := products_of_productAdded stays settled added uses

namespace Follows

/-- A map that differs in the moment of its making only knows the same. -/
theorem of_timeless {held : ProjectMap} (follows : map.Follows later context listed)
    (same : held.timeless = later.timeless) : map.Follows held context listed := by
  have packages : held.packages = _ := congrArg (fun map => map.packages) same
  have products : held.products = _ := congrArg (fun map => map.products) same
  have origins : held.origins = _ := congrArg (fun map => map.origins) same
  exact ⟨packages.trans follows.packages, origins.trans follows.origins,
    products.symm ▸ follows.products⟩

theorem refl : map.Follows map context listed := ⟨rfl, rfl, Or.inl rfl⟩

variable (follows : map.Follows later context listed)

include follows

/-- A name has the owner that it had, or the product is the one that was named. -/
theorem owner (owned : map.owner? name = some ⟨context.package, context.product⟩) :
    later.owner? name = some ⟨context.package, context.product⟩ ∨
      later.owner? name = some ⟨listed, context.product⟩ := by
  rcases follows.products with same | ⟨absent, inserted⟩
  · refine Or.inl (Eq.trans ?_ owned)
    simp only [owner?, packageWith?, productWith?, same, follows.packages]
  · by_cases here : name = context.product
    · refine Or.inr ?_
      rw [owner?, inserted, Dict.get?_insert, if_pos here]
      rfl
    · refine Or.inl (Eq.trans ?_ owned)
      -- the new product has no targets by which it could be found
      have passed (package : String) : later.productWith? package name =
          map.productWith? package name := by
        rw [productWith?, productWith?, inserted]
        apply Dict.find?_values_insert absent
        rw [productEntry, List.contains_nil, Bool.and_false]
      simp only [owner?, packageWith?, passed, inserted, Dict.get?_insert, if_neg here,
        follows.packages]

/-- Packages are declared as before. -/
theorem provenance : later.provenance = map.provenance := by
  funext package manifest
  rw [ProjectMap.provenance, ProjectMap.provenance, follows.packages, follows.origins]

end Follows

end ProjectMap

/-! ### The graph -/

namespace PackageGraph

variable {next : Discovery} {current destination : String}
  (revision : IsRevision user next)

include revision

/-- The manifests are those of the same packages. -/
theorem packageOf_revised :
    (ofDiscoveries root moment' (discoveries.map (revised user next))).packageOf? =
      (ofDiscoveries root moment discoveries).packageOf? := by
  have entry : (fun node => (node.name, nodeOf node)) ∘ revised user next =
      fun node => (node.name, nodeOf node) := by
    funext node
    rw [Function.comp_apply, revision.name_revised, revision.nodeOf_revised]
  have same : (ofDiscoveries root moment' (discoveries.map
      (revised user next))).packages = (ofDiscoveries root moment discoveries).packages := by
    rw [ofDiscoveries, ofDiscoveries, revision.nodesOf_map, List.map_map, entry]
  funext manifest
  rw [packageOf?, packageOf?, same]

/-- What did not lead to a package does not lead there by what that package leads to. -/
theorem cycleThrough_revised
    (isUser : user ∈ nodesOf [] discoveries → current = user.name)
    (apart : (ofDiscoveries root moment discoveries).cycleThrough? current destination =
      none) :
    (ofDiscoveries root moment' (discoveries.map (revised user next))).cycleThrough?
      current destination = none := by
  rw [cycleThrough_eq_none_iff] at apart ⊢
  intro path
  apply apart
  clear apart
  induction path using ReflTransGen.head_induction_on with
  | refl => exact .refl
  | head step _ inductionHypothesis =>
      rcases hasEdge_of_revised revision step with old | ⟨member, same, -⟩
      · exact .head old inductionHypothesis
      · rw [same, ← isUser member]

end PackageGraph

end PackageLayers.Project

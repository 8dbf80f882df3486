/-
Purpose: A package that the toolchain dumps is read back.
Main exports: DumpStyle, Package.toDump, Package.withCalls, Package.read_toDump
-/
import PackageLayers.Manifest.Dump
import PackageLayers.Proofs.Tables

namespace PackageLayers

/-!
The toolchain dumps a package as a document in which a bare string among the
dependencies is a call of `byName`.  Nothing else is lost, as long as every
declaration names one place.  What a package does not say, a dump may write in
several ways: a `DumpStyle` is one of them.

Canonical form sorts the members of an object as a table is sorted, and keeps of
each name the member that counts anyway.  So a reader reads a value in canonical
form as it reads the value, but for the parts that it hands on, and these are in
canonical form again.
-/

/-! ### Members of objects in canonical form -/

namespace Json

theorem insertMember_eq (name : String) (value : Json)
    (members : List (String × Json)) :
    insertMember name value members = Dict.insertEntry name value members := by
  induction members with
  | nil => rfl
  | cons member members inductionHypothesis =>
      obtain ⟨key, old⟩ := member
      rw [insertMember, Dict.insertEntry, inductionHypothesis]

/-- Sorted members are listed as a table lists them. -/
theorem sortMembers_eq (members : List (String × Json)) :
    sortMembers members = (Dict.ofList members).entries := by
  have each (dict : Dict Json) :
      members.foldl (fun sorted member => insertMember member.1 member.2 sorted)
          dict.entries =
        (members.foldl (fun dict entry => dict.insert entry.1 entry.2)
          dict).entries := by
    induction members generalizing dict with
    | nil => rfl
    | cons member members inductionHypothesis =>
        rw [List.foldl_cons, List.foldl_cons, insertMember_eq]
        exact inductionHypothesis (dict.insert member.1 member.2)
  exact each Dict.empty

theorem canonicalItems_eq (items : List Json) :
    canonicalItems items = items.map canonical := by
  induction items with
  | nil => rfl
  | cons item items inductionHypothesis =>
      rw [canonicalItems, inductionHypothesis, List.map_cons]

theorem canonicalMembers_eq (members : List (String × Json)) :
    canonicalMembers members =
      members.map fun member => (member.1, member.2.canonical) := by
  induction members with
  | nil => rfl
  | cons member members inductionHypothesis =>
      obtain ⟨name, value⟩ := member
      rw [canonicalMembers, inductionHypothesis, List.map_cons]

/-- A member of an object is the last one with its name. -/
theorem field_obj (name : String) (members : List (String × Json)) :
    (obj members).field? name = Dict.lookup name members.reverse := by
  rw [field?, Dict.lookup_eq_find]

/-- Where names are distinct, a member is the one with its name. -/
theorem field_distinct (name : String) (members : List (String × Json))
    (distinct : (members.map Prod.fst).Nodup) :
    (obj members).field? name = Dict.lookup name members := by
  rw [field_obj, Dict.lookup_reverse distinct]

/-- The members of a value in canonical form are its members in canonical
form. -/
theorem field_canonical (name : String) (value : Json) :
    value.canonical.field? name = (value.field? name).map canonical := by
  cases value with
  | obj members =>
      have distinct (table : Dict Json) : (table.entries.map Prod.fst).Nodup :=
        table.sorted.imp fun less => String.ne_of_lt less
      rw [canonical, sortMembers_eq, field_obj, Dict.lookup_reverse (distinct _),
        field_obj, ← Dict.lookup_map, canonicalMembers_eq, List.map_reverse]
      exact (Dict.get?_foldl_insert _ _ _).trans Option.or_none
  | _ => rfl

theorem items_canonical (value : Json) :
    value.canonical.items? = value.items?.map fun items =>
      items.map canonical := by
  cases value with
  | arr items => rw [canonical, canonicalItems_eq]; rfl
  | _ => rfl

/-- A text is in canonical form as it is. -/
@[simp] theorem str_canonical (value : Json) :
    value.canonical.str? = value.str? := by
  cases value <;> rfl

end Json

namespace Manifest

/-! ### Dumps -/

/-- How a requirement is put, with the version that a range stops before. -/
inductive RequirementForm where
  | range (upper : String)
  | exact
  | branch
  | revision
deriving Repr, Inhabited, DecidableEq

/-- The requirement of a version in a dump. -/
def RequirementForm.toDump (version : String) : RequirementForm → Json
  | .range upper =>
      .obj
        [("range",
          .arr
            [.obj [("lowerBound", .str version), ("upperBound", .str upper)]])]
  | .exact => .obj [("exact", .arr [.str version])]
  | .branch => .obj [("branch", .arr [.str version])]
  | .revision => .obj [("revision", .arr [.str version])]

/-- What a dump settles and a package does not: whether what is absent is written
as null or left out, and for each place the form of a requirement and what
stands under the type of a product. -/
structure DumpStyle where
  writesNull : Bool
  requirement : Nat → RequirementForm
  productType : Nat → Json

/-- A member that may be absent. -/
def DumpStyle.member (style : DumpStyle) (name : String) :
    Option Json → List (String × Json)
  | some value => [(name, value)]
  | none => if style.writesNull then [(name, .null)] else []

/-- A dependency in a dump: its kind, and its arguments with an empty
condition. -/
def Dependency.toDump : Dependency → Json
  | .bare name | .byName name => .obj [("byName", .arr [.str name, .null])]
  | .target name => .obj [("target", .arr [.str name, .null])]
  | .product name package =>
      .obj [("product", .arr [.str name, .str package, .null, .null])]

/-- A target in a dump. -/
def Target.toDump (style : DumpStyle) (target : Target) : Json :=
  .obj
    ([("name", .str target.name), ("type", .str target.kind.label)] ++
      style.member "path" (target.path.map .str) ++
      style.member "sources" (target.sources.map Json.ofTexts) ++
      [("dependencies", .arr (target.dependencies.map Dependency.toDump))])

/-- The member for the name by which targets know a declared package. -/
def Declaration.nameMember (declaration : Declaration) : String × Json :=
  ("nameForTargetDependencyResolutionOnly", Json.ofOption declaration.name)

/-- The identity of a declared package. -/
def Declaration.identityMember (declaration : Declaration) : String × Json :=
  ("identity", .str (declaration.id.getD (declaration.identity?.getD "")))

/-- The requirement of a declaration at a place among all. -/
def Declaration.requirementMember (style : DumpStyle) (index : Nat)
    (declaration : Declaration) : List (String × Json) :=
  style.member "requirement"
    (declaration.requirement.map fun version =>
      (style.requirement index).toDump version)

/-- A declaration in a dump, at a place among all: under source control if it
names a URL, in the file system if it names a path, and else in a registry. -/
def Declaration.toDump (style : DumpStyle) (index : Nat)
    (declaration : Declaration) : Json :=
  match declaration.url, declaration.path with
  | some url, _ =>
      .obj
        [("sourceControl",
          .arr
            [.obj
              ([declaration.identityMember,
                ("location",
                  .obj [("remote", .arr [.obj [("urlString", .str url)]])]),
                declaration.nameMember, ("productFilter", .null)] ++
                declaration.requirementMember style index)])]
  | none, some path =>
      .obj
        [("fileSystem",
          .arr
            [.obj
              [declaration.identityMember, declaration.nameMember,
                ("path", .str path), ("productFilter", .null)]])]
  | none, none =>
      .obj
        [("registry",
          .arr
            [.obj
              ([declaration.identityMember, declaration.nameMember,
                ("productFilter", .null)] ++
                declaration.requirementMember style index)])]

/-- A product in a dump, at a place among all. -/
def Product.toDump (style : DumpStyle) (index : Nat) (product : Product) : Json :=
  .obj
    [("name", .str product.name), ("settings", .arr []),
      ("targets", Json.ofTexts product.targets),
      ("type", .obj [(product.kind, style.productType index)])]

/-- The dump of a package. -/
def Package.toDump (style : DumpStyle) (package : Package) : Json :=
  .obj
    (style.member "name" (package.name.map .str) ++
      [("dependencies",
          .arr (package.declarations.mapIdx (Declaration.toDump style))),
        ("products", .arr (package.products.mapIdx (Product.toDump style))),
        ("targets", .arr (package.targets.map (Target.toDump style)))])

/-- Whether a declaration names one place, and no requirement if that is a
path. -/
def Declaration.namesOnePlace (declaration : Declaration) : Bool :=
  match declaration.url, declaration.path, declaration.id with
  | some _, none, none | none, none, some _ => true
  | none, some _, none => declaration.requirement.isNone
  | _, _, _ => false

/-! ### References as calls -/

/-- The dependency as a call: a bare string is one of `byName`. -/
def Dependency.asCall : Dependency → Dependency
  | .bare name => .byName name
  | other => other

/-- The target with all its dependencies as calls. -/
def Target.withCalls (target : Target) : Target :=
  { target with dependencies := target.dependencies.map Dependency.asCall }

/-- The package with the dependencies of all its targets as calls. -/
def Package.withCalls (package : Package) : Package :=
  { package with targets := package.targets.map Target.withCalls }

/-! ### Readers of values in canonical form -/

theorem textMember_canonical (value : Json) (name : String) :
    textMember? value.canonical name = textMember? value name := by
  rw [textMember?, textMember?, Json.field_canonical]
  cases value.field? name with
  | none => rfl
  | some found => exact Json.str_canonical found

theorem textItems_canonical (value : Option Json) :
    textItems? (value.map Json.canonical) = textItems? value := by
  cases value with
  | none => rfl
  | some found =>
      simp only [textItems?, Option.map_some, Option.bind_some,
        Json.items_canonical, Option.map_map]
      congr 1
      funext items
      simp [List.filterMap_map]

/-- The items of an array member are handed on in canonical form. -/
theorem itemsOf_canonical {α : Type} (value : Json) (name : String)
    (read : Json → Option α) :
    itemsOf value.canonical name read =
      itemsOf value name fun item => read item.canonical := by
  rw [itemsOf, itemsOf, Json.field_canonical]
  cases value.field? name with
  | none => rfl
  | some found =>
      rw [Option.map_some, Option.bind_some, Option.bind_some,
        Json.items_canonical]
      cases found.items? with
      | none => rfl
      | some items =>
          rw [Option.map_some, Option.getD_some, Option.getD_some,
            List.filterMap_map]
          rfl

theorem textItems_ofTexts (texts : List String) :
    textItems? (some (Json.ofTexts texts)) = some texts := by
  simp [textItems?, Json.ofTexts, Json.items?, List.filterMap_map,
    Function.comp_def, Json.str?]

/-- Items that are read as what they were written for give the whole list. -/
theorem filterMap_mapIdx {α β : Type} (image : α → β) {write : Nat → α → Json}
    {read : Json → Option β} {items : List α}
    (inverse : ∀ item ∈ items, ∀ index,
      read (write index item) = some (image item)) :
    (items.mapIdx write).filterMap read = items.map image := by
  induction items generalizing write with
  | nil => rfl
  | cons item items inductionHypothesis =>
      rw [List.mapIdx_cons, List.filterMap_cons_some
        (inverse item List.mem_cons_self 0), List.map_cons,
        inductionHypothesis fun other member index =>
          inverse other (List.mem_cons_of_mem _ member) (index + 1)]

/-! ### Reading dumps -/

theorem TargetKind.ofDump_label (kind : TargetKind) : ofDump kind.label = kind := by
  cases kind <;> decide +kernel

/-- A dependency is read as a call. -/
theorem Dependency.read_toDump (dependency : Dependency) :
    ofDump? dependency.toDump.canonical = some dependency.asCall := by
  cases dependency <;> rfl

section

variable (style : DumpStyle)

/-- A target is read with its dependencies as calls. -/
theorem Target.read_toDump (target : Target) :
    ofDump? (target.toDump style).canonical = some target.withCalls := by
  obtain ⟨name, kind, path, sources, dependencies⟩ := target
  obtain ⟨writesNull, requirement, productType⟩ := style
  generalize written : toDump _ _ = dump
  have named : textMember? dump "name" = some name := by
    subst written
    cases writesNull <;> cases path <;> cases sources <;> rfl
  have typed : textMember? dump "type" = some kind.label := by
    subst written
    cases writesNull <;> cases path <;> cases sources <;> rfl
  have placed : textMember? dump "path" = path := by
    subst written
    cases writesNull <;> cases path <;> cases sources <;> rfl
  have listed : textItems? (dump.field? "sources") = sources := by
    subst written
    cases sources with
    | none => cases writesNull <;> cases path <;> rfl
    | some texts =>
        refine Eq.trans ?_ (textItems_ofTexts texts)
        cases writesNull <;> cases path <;> rfl
  have depends : itemsOf dump "dependencies"
      (fun item => Dependency.ofDump? item.canonical) =
        dependencies.map Dependency.asCall := by
    refine Eq.trans (b := (dependencies.map Dependency.toDump).filterMap
      fun item => Dependency.ofDump? item.canonical) ?_ ?_
    · subst written
      cases writesNull <;> cases path <;> cases sources <;> rfl
    · rw [List.filterMap_map]
      simp only [Function.comp_def, Dependency.read_toDump,
        List.filterMap_eq_map']
  rw [ofDump?]
  simp only [textMember_canonical, Json.field_canonical, textItems_canonical,
    itemsOf_canonical, named, typed, placed, listed, depends]
  simp [TargetKind.ofDump_label, withCalls]

/-- A requirement is read as its version. -/
theorem RequirementForm.read_toDump (form : RequirementForm) (version : String) :
    requirementOfDump? (form.toDump version).canonical = some version := by
  cases form with
  | range upper =>
      refine Eq.trans (b := textMember? (Json.obj [("lowerBound", .str version),
        ("upperBound", .str upper)]).canonical "lowerBound") rfl ?_
      rw [textMember_canonical]
      rfl
  | _ => rfl

theorem DumpStyle.names_member (name : String) (value : Option Json) :
    ((style.member name value).map Prod.fst).Sublist [name] := by
  cases value with
  | some value => exact List.Sublist.refl _
  | none =>
      rw [member]
      split
      · exact List.Sublist.refl _
      · exact List.nil_sublist _

namespace Declaration

/-- The name in the entry of a declaration. -/
def nameIn (entry : Json) : Option String :=
  ((entry.field? "nameForTargetDependencyResolutionOnly").or
    (entry.field? "name")).bind Json.str?

/-- The requirement in the entry of a declaration. -/
def requirementIn (entry : Json) : Option String :=
  (entry.field? "requirement").bind requirementOfDump?

theorem read_sourceControl (entry : Json) :
    ofDump? (Json.obj [("sourceControl", .arr [entry])]).canonical =
      some
        { name := nameIn entry.canonical
          url := (entry.canonical.field? "location").bind remoteLocation?
          requirement := requirementIn entry.canonical } := rfl

theorem read_fileSystem (entry : Json) :
    ofDump? (Json.obj [("fileSystem", .arr [entry])]).canonical =
      some
        { name := nameIn entry.canonical
          path := textMember? entry.canonical "path" } := rfl

theorem read_registry (entry : Json) :
    ofDump? (Json.obj [("registry", .arr [entry])]).canonical =
      some
        { name := nameIn entry.canonical
          id := textMember? entry.canonical "identity"
          requirement := requirementIn entry.canonical } := rfl

variable {declaration : Declaration} {entry : Json}

theorem nameIn_canonical
    (given : entry.field? declaration.nameMember.1 =
      some declaration.nameMember.2) :
    nameIn entry.canonical = declaration.name := by
  have here : entry.canonical.field? "nameForTargetDependencyResolutionOnly" =
      some (Json.ofOption declaration.name).canonical := by
    rw [Json.field_canonical]
    exact congrArg (Option.map Json.canonical) given
  rw [nameIn, here]
  cases declaration.name <;> rfl

theorem requirementIn_canonical {index : Nat}
    (given : entry.field? "requirement" =
      Dict.lookup "requirement" (declaration.requirementMember style index)) :
    requirementIn entry.canonical = declaration.requirement := by
  rw [requirementIn, Json.field_canonical, given, requirementMember]
  cases declaration.requirement with
  | none =>
      rw [Option.map_none, DumpStyle.member]
      split <;> rfl
  | some version => exact (style.requirement index).read_toDump version

/-- Members with the names of an entry, a requirement at the end, are looked up by
name. -/
theorem field_entry {members : List (String × Json)} {index : Nat}
    (distinct : (members.map Prod.fst ++ ["requirement"]).Nodup) (name : String) :
    (Json.obj (members ++ declaration.requirementMember style index)).field? name =
      Dict.lookup name (members ++ declaration.requirementMember style index) := by
  refine Json.field_distinct name _ (distinct.sublist ?_)
  rw [List.map_append]
  exact (List.Sublist.refl _).append (style.names_member _ _)

/-- A declaration that names one place is read as it is. -/
theorem read_toDump (onePlace : declaration.namesOnePlace) (index : Nat) :
    ofDump? (declaration.toDump style index).canonical = some declaration := by
  obtain ⟨name, url, path, id, requirement⟩ := declaration
  rcases url with _ | url <;> rcases path with _ | path <;>
    rcases id with _ | id <;> try cases onePlace
  · -- The package is in a registry.
    let declaration : Declaration := ⟨name, none, none, some id, requirement⟩
    have fields := @field_entry style declaration
      [declaration.identityMember, declaration.nameMember,
        ("productFilter", .null)] index
      (by change ["identity", "nameForTargetDependencyResolutionOnly",
            "productFilter", "requirement"].Nodup; decide)
    rw [toDump, read_registry, nameIn_canonical (fields declaration.nameMember.1),
      requirementIn_canonical style (fields "requirement"), textMember_canonical,
      textMember?]
    rw [fields "identity"]
    rfl
  · -- The package is in the file system, and no requirement is written.
    cases Option.isNone_iff_eq_none.mp onePlace
    let declaration : Declaration := ⟨name, none, some path, none, none⟩
    have fields := fun key => Json.field_distinct key
      [declaration.identityMember, declaration.nameMember, ("path", .str path),
        ("productFilter", .null)]
      (by change ["identity", "nameForTargetDependencyResolutionOnly", "path",
            "productFilter"].Nodup; decide)
    rw [toDump, read_fileSystem, nameIn_canonical (fields declaration.nameMember.1),
      textMember_canonical, textMember?, fields "path"]
    rfl
  · -- The package is under source control.
    let declaration : Declaration := ⟨name, some url, none, none, requirement⟩
    let location : Json :=
      .obj [("remote", .arr [.obj [("urlString", .str url)]])]
    have fields := @field_entry style declaration
      [declaration.identityMember, ("location", location), declaration.nameMember,
        ("productFilter", .null)] index
      (by change ["identity", "location", "nameForTargetDependencyResolutionOnly",
            "productFilter", "requirement"].Nodup; decide)
    rw [toDump, read_sourceControl,
      nameIn_canonical (fields declaration.nameMember.1),
      requirementIn_canonical style (fields "requirement"), Json.field_canonical,
      fields "location"]
    rfl

end Declaration

/-- A product is read as it is. -/
theorem Product.read_toDump (product : Product) (index : Nat) :
    ofDump? (product.toDump style index).canonical = some product := by
  obtain ⟨name, kind, targets⟩ := product
  rw [ofDump?]
  simp only [textMember_canonical, Json.field_canonical, textItems_canonical]
  have listed : textItems? ((toDump style index ⟨name, kind, targets⟩).field?
      "targets") = some targets := textItems_ofTexts targets
  rw [listed]
  rfl

/-- A member that may be absent does not hide those of other names. -/
theorem DumpStyle.lookup_behind {key name : String} (other : name ≠ key)
    (value : Option Json) (rest : List (String × Json)) :
    Dict.lookup key (style.member name value ++ rest) = Dict.lookup key rest := by
  have behind (held : Json) :
      Dict.lookup key ((name, held) :: rest) = Dict.lookup key rest :=
    if_neg other
  cases value with
  | some value => exact behind value
  | none =>
      rw [member]
      split
      · exact behind .null
      · rfl

/-- A dump is read as the package, with its dependencies as calls. -/
theorem Package.read_toDump {package : Package}
    (onePlace : ∀ declaration ∈ package.declarations, declaration.namesOnePlace) :
    ofDump (package.toDump style).canonical = .ok package.withCalls := by
  obtain ⟨name, targets, declarations, products⟩ := package
  generalize written : toDump style ⟨name, targets, declarations, products⟩ = dump
  have field (key : String) : dump.field? key =
      Dict.lookup key (style.member "name" (name.map .str) ++
        [("dependencies", .arr (declarations.mapIdx (Declaration.toDump style))),
          ("products", .arr (products.mapIdx (Product.toDump style))),
          ("targets", .arr (targets.map (Target.toDump style)))]) := by
    subst written
    refine Json.field_distinct key _ (List.Nodup.sublist ?_
      (by decide : ["name", "dependencies", "products", "targets"].Nodup))
    rw [List.map_append]
    exact (style.names_member _ _).append (List.Sublist.refl _)
  have named : textMember? dump "name" = name := by
    rw [textMember?, field]
    cases name with
    | some name => rfl
    | none =>
        rw [Option.map_none, DumpStyle.member]
        split <;> rfl
  have behind {key : String} (other : "name" ≠ key) :=
    (field key).trans (style.lookup_behind other _ _)
  have listed : itemsOf dump "targets" (fun item =>
      Target.ofDump? item.canonical) = targets.map Target.withCalls := by
    rw [itemsOf, behind (by decide)]
    refine (List.filterMap_map (l := targets) (f := Target.toDump style)).trans ?_
    simp only [Function.comp_def, Target.read_toDump, List.filterMap_eq_map']
  have declared : itemsOf dump "dependencies" (fun item =>
      Declaration.ofDump? item.canonical) = declarations := by
    rw [itemsOf, behind (by decide)]
    refine (filterMap_mapIdx id fun declaration member index => ?_).trans
      (List.map_id _)
    exact Declaration.read_toDump style (onePlace declaration member) index
  have offered : itemsOf dump "products" (fun item =>
      Product.ofDump? item.canonical) = products := by
    rw [itemsOf, behind (by decide)]
    refine (filterMap_mapIdx id fun product _ index => ?_).trans
      (List.map_id _)
    exact Product.read_toDump style product index
  have array : ¬((dump.canonical.field? "targets").bind Json.items?).isNone := by
    rw [Json.field_canonical, behind (by decide)]
    exact Bool.false_ne_true
  rw [ofDump, if_neg array, textMember_canonical, itemsOf_canonical,
    itemsOf_canonical, itemsOf_canonical, named, listed, declared, offered]
  rfl

end

end Manifest

end PackageLayers

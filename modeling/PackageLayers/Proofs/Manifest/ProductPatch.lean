/-
Purpose: What adding a product of another package to a target changes.
Main exports: declareOwner_eq_ok, declareOwner_creates, Declarable, ProductAdded,
  addProduct_first, Addition, addDependency_again, addDependency_product
-/
import PackageLayers.Proofs.Manifest.FirstDeclaration
import PackageLayers.Proofs.Manifest.LocalPatch

namespace PackageLayers.Manifest

open Source (Span)

/-!
Adding a product first declares its owner, unless a declaration is of the owner,
and then names the owner as that declaration is known.  Whether a declaration is
of the owner, and what it is known by, is settled without its requirement.
-/

/-! ### Declarations of the owner -/

/-- The declaration that is written for the owner, without its requirement. -/
def ProductContext.declaration? (context : ProductContext) :
    Option Declaration :=
  match context.provenance with
  | .remote url _ => some { url := some url }
  | .relative path => some { path := some path }
  | .unknown => none

theorem identity_located (declaration : Declaration) :
    declaration.located.identity? = declaration.identity? := rfl

/-- The first declaration of the owner is found without requirements. -/
theorem declarationFor_located (context : ProductContext) (package : Package) :
    (context.declarationFor? package).map Declaration.located =
      (package.declarations.map Declaration.located).find?
        context.isDeclaredBy := by
  rw [List.find?_map]
  rfl

/-- The declaration that is written for the owner is of the owner. -/
theorem isDeclaredBy_declaration {context : ProductContext}
    {declaration : Declaration}
    (written : context.declaration? = some declaration) :
    context.isDeclaredBy declaration := by
  unfold ProductContext.declaration? at written
  unfold ProductContext.isDeclaredBy
  split at written <;> cases written <;> simp_all

/-- Among declarations none of which is of the owner, a new one is found. -/
theorem find_between {p : Declaration → Bool} {early late : List Declaration}
    {declaration : Declaration} (none : (early ++ late).find? p = none)
    (holds : p declaration) :
    (early ++ declaration :: late).find? p = some declaration := by
  rw [List.find?_append, Option.or_eq_none_iff] at none
  rw [List.find?_append, none.1, Option.none_or, List.find?_cons_of_pos holds]

/-- A name that is inferred from a place is the identity without a name. -/
theorem identity_url (url : String) :
    Declaration.identity? { url := some url } = baseName? url := by
  simp only [Declaration.identity?, Declaration.inferredName?, Option.none_or]

theorem identity_path (path : String) :
    Declaration.identity? { path := some path } = baseName? path := by
  simp only [Declaration.identity?, Declaration.inferredName?, Option.none_or]

theorem path_chars (path : String) :
    (".package(path: " ++ quote path ++ ")").toList =
      (callToken "package" "path" path).chars := by
  have opening : ".package(path: ".toList =
      ("." ++ "package").toList ++ '(' :: ("path".toList ++ [':', ' ']) := by
    decide +kernel
  have closing : ")".toList = [')'] := by decide +kernel
  simp only [callToken, Token.chars, String.toList_append, opening, closing,
    List.flatMap_nil, List.nil_append, List.append_assoc]

/-- The text of a call with two values. -/
theorem pair_chars {opening middle name label label' : String}
    (opens : opening.toList =
      ("." ++ name).toList ++ '(' :: (label.toList ++ [':', ' ']))
    (next : middle.toList = ',' :: ' ' :: (label'.toList ++ [':', ' ']))
    (value value' : String) :
    (opening ++ quote value ++ middle ++ quote value' ++ ")").toList =
      (pairToken name label value label' value').chars := by
  have closing : ")".toList = [')'] := by decide +kernel
  simp only [pairToken, Token.chars, String.toList_append, opens, next, closing,
    List.flatMap_cons, List.flatMap_nil, List.append_nil, List.append_assoc]

/-- The text of the declaration, as a token. -/
theorem token_introduces {context : ProductContext} {floor : String}
    {written : DeclarationToken} (made : context.token floor = .ok written) :
    ∃ token declaration, context.declaration? = some declaration ∧
      Introduces token declaration ∧ written.text.toList = token.chars ∧
      written.identity = declaration.identity?.getD context.package := by
  rw [ProductContext.token] at made
  rw [ProductContext.declaration?]
  cases origin : context.provenance with
  | remote url requirement =>
      rw [origin] at made
      simp only [Except.ok.injEq] at made
      subst made
      refine ⟨_, { url := some url }, rfl, introduces_url url _,
        pair_chars (by decide +kernel) (by decide +kernel) url _, ?_⟩
      rw [identity_url]
  | relative path =>
      rw [origin] at made
      simp only [Except.ok.injEq] at made
      subst made
      refine ⟨_, { path := some path }, rfl, introduces_path path,
        path_chars path, ?_⟩
      rw [identity_path]
  | unknown =>
      rw [origin] at made
      cases made

/-- An element that is added to the array of declarations declares a package. -/
theorem declarationInsertion_declares {text : String} {token : Token}
    {declaration : Declaration} (introduces : Introduces token declaration)
    (closed : Source.AllClosed (Source.ofText text))
    (array : (Outline.ofText text).declarationArray.isSome) {written : String}
    (same : written.toList = token.chars) {edits : List Edit}
    (inserts : declarationInsertion (Source.ofText text) (Outline.ofText text)
      written = .ok edits) :
    Declares text (applyEdits text edits) declaration := by
  obtain ⟨brackets, found⟩ := Option.isSome_iff_exists.mp array
  rw [declarationInsertion, found] at inserts
  cases inserts
  obtain ⟨parens, known⟩ := packageArray_of_outline found
  exact (appends_array introduces.good closed known.matched same).declares
    introduces known

/-! ### The owner -/

/-- What a text declares after the owner of a product was declared in another
one. -/
structure OwnerDeclared (context : ProductContext) (text text' : String) :
    Prop where
  closed : Source.AllClosed (Source.ofText text')
  name : (Outline.ofText text').package.name = (Outline.ofText text).package.name
  products : (Outline.ofText text').package.products =
    (Outline.ofText text).package.products
  targets : (Outline.ofText text').package.targets =
    (Outline.ofText text).package.targets
  declarations : (Outline.ofText text').package.declarations.map
        Declaration.located =
      (Outline.ofText text).package.declarations.map Declaration.located ∨
    ∃ declaration early late, context.declaration? = some declaration ∧
      (Outline.ofText text).package.declarations.map Declaration.located =
        early ++ late ∧
      (Outline.ofText text').package.declarations.map Declaration.located =
        early ++ declaration :: late

/-- What `declareOwner` does if it succeeds: it leaves the text if the owner is
declared, and else adds the declaration of the owner. -/
theorem declareOwner_cases {floor text : String} {manifest : Path}
    {context : ProductContext} {declared : Declared}
    (made : declareOwner floor (Reading.ofText text) manifest context =
      .ok declared) :
    (∃ declaration,
      context.declarationFor? (Outline.ofText text).package = some declaration ∧
      declared.text = text ∧
      declared.owner = declaration.identity?.getD context.package) ∨
    context.declarationFor? (Outline.ofText text).package = none ∧
      ∃ token declaration written edits,
        context.declaration? = some declaration ∧
        Introduces token declaration ∧ written.toList = token.chars ∧
        declarationInsertion (Source.ofText text) (Outline.ofText text) written =
          .ok edits ∧
        declared.text = applyEdits text edits ∧
        declared.owner = declaration.identity?.getD context.package := by
  have outline : (Reading.ofText text).outline = Outline.ofText text := rfl
  rw [declareOwner, outline] at made
  cases found : context.declarationFor? (Outline.ofText text).package with
  | some declaration =>
      rw [found] at made
      cases made
      exact Or.inl ⟨declaration, rfl, rfl, rfl⟩
  | none =>
      rw [found] at made
      simp only [bind, Except.bind] at made
      cases token : context.token floor with
      | error failure =>
          rw [token] at made
          cases made
      | ok written =>
          rw [token] at made
          simp only at made
          cases inserted : edited manifest (Reading.ofText text).text
              (declarationInsertion (Reading.ofText text).source
                (Outline.ofText text) written.text) with
          | error failure =>
              rw [inserted] at made
              cases made
          | ok changed =>
              rw [inserted] at made
              cases made
              obtain ⟨edits, inserts, rfl⟩ := edited_eq_ok inserted
              obtain ⟨token, declaration, known, introduces, same, identity⟩ :=
                token_introduces token
              exact Or.inr ⟨rfl, token, declaration, _, edits, known, introduces,
                same, inserts, rfl, identity⟩

/-- A declaration of the owner that is added is found. -/
theorem Declares.owner {context : ProductContext} {text text' : String}
    {declaration : Declaration} (declares : Declares text text' declaration)
    (known : context.declaration? = some declaration)
    (fresh : context.declarationFor? (Outline.ofText text).package = none) :
    OwnerDeclared context text text' ∧ ∃ other,
      context.declarationFor? (Outline.ofText text').package = some other ∧
      other.identity? = declaration.identity? := by
  obtain ⟨early, late, old, new⟩ := declares.declarations
  have first := declarationFor_located context (Outline.ofText text).package
  rw [fresh, old] at first
  have second := declarationFor_located context (Outline.ofText text').package
  rw [new, find_between first.symm (isDeclaredBy_declaration known),
    Option.map_eq_some_iff] at second
  obtain ⟨other, here, located⟩ := second
  refine ⟨⟨declares.closed, declares.name, declares.products, declares.targets,
    Or.inr ⟨declaration, early, late, known, old, new⟩⟩, other, here, ?_⟩
  rw [← located, identity_located]

/-- Whether a declaration of the owner is found in what a text is turned into, and
the owner is named as it is known by that declaration. -/
def OwnerNamed (context : ProductContext) (text : String) (declared : Declared) :
    Prop :=
  OwnerDeclared context text declared.text ∧ ∃ declaration,
    context.declarationFor? (Outline.ofText declared.text).package =
      some declaration ∧
    declared.owner = declaration.identity?.getD context.package

/-- If the owner is declared, a declaration of the owner is found, and the owner
is named as it is known by that declaration. -/
theorem declareOwner_eq_ok {floor text : String} {manifest : Path}
    {context : ProductContext} {declared : Declared}
    (closed : Source.AllClosed (Source.ofText text))
    (possible : (Outline.ofText text).declarationArray.isSome ∨
      (context.declarationFor? (Outline.ofText text).package).isSome)
    (made : declareOwner floor (Reading.ofText text) manifest context =
      .ok declared) : OwnerNamed context text declared := by
  rcases declareOwner_cases made with ⟨declaration, found, same, named⟩ |
    ⟨fresh, token, declaration, written, edits, known, introduces, chars,
      inserts, same, named⟩
  · rw [OwnerNamed, same]
    exact ⟨⟨closed, rfl, rfl, rfl, Or.inl rfl⟩, declaration, found, named⟩
  · have array : (Outline.ofText text).declarationArray.isSome := by
      simpa [fresh] using possible
    obtain ⟨owned, other, found, identity⟩ := (declarationInsertion_declares
      introduces closed array chars inserts).owner known fresh
    rw [OwnerNamed, same, named, ← identity]
    exact ⟨owned, other, found, rfl⟩

/-- A package without the argument `dependencies` gets it, and the declaration of
the owner is the only one there. -/
theorem declareOwner_creates {floor text : String} {manifest : Path}
    {context : ProductContext} {declared : Declared}
    (closed : Source.AllClosed (Source.ofText text)) {parens : Span} {place : Nat}
    (first : FirstPlace text parens place)
    (fresh : context.declarationFor? (Outline.ofText text).package = none)
    (made : declareOwner floor (Reading.ofText text) manifest context =
      .ok declared) :
    OwnerNamed context text declared ∧ ∃ declaration,
      context.declaration? = some declaration ∧
      FirstDeclared text declared.text declaration := by
  rcases declareOwner_cases made with ⟨declaration, found, -⟩ |
    ⟨-, token, declaration, written, edits, known, introduces, chars, inserts,
      same, named⟩
  · rw [fresh] at found
    cases found
  · have creates := declarationInsertion_creates introduces closed first chars
      inserts
    obtain ⟨owned, other, found, identity⟩ :=
      creates.toDeclares.owner known fresh
    rw [OwnerNamed, same, named, ← identity]
    exact ⟨⟨owned, other, found, rfl⟩, declaration, known, creates⟩

/-- Whether a text declares the owner of a product or has a place where it can be
declared: an array of declarations, or room for one in front of the targets. -/
def Declarable (context : ProductContext) (text : String) : Prop :=
  (context.declarationFor? (Outline.ofText text).package).isSome ∨
    (Outline.ofText text).declarationArray.isSome ∨
    ∃ parens place, FirstPlace text parens place

/-- Whether no declaration of the owner, in the text or to be written, is known by a name
that is taken for another one. -/
def IsForeign (context : ProductContext) (text name : String) : Prop :=
  ∀ declaration ∈ (context.declarationFor? (Outline.ofText text).package).or
      context.declaration?,
    Text.sameFolded (declaration.identity?.getD context.package) name = false

/-- Where an owner can be declared, it is declared and named. -/
theorem Declarable.named {floor text : String} {manifest : Path}
    {context : ProductContext} {declared : Declared}
    (declarable : Declarable context text)
    (closed : Source.AllClosed (Source.ofText text))
    (made : declareOwner floor (Reading.ofText text) manifest context =
      .ok declared) : OwnerNamed context text declared := by
  rcases declarable with known | array | ⟨parens, place, first⟩
  · exact declareOwner_eq_ok closed (Or.inr known) made
  · exact declareOwner_eq_ok closed (Or.inl array) made
  · cases fresh : context.declarationFor? (Outline.ofText text).package with
    | some declaration =>
        refine declareOwner_eq_ok closed (Or.inr ?_) made
        rw [fresh]
        rfl
    | none => exact (declareOwner_creates closed first fresh made).1

/-- The label `targets` is looked for in comments too.  If the last such word in
front of the colon stands in one, nothing is declared. -/
example : (declareOwner "1.0.0" (Reading.ofText "Package(targets/*targets*/:[])")
    ⟨"/Package.swift"⟩ ⟨"B", "K", .relative "B"⟩).toOption.map
      (fun declared => (Outline.ofText declared.text).declarationArray) =
    some none := by decide +kernel

/-! ### The product -/

/-- A target lists a product under one of two names of its owner. -/
theorem listsProduct_iff {target : Target} {product owner other : String} :
    listsProduct target product owner other = true ↔
      ∃ package, .product product package ∈ target.dependencies ∧
        (Text.sameFolded package owner ∨ Text.sameFolded package other) := by
  rw [listsProduct, List.any_eq_true]
  constructor
  · rintro ⟨dependency, member, holds⟩
    cases dependency with
    | product name package =>
        simp only [Bool.and_eq_true, beq_iff_eq, Bool.or_eq_true] at holds
        obtain ⟨rfl, same⟩ := holds
        exact ⟨package, member, same⟩
    | _ => cases holds
  · rintro ⟨package, member, same⟩
    exact ⟨_, member, by simpa using same⟩

/-- What a manifest declares after a product of another package was added to its
first target with a name. -/
structure ProductAdded (context : ProductContext) (origin : String)
    (before after : Package) : Prop where
  name : after.name = before.name
  products : after.products = before.products
  declarations :
    after.declarations.map Declaration.located =
      before.declarations.map Declaration.located ∨
    ∃ declaration early late, context.declaration? = some declaration ∧
      before.declarations.map Declaration.located = early ++ late ∧
      after.declarations.map Declaration.located = early ++ declaration :: late
  declared : ∃ declaration, context.declarationFor? after = some declaration ∧
    ∃ front target rest added package,
      Firstly before.targets origin front target rest ∧
      after.targets = front ++ target.grown added :: rest ∧
      (added = [] ∨ added = [.product context.product package]) ∧
      .product context.product package ∈ (target.grown added).dependencies ∧
      (Text.sameFolded package
          (declaration.identity?.getD context.package) ∨
        Text.sameFolded package context.package)

theorem product_chars (product package : String) :
    (".product(name: " ++ quote product ++ ", package: " ++ quote package ++
      ")").toList = (productToken product package).chars :=
  pair_chars (by decide +kernel) (by decide +kernel) product package

/-- What `addProduct` does if it succeeds: it declares the owner, and adds the
product to the first declaration with the name unless that lists it. -/
theorem addProduct_eq_ok {floor text : String} {manifest : Path}
    {origin : String} {context : ProductContext} {patch : Patch}
    (added : addProduct floor text manifest origin context = .ok patch) :
    ∃ declared block,
      declareOwner floor (Reading.ofText text) manifest context = .ok declared ∧
      (Outline.ofText declared.text).block? origin = some block ∧
      (listsProduct block.target context.product declared.owner
            context.package = true ∧ patch.text = declared.text ∨
        listsProduct block.target context.product declared.owner
            context.package = false ∧ ∃ edits,
          dependencyInsertion (Source.ofText declared.text) block
              (".product(name: " ++ quote context.product ++ ", package: " ++
                quote declared.owner ++ ")") = .ok edits ∧
          patch.text = applyEdits declared.text edits) := by
  simp only [addProduct, bind, Except.bind] at added
  cases located : (Reading.ofText text).locate manifest origin with
  | error failure =>
      rw [located] at added
      cases added
  | ok first =>
      rw [located] at added
      cases owner : declareOwner floor (Reading.ofText text) manifest context with
      | error failure =>
          rw [owner] at added
          cases added
      | ok declared =>
          rw [owner] at added
          simp only at added
          cases again : (Reading.ofText declared.text).locate manifest origin with
          | error failure =>
              rw [again] at added
              cases added
          | ok block =>
              rw [again] at added
              refine ⟨declared, block, rfl, locate_eq_ok again, ?_⟩
              simp only at added
              split at added
              · rename_i listed
                cases added
                exact Or.inl ⟨listed, rfl⟩
              · rename_i fresh
                cases made : edited manifest declared.text (dependencyInsertion
                    (Reading.ofText declared.text).source block
                    (".product(name: " ++ quote context.product ++
                      ", package: " ++ quote declared.owner ++ ")")) with
                | error failure =>
                    rw [made] at added
                    cases added
                | ok changed =>
                    rw [made] at added
                    cases added
                    obtain ⟨edits, inserts, rfl⟩ := edited_eq_ok made
                    exact Or.inr ⟨by simpa using fresh, edits, inserts, rfl⟩

/-- The edits for the product leave the declarations of the owner as they are. -/
theorem ProductAdded.of_declared {context : ProductContext} {origin : String}
    {text between after : String} (owner : OwnerDeclared context text between)
    {declaration : Declaration}
    (found : context.declarationFor? (Outline.ofText between).package =
      some declaration)
    (unmoved : Unmoved (Outline.ofText between).package
      (Outline.ofText after).package)
    {front rest : List Target} {target : Target} {added : List Dependency}
    {package : String}
    (firstly : Firstly (Outline.ofText between).package.targets origin front
      target rest)
    (targets : (Outline.ofText after).package.targets =
      front ++ target.grown added :: rest)
    (few : added = [] ∨ added = [.product context.product package])
    (lists : .product context.product package ∈
      (target.grown added).dependencies)
    (same : Text.sameFolded package
        (declaration.identity?.getD context.package) ∨
      Text.sameFolded package context.package) :
    ProductAdded context origin (Outline.ofText text).package
      (Outline.ofText after).package where
  name := unmoved.name.trans owner.name
  products := unmoved.products.trans owner.products
  declarations := by
    rw [unmoved.declarations]
    exact owner.declarations
  declared := by
    have first := declarationFor_located context (Outline.ofText between).package
    have second := declarationFor_located context (Outline.ofText after).package
    rw [unmoved.declarations, ← first, found, Option.map_some,
      Option.map_eq_some_iff] at second
    obtain ⟨other, here, located⟩ := second
    refine ⟨other, here, front, target, rest, added, package, ?_, targets, few,
      lists, ?_⟩
    · rw [← owner.targets]
      exact firstly
    · rw [← identity_located, located, identity_located]
      exact same

/-- Adding a product to a manifest leaves one entry for it in the first target with
the name, under the name that its owner is declared by. -/
theorem addProduct_names {floor text : String} {manifest : Path}
    {origin : String} {context : ProductContext} {patch : Patch}
    (named : ∀ {declared}, declareOwner floor (Reading.ofText text) manifest
      context = .ok declared → OwnerNamed context text declared)
    (added : addProduct floor text manifest origin context = .ok patch) :
    Source.AllClosed (Source.ofText patch.text) ∧
      ProductAdded context origin (Outline.ofText text).package
        (Outline.ofText patch.text).package := by
  obtain ⟨declared, block, owner, found, kinds⟩ := addProduct_eq_ok added
  obtain ⟨owned, declaration, known, identity⟩ := named owner
  obtain ⟨front, rest, split, named, first⟩ := split_of_block found
  have firstly := firstly_of_split split named first
  rcases kinds with ⟨listed, same⟩ | ⟨-, edits, inserts, same⟩
  · rw [same]
    obtain ⟨package, member, folded⟩ := listsProduct_iff.mp listed
    rw [identity] at folded
    refine ⟨owned.closed, ProductAdded.of_declared owned known ⟨rfl, rfl, rfl⟩
      firstly ?_ (Or.inl rfl) ?_ folded⟩
    · rw [Target.grown_nil]
      exact firstly.split
    · rw [Target.grown_nil]
      exact member
  · rw [same]
    have member : block ∈ blocksOf (Source.ofText declared.text) := by
      rw [split]
      simp
    have gains := dependencyInsertion_gains
      (writes_product context.product declared.owner) owned.closed member
      (product_chars context.product declared.owner) inserts
    have targets := gains.targets
    rw [map_grownAt split] at targets
    have lists : .product context.product declared.owner ∈ (block.target.grown
        [.product context.product declared.owner]).dependencies := by
      simp [Target.grown]
    exact ⟨gains.closed, ProductAdded.of_declared owned known gains.unmoved
      firstly targets (Or.inr rfl) lists
      (Or.inl (by rw [identity]; exact Text.sameFolded_refl _))⟩

/-- Adding a product to a manifest declares its owner, unless it is declared, and
leaves one entry for the product in the first target with the name. -/
theorem addProduct_adds {floor text : String} {manifest : Path}
    {origin : String} {context : ProductContext} {patch : Patch}
    (closed : Source.AllClosed (Source.ofText text))
    (possible : (Outline.ofText text).declarationArray.isSome ∨
      (context.declarationFor? (Outline.ofText text).package).isSome)
    (added : addProduct floor text manifest origin context = .ok patch) :
    Source.AllClosed (Source.ofText patch.text) ∧
      ProductAdded context origin (Outline.ofText text).package
        (Outline.ofText patch.text).package :=
  addProduct_names (declareOwner_eq_ok closed possible) added

/-- A manifest that declares the owner of a product declares the same after the product
was added. -/
theorem declarations_of_declared {floor text : String} {manifest : Path}
    {origin : String} {context : ProductContext} {patch : Patch}
    (closed : Source.AllClosed (Source.ofText text))
    (known : (context.declarationFor? (Outline.ofText text).package).isSome)
    (added : addProduct floor text manifest origin context = .ok patch) :
    (Outline.ofText patch.text).package.declarations.map Declaration.located =
      (Outline.ofText text).package.declarations.map Declaration.located := by
  obtain ⟨declared, block, owner, found, kinds⟩ := addProduct_eq_ok added
  rcases declareOwner_cases owner with ⟨-, -, still, -⟩ | ⟨fresh, -⟩
  · rcases kinds with ⟨-, same⟩ | ⟨-, edits, inserts, same⟩
    · rw [same, still]
    · obtain ⟨front, rest, split, -⟩ := split_of_block found
      have gains := dependencyInsertion_gains
        (writes_product context.product declared.owner) (still.symm ▸ closed)
        (by rw [split]; simp) (product_chars context.product declared.owner) inserts
      rw [same, gains.unmoved.declarations, still]
  · rw [fresh] at known
    cases known

/-- The declaration by which the owner of a product is found after the product was
added is the one by which it was found before, or the one that is written. -/
theorem declarationFor_added {floor text : String} {manifest : Path}
    {origin : String} {context : ProductContext} {patch : Patch}
    (closed : Source.AllClosed (Source.ofText text))
    (added : addProduct floor text manifest origin context = .ok patch)
    (adds : ProductAdded context origin (Outline.ofText text).package
      (Outline.ofText patch.text).package) {declaration : Declaration}
    (found : context.declarationFor? (Outline.ofText patch.text).package =
      some declaration) :
    ∃ other ∈ (context.declarationFor? (Outline.ofText text).package).or
        context.declaration?, declaration.identity? = other.identity? := by
  have first := declarationFor_located context (Outline.ofText text).package
  have second := declarationFor_located context (Outline.ofText patch.text).package
  rw [found, Option.map_some] at second
  cases known : context.declarationFor? (Outline.ofText text).package with
  | some other =>
      have still := declarations_of_declared closed (by rw [known]; rfl) added
      rw [still, ← first, known, Option.map_some, Option.some.injEq] at second
      refine ⟨other, rfl, ?_⟩
      rw [← identity_located, second, identity_located]
  | none =>
      rw [known, Option.map_none] at first
      rcases adds.declarations with still | ⟨other, early, late, written, old, new⟩
      · rw [still, ← first] at second
        cases second
      · rw [old] at first
        rw [new, find_between first.symm (isDeclaredBy_declaration written),
          Option.some.injEq] at second
        refine ⟨other, written, ?_⟩
        rw [← identity_located, second]

/-- A product that was added is not added again. -/
theorem ProductAdded.again {context : ProductContext} {origin text : String}
    {before : Package}
    (added : ProductAdded context origin before (Outline.ofText text).package)
    (floor : String) (manifest : Path) :
    addProduct floor text manifest origin context =
      .ok { text := text, changes := [] } := by
  obtain ⟨declaration, known, front, target, rest, more, package, firstly,
    targets, -, lists, same⟩ := added.declared
  have now : Firstly (Outline.ofText text).package.targets origin front
      (target.grown more) rest := ⟨targets, firstly.named, firstly.first⟩
  obtain ⟨block, found, written⟩ := block_of_firstly now
  have located := locate_of_block found manifest
  have owner : declareOwner floor (Reading.ofText text) manifest context =
      .ok { text := text
            owner := declaration.identity?.getD context.package
            changes := [] } := by
    have outline : (Reading.ofText text).outline = Outline.ofText text := rfl
    rw [declareOwner, outline, known]
    rfl
  have listed : listsProduct block.target context.product
      (declaration.identity?.getD context.package) context.package = true := by
    rw [written, listsProduct_iff]
    exact ⟨package, lists, same⟩
  simp only [addProduct, bind, Except.bind, located, owner, listed, if_true]
  rfl

/-- A product is added with the first declaration of a package as with any other. -/
theorem addProduct_first {floor text : String} {manifest : Path}
    {origin : String} {context : ProductContext} {patch : Patch}
    (closed : Source.AllClosed (Source.ofText text)) {parens : Span} {place : Nat}
    (first : FirstPlace text parens place)
    (fresh : context.declarationFor? (Outline.ofText text).package = none)
    (added : addProduct floor text manifest origin context = .ok patch) :
    ProductAdded context origin (Outline.ofText text).package
        (Outline.ofText patch.text).package ∧
      addProduct floor patch.text manifest origin context =
        .ok { text := patch.text, changes := [] } := by
  have adds := (addProduct_names
    (fun made => (declareOwner_creates closed first fresh made).1) added).2
  exact ⟨adds, adds.again floor manifest⟩

/-- What a package declares after a dependency was added to its first target with a
name: a target of its own, or the product of an owner. -/
inductive Addition (origin destination : String) (before after : Package) :
    Option ProductContext → Prop
  | target {front rest : List Target} {target : Target}
      (unmoved : Unmoved before after)
      (firstly : Firstly before.targets origin front target rest)
      (targets : after.targets = front ++ target.grown [.bare destination] :: rest) :
      Addition origin destination before after none
  | product {context : ProductContext}
      (added : ProductAdded context origin before after) :
      Addition origin destination before after (some context)

namespace Addition

variable {origin destination : String} {before after : Package}
  {context : Option ProductContext}

theorem name (addition : Addition origin destination before after context) :
    after.name = before.name := by
  cases addition with
  | target unmoved => exact unmoved.name
  | product added => exact added.name

/-- The first target with the name has more dependencies, and the others are as they
were. -/
theorem grown (addition : Addition origin destination before after context) :
    ∃ front target rest more, Firstly before.targets origin front target rest ∧
      after.targets = front ++ target.grown more :: rest := by
  cases addition with
  | target _ firstly targets => exact ⟨_, _, _, _, firstly, targets⟩
  | product added =>
      obtain ⟨-, -, front, target, rest, more, -, firstly, targets, -⟩ :=
        added.declared
      exact ⟨front, target, rest, more, firstly, targets⟩

/-- The targets have the names that they had. -/
theorem targets (addition : Addition origin destination before after context) :
    after.targets.map Target.name = before.targets.map Target.name := by
  obtain ⟨front, target, rest, more, firstly, targets⟩ := addition.grown
  rw [targets, firstly.split, List.map_append, List.map_append, List.map_cons,
    List.map_cons, Target.grown]

theorem declares (addition : Addition origin destination before after context) :
    after.targets ≠ [] := by
  obtain ⟨front, target, rest, more, -, targets⟩ := addition.grown
  rw [targets]
  simp

end Addition

/-- What an addition does that changes a text, as long as the literals of the text
are closed and the owner of a product can be declared. -/
theorem addition_of_changes {floor text : String} {manifest : Path}
    {origin destination : String} {context : Option ProductContext}
    {patch : Patch} (closed : Source.AllClosed (Source.ofText text))
    (declarable : ∀ owner ∈ context, Declarable owner text)
    (added : addDependency floor text manifest origin destination context =
      .ok patch) (changes : patch.changes ≠ []) :
    Source.AllClosed (Source.ofText patch.text) ∧
      Addition origin destination (Outline.ofText text).package
        (Outline.ofText patch.text).package context := by
  cases context with
  | none =>
      obtain ⟨closed', unmoved, front, target, rest, firstly, targets⟩ :=
        addTarget_gains closed added changes
      exact ⟨closed', .target unmoved firstly targets⟩
  | some owner =>
      obtain ⟨closed', adds⟩ :=
        addProduct_names ((declarable owner rfl).named closed) added
      exact ⟨closed', .product adds⟩

/-- An addition that succeeded changes nothing if it is made again, as long as the
literals of the text are closed and the owner of a product can be declared. -/
theorem addDependency_again {floor text : String} {manifest : Path}
    {origin destination : String} {context : Option ProductContext}
    {patch : Patch} (closed : Source.AllClosed (Source.ofText text))
    (declarable : ∀ owner ∈ context, Declarable owner text)
    (added : addDependency floor text manifest origin destination context =
      .ok patch) :
    Source.AllClosed (Source.ofText patch.text) ∧
      addDependency floor patch.text manifest origin destination context =
        .ok { text := patch.text, changes := [] } := by
  cases context with
  | none => exact addTarget_again closed added
  | some owner =>
      obtain ⟨closed', adds⟩ :=
        addProduct_names ((declarable owner rfl).named closed) added
      exact ⟨closed', adds.again floor manifest⟩

/-- A literal that is broken off at the end of its line takes in what is added
behind it, and the addition is made once more. -/
example :
    let text := "Package(targets: [.target(name: \"A\", dependencies: [\n\"\n])])"
    let add := fun text =>
      addTarget text ⟨"/Package.swift"⟩ "A" "C"
    ((add text).bind fun patch => add patch.text).toOption.map
      (fun patch => patch.changes.length) = some 1 := by
  decide +kernel

/-- A manifest whose package lists declarations, or declares the owner, declares
after the product of another package was added what it declared, and at most one
more package and one more dependency: the owner's declaration is found, the
target with the name lists the product under the name of the owner, and the same
addition changes nothing more. -/
theorem addDependency_product {floor text : String} {manifest : Path}
    {origin destination : String} {context : ProductContext} {patch : Patch}
    (closed : Source.AllClosed (Source.ofText text))
    (possible : (Outline.ofText text).declarationArray.isSome ∨
      (context.declarationFor? (Outline.ofText text).package).isSome)
    (added : addDependency floor text manifest origin destination
      (some context) = .ok patch) :
    ProductAdded context origin (Outline.ofText text).package
        (Outline.ofText patch.text).package ∧
      addDependency floor patch.text manifest origin destination
          (some context) = .ok { text := patch.text, changes := [] } := by
  have adds := (addProduct_adds closed possible added).2
  exact ⟨adds, adds.again floor manifest⟩

/-- The owner is declared by its path, and the product gets the last segment of
the path as name of the owner. -/
theorem addDependency_product_first :
    addDependency "1.0.0"
        "Package(dependencies: [.package(path: \"../P\")], targets: [.target(name: \"A\", dependencies: [.product(name: \"U\", package: \"P\")])])" ⟨"/Package.swift"⟩ "A" "U"
        (some ⟨"P", "U", .relative "../P"⟩) =
      .ok
        { text := "Package(dependencies: [.package(path: \"../P\")], targets: [.target(name: \"A\", dependencies: [.product(name: \"U\", package: \"P\")])])"
          changes := [] } :=
  (@addDependency_product "1.0.0"
    "Package(dependencies: [], targets: [.target(name: \"A\")])" _ "A" "U" _
    { text := "Package(dependencies: [.package(path: \"../P\")], targets: [.target(name: \"A\", dependencies: [.product(name: \"U\", package: \"P\")])])"
      changes :=
        [.packageDeclaration "P" ".package(path: \"../P\")" "/Package.swift",
          .productDependency "A" "U" "P" "/Package.swift"] }
    (by decide +kernel) (by decide +kernel) (by decide +kernel)).2

end PackageLayers.Manifest

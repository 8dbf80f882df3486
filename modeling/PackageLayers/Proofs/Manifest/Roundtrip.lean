/-
Purpose: Parsing undoes printing.
Main exports: dotsAt_manifest, IsManifest.package_eq, ofText_canonicalText
-/
import PackageLayers.Proofs.Manifest.Findings

namespace PackageLayers.Manifest

open Source (Span CodeAt isName isWord Balanced)

/-!
The outline of a canonical manifest is the package that it was printed from.  The
dots of the text are those of its products, of its declarations and of its
targets, in this order, so each part is read off its own dots.
-/

/-! ### Places in a manifest -/

section

variable {package : Package}

/-- The argument with the name of a package, if there is one. -/
def nameArguments (package : Package) : List Argument :=
  (package.name.map (textArgument "name")).toList

/-- The argument with the products of a package. -/
def productsArgument (package : Package) : Argument :=
  arrayArgument "products" (package.products.map productPieces)

/-- The argument with the declarations of a package. -/
def declarationsArgument (package : Package) : Argument :=
  arrayArgument "dependencies" (package.declarations.map declarationPieces)

/-- The argument with the targets of a package. -/
def targetsArgument (package : Package) : Argument :=
  arrayArgument "targets" (package.targets.map targetPieces)

theorem packageArguments_eq (package : Package) : packageArguments package =
    nameArguments package ++ productsArgument package ::
      [declarationsArgument package, targetsArgument package] := rfl

theorem packageArguments_eq_declarations (package : Package) :
    packageArguments package =
      (nameArguments package ++ [productsArgument package]) ++
        declarationsArgument package :: [targetsArgument package] := by
  rw [packageArguments_eq, List.append_assoc]
  rfl

theorem packageArguments_eq_targets (package : Package) :
    packageArguments package =
      (nameArguments package ++
          [productsArgument package, declarationsArgument package]) ++
        targetsArgument package :: [] := by
  rw [packageArguments_eq, List.append_assoc]
  rfl

/-- Where the parenthesis of the call of a package is. -/
def callParen : Nat := 7

theorem length_package : "Package".toList.length = callParen := by decide

/-- Where the array of products is. -/
def productsBracket (package : Package) : Nat :=
  bracketPlace callParen (nameArguments package) "products"

/-- Where the array of declarations is. -/
def declarationsBracket (package : Package) : Nat :=
  bracketPlace callParen (nameArguments package ++ [productsArgument package])
    "dependencies"

/-- Where the array of targets is. -/
def targetsBracket (package : Package) : Nat :=
  bracketPlace callParen (nameArguments package ++
    [productsArgument package, declarationsArgument package]) "targets"

theorem labelPlace_concat (offset : Nat) (before : List Argument)
    (argument : Argument) : labelPlace offset (before ++ [argument]) =
      labelPlace offset before + lengthOf argument.pieces + 2 := by
  have last : leading ((before ++ [argument]).map Argument.pieces) =
      leading (before.map Argument.pieces) ++
        (argument.pieces ++ [.code ',', .code ' ']) := by
    simp [leading]
  have two : lengthOf [Piece.code ',', .code ' '] = 2 := rfl
  rw [labelPlace, labelPlace, last, lengthOf_append, lengthOf_append, two]
  omega

/-- The dots of arguments are those of three of them behind the others. -/
theorem dotsAt_arguments (offset : Nat) (before : List Argument)
    (first second third : Argument) :
    dotsAt (offset + 1)
        (listed ((before ++ [first, second, third]).map Argument.pieces)) =
      ((placed Argument.pieces (offset + 1) before).flatMap fun entry =>
          dotsAt entry.1 entry.2.pieces) ++
        (dotsAt (labelPlace offset before) first.pieces ++
          (dotsAt (labelPlace offset (before ++ [first])) second.pieces ++
            dotsAt (labelPlace offset (before ++ [first, second]))
              third.pieces)) := by
  have both : before ++ [first, second] = (before ++ [first]) ++ [second] := by
    simp
  rw [dotsAt_listed, placed_split, both, labelPlace_concat, labelPlace_concat,
    labelPlace_concat, List.flatMap_append]
  simp only [placed, labelPlace, List.flatMap_cons, List.flatMap_nil,
    List.append_nil]

/-- The dots of an array of printed parts. -/
theorem dotsAt_arrayArgument {α : Type} (print : α → List Piece) (offset : Nat)
    (before : List Argument) {label : String} (name : isName label)
    (items : List α) :
    dotsAt (labelPlace offset before)
        (arrayArgument label (items.map print)).pieces =
      (placed print (bracketPlace offset before label + 1) items).flatMap
        fun entry => dotsAt entry.1 (print entry.2) := by
  rw [dotsAt_array _ name, place_arrayArgument, dotsAt_listed]

/-- The name of a package has no dots. -/
theorem dotsAt_nameArguments (offset : Nat) (package : Package) :
    ((placed Argument.pieces offset (nameArguments package)).flatMap
      fun entry => dotsAt entry.1 entry.2.pieces) = [] := by
  rw [List.flatMap_eq_nil_iff]
  intro entry member
  obtain ⟨name, -, same⟩ := Option.map_eq_some_iff.mp
    (Option.mem_toList.mp (mem_of_placed member))
  rw [← same]
  exact dotsAt_text _ (by decide) name

/-- The dots of a manifest are those of its products, of its declarations and of
its targets. -/
theorem dotsAt_manifest (package : Package) : dotsAt 0 (manifestPieces package) =
    ((placed productPieces (productsBracket package + 1)
        package.products).flatMap fun entry =>
          dotsAt entry.1 (productPieces entry.2)) ++
      (((placed declarationPieces (declarationsBracket package + 1)
          package.declarations).flatMap fun entry =>
            dotsAt entry.1 (declarationPieces entry.2)) ++
        (placed targetPieces (targetsBracket package + 1)
          package.targets).flatMap fun entry =>
            dotsAt entry.1 (targetPieces entry.2)) := by
  have word : '.' ∉ "Package".toList := by decide
  have all := dotsAt_behind 0 word (packageArguments package)
  rw [length_package, ← manifestPieces, Nat.zero_add, packageArguments_eq,
    dotsAt_arguments, dotsAt_nameArguments, List.nil_append] at all
  have products := dotsAt_arrayArgument productPieces callParen
    (nameArguments package) (by decide : isName "products")
    package.products
  have declarations := dotsAt_arrayArgument declarationPieces callParen
    (nameArguments package ++ [productsArgument package])
    (by decide : isName "dependencies") package.declarations
  have targets := dotsAt_arrayArgument targetPieces callParen
    (nameArguments package ++
      [productsArgument package, declarationsArgument package])
    (by decide : isName "targets") package.targets
  rw [← productsArgument, ← productsBracket] at products
  rw [← declarationsArgument, ← declarationsBracket] at declarations
  rw [← targetsArgument, ← targetsBracket] at targets
  rw [all, products, declarations, targets]

end

/-! ### The whole manifest -/

section

variable {package : Package}

/-- The arguments of the call of a package have labels of their own. -/
theorem labels_distinct (package : Package) :
    ((packageArguments package).map Argument.label).Nodup := by
  rw [packageArguments_eq, nameArguments]
  cases package.name <;>
    simp [productsArgument, declarationsArgument, targetsArgument,
      arrayArgument, textArgument]

/-- A text shows the canonical manifest of a package and nothing else. -/
structure IsManifest (source : Source) (package : Package) : Prop where
  known : ∀ product ∈ package.products, product.kind ∈ productKinds
  shows : Shows source 0 (manifestPieces package)
  size : source.size = lengthOf (manifestPieces package)

/-- The canonical manifest of a package is one. -/
theorem isManifest_ofText
    (known : ∀ product ∈ package.products, product.kind ∈ productKinds) :
    IsManifest (Source.ofText (canonicalText package)) package where
  known := known
  shows := shows_render (manifest_sound known)
  size := size_render (manifest_sound known)

namespace IsManifest

variable {source : Source} (manifest : IsManifest source package)

include manifest

/-- The call of the package is printed. -/
theorem printed : Printed source callParen (packageArguments package) := by
  have shows := manifest.shows
  rw [manifestPieces] at shows
  have behind := shows.back
  rw [lengthOf_plainly, length_package, Nat.zero_add] at behind
  exact ⟨fun argument member =>
    (packageArguments_sound manifest.known argument member).good, behind⟩

/-- The call of the package is found. -/
theorem packageCall : packageCall? source =
    some (parensAt callParen (packageArguments package)) := by
  have printed := manifest.printed
  have good : isWord "Package".toList := by decide
  have first : packageCallAt? source 0 =
      some (parensAt callParen (packageArguments package)) := by
    have paren := printed.shows.code
    have call := @callAt_of_paren _ 0 callParen (by rwa [Nat.zero_add])
    have partner := Source.partner_of_matched printed.matched
    have start : (parensAt callParen (packageArguments package)).start =
        callParen := rfl
    rw [start] at partner
    rw [packageCallAt_eq, if_neg (by simp), length_package, call,
      Option.bind_some, Nat.zero_add, partner]
    rfl
  have member : 0 ∈ source.occurrences "Package" source.whole := by
    have shows := manifest.shows
    rw [manifestPieces] at shows
    have code : CodeAt source "Package".toList 0 :=
      fun index c here => shows.plain here
    have upper := Source.lt_size_of_codeAt printed.shows.code
    have stop : source.whole.stop = source.size := rfl
    refine (Source.mem_occurrences good).mpr ⟨Nat.le_refl _, ?_, code⟩
    rw [length_package, stop]
    omega
  have ascend : (source.occurrences "Package" source.whole).Pairwise (· < ·) :=
    Source.occurrences_ascend good _
  rw [packageCall?]
  cases found : source.occurrences "Package" source.whole with
  | nil =>
      rw [found] at member
      cases member
  | cons position rest =>
      rw [found] at member ascend
      rcases List.mem_cons.mp member with rfl | later
      · rw [List.findSome?_cons, first]
      · exact absurd ((List.pairwise_cons.mp ascend).1 0 later) (Nat.not_lt_zero _)

/-- The name of the package is read back. -/
theorem name : (Outline.ofSource source).package.name = package.name := by
  have named := manifest.printed.labelText_eq (by decide : isName "name")
  rw [ofSource_name, manifest.packageCall, Option.bind_some, named,
    packageArguments_eq, nameArguments]
  cases package.name with
  | none => simp [Argument.textOf, productsArgument, declarationsArgument,
      targetsArgument, arrayArgument]
  | some name => simp [Argument.textOf, textArgument, Argument.text?]

/-- The array of products is found. -/
theorem productsArray :
    labelArray? source (parensAt callParen (packageArguments package))
        "products" = some (bracketsAt (productsBracket package)
          (package.products.map productPieces)) ∧
      Shows source (productsBracket package)
        (bracketed (package.products.map productPieces)) := by
  have split := packageArguments_eq package
  exact manifest.printed.array split
    (first_of_distinct (labels_distinct package) split)

/-- The array of declarations is printed. -/
theorem declarationsArray : Shows source (declarationsBracket package)
    (bracketed (package.declarations.map declarationPieces)) := by
  have split := packageArguments_eq_declarations package
  exact (manifest.printed.array split
    (first_of_distinct (labels_distinct package) split)).2

/-- The array of targets is printed. -/
theorem targetsArray : Shows source (targetsBracket package)
    (bracketed (package.targets.map targetPieces)) := by
  have split := packageArguments_eq_targets package
  exact (manifest.printed.array split
    (first_of_distinct (labels_distinct package) split)).2

/-- Targets stand in the array of targets, and in no other. -/
theorem containers :
    isTargetsContainer source (productsBracket package) = false ∧
      isTargetsContainer source (declarationsBracket package) = false ∧
        isTargetsContainer source (targetsBracket package) = true :=
  ⟨manifest.printed.container (packageArguments_eq package) (by decide),
    manifest.printed.container (packageArguments_eq_declarations package)
      (by decide),
    manifest.printed.container (packageArguments_eq_targets package)
      (by decide)⟩

/-- The products are read back. -/
theorem products : (Outline.ofSource source).package.products =
    package.products := by
  obtain ⟨found, shows⟩ := manifest.productsArray
  have element (product : Product) (member : product ∈ package.products) :
      IsElement (productPieces product) :=
    isElement_of_sound (isName_productKind (manifest.known product member))
      (productArguments_sound product)
  have read := shows.filterMap_elements (productIn? source) some element fun place product member here =>
      productIn_pieces (manifest.known product member) here
  rw [List.filterMap_some] at read
  rw [ofSource_products, manifest.packageCall, Option.bind_some, found,
    Option.map_some, Option.getD_some, productsIn, read]

/-- The declarations are read back. -/
theorem declarations : (Outline.ofSource source).package.declarations =
    package.declarations := by
  have products : ((placed productPieces (productsBracket package + 1)
      package.products).flatMap fun entry =>
        dotsAt entry.1 (productPieces entry.2)).filterMap
          (declarationOf? source) = [] := by
    rw [List.filterMap_eq_nil_iff]
    intro dot member
    obtain ⟨entry, here, inside⟩ := List.mem_flatMap.mp member
    have kind := manifest.known entry.2 (mem_of_placed here)
    rw [dotsAt_product kind, List.mem_singleton] at inside
    have shows := (manifest.productsArray.2.inside.item here).1
    have other : ∀ kind ∈ productKinds, kind ≠ "package" := by decide
    rw [inside]
    exact Shows.no_declaration shows (isWord_of_productKind kind) (other _ kind)
  have targets : ((placed targetPieces (targetsBracket package + 1)
      package.targets).flatMap fun entry =>
        dotsAt entry.1 (targetPieces entry.2)).filterMap
          (declarationOf? source) = [] := by
    rw [List.filterMap_eq_nil_iff]
    intro dot member
    obtain ⟨entry, here, inside⟩ := List.mem_flatMap.mp member
    obtain ⟨name, known, arguments, shows⟩ :=
      call_of_target (manifest.targetsArray.inside.item here).1 inside
    have other : ∀ name ∈ targetCalls,
        isWord ("." ++ name).toList ∧ name ≠ "package" := by decide
    exact shows.no_declaration (other name known).1 (other name known).2
  have declared : ((placed declarationPieces (declarationsBracket package + 1)
      package.declarations).flatMap fun entry =>
        dotsAt entry.1 (declarationPieces entry.2)).filterMap
          (declarationOf? source) = package.declarations := by
    simp only [dotsAt_declaration]
    rw [← List.map_eq_flatMap, List.filterMap_map]
    have read := @filterMap_placed _ declarationPieces _ _ some _ _ fun entry member =>
      (manifest.declarationsArray.inside.item member).1.declarationOf
    rw [List.filterMap_some] at read
    exact read
  rw [ofSource_declarations, declarations_dots manifest.shows manifest.size,
    dotsAt_manifest, List.filterMap_append, List.filterMap_append, products,
    declared, targets, List.nil_append, List.append_nil]

/-- The targets are read back. -/
theorem targets : (Outline.ofSource source).package.targets =
    package.targets := by
  have candidates := candidates_dots manifest.shows manifest.size
  rw [dotsAt_manifest, ← List.append_assoc] at candidates
  obtain ⟨noProducts, noDeclarations, container⟩ := manifest.containers
  have outside : ∀ dot ∈ ((placed productPieces (productsBracket package + 1)
        package.products).flatMap fun entry =>
          dotsAt entry.1 (productPieces entry.2)) ++
      (placed declarationPieces (declarationsBracket package + 1)
        package.declarations).flatMap fun entry =>
          dotsAt entry.1 (declarationPieces entry.2),
      dot < 0 ∨
        (source.enclosing? dot).any (isTargetsContainer source) = false := by
    intro dot member
    right
    rcases List.mem_append.mp member with product | declaration
    · obtain ⟨entry, here, inside⟩ := List.mem_flatMap.mp product
      have around := manifest.productsArray.2.enclosing_item
        (fun product member =>
          (productPieces_sound (manifest.known product member)).balanced) here
      rw [dotsAt_product (manifest.known entry.2 (mem_of_placed here)),
        List.mem_singleton] at inside
      rw [inside, around, Option.any_some, noProducts]
    · obtain ⟨entry, here, inside⟩ := List.mem_flatMap.mp declaration
      have around := manifest.declarationsArray.enclosing_item
        (fun declaration _ => (declarationPieces_sound declaration).balanced) here
      rw [dotsAt_declaration, List.mem_singleton] at inside
      rw [inside, around, Option.any_some, noDeclarations]
  have array := manifest.targetsArray
  have each : ∀ entry ∈ placed targetPieces (targetsBracket package + 1)
      package.targets, Shows source entry.1 (targetPieces entry.2) ∧
        0 ≤ entry.1 ∧
          (source.enclosing? entry.1).any (isTargetsContainer source) := by
    intro entry member
    have around := array.enclosing_item
      (fun target _ => (targetPieces_sound target).balanced) member
    refine ⟨(array.inside.item member).1, Nat.zero_le _, ?_⟩
    rw [around, Option.any_some, container]
  rw [ofSource_targets, blocksOf, candidates, findings_skip outside,
    findings_targets each (placed_apart _ _).2, placed_snd]

/-- A canonical manifest declares the package that it was printed from. -/
theorem package_eq : (Outline.ofSource source).package = package := by
  have name := manifest.name
  have products := manifest.products
  have declarations := manifest.declarations
  have targets := manifest.targets
  generalize (Outline.ofSource source).package = read at *
  cases read
  cases package
  simp only at name products declarations targets
  rw [name, products, declarations, targets]

end IsManifest

/-- Parsing undoes printing: the canonical manifest of a package with a name is
parsed to exactly that package, whatever texts there are in it. -/
theorem ofText_canonicalText {name : String} (named : package.name = some name)
    (known : ∀ product ∈ package.products, product.kind ∈ productKinds) :
    Package.ofText? (canonicalText package) = some package := by
  have read : (Outline.ofText (canonicalText package)).package = package :=
    (isManifest_ofText known).package_eq
  rw [Package.ofText?, read, named]
  rfl

end

/-- A package whose names look like parts of a manifest. -/
def lookAlike : Package :=
  { name := some "], targets: [.target(name: \"T\")] // /*"
    targets :=
      [{ name := ".plugin(", kind := .plugin, path := some "\\(x)",
         sources := some ["\n", ""],
         dependencies := [.bare "*/", .target ".target(", .byName "\"",
           .product "\t" "])"] }]
    declarations := [{ name := some "from: ", requirement := some "1.0.0" }, {}]
    products := [{ name := "targets: [", kind := "plugin", targets := ["é"] }] }

theorem ofText_canonicalText_lookAlike :
    lookAlike.name = some "], targets: [.target(name: \"T\")] // /*" ∧
      (∀ product ∈ lookAlike.products, product.kind ∈ productKinds) ∧
        Package.ofText? (canonicalText lookAlike) = some lookAlike :=
  ⟨rfl, by decide, ofText_canonicalText rfl (by decide)⟩

end PackageLayers.Manifest

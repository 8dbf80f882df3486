/-
Purpose: The manifest that writes a package out in full.
Main exports: dependencyPieces, targetPieces, declarationPieces, productPieces,
  manifestPieces, canonicalText, manifest_sound
-/
import PackageLayers.Proofs.Manifest.Listings

namespace PackageLayers.Manifest

open Source (isName)

/-!
The canonical manifest of a package is one call with the arguments `name`,
`products`, `dependencies` and `targets`.  Every text is quoted, every target is
written with the constructor of its kind, and what a target or a declaration does
not have is left out.
-/

/-- An array. -/
def bracketed (items : List (List Piece)) : List Piece :=
  .code '[' :: (listed items ++ [.code ']'])

/-- An argument with an array. -/
def arrayArgument (label : String) (items : List (List Piece)) : Argument :=
  ⟨label, bracketed items⟩

/-- A text as element of an array. -/
def textPieces (text : String) : List Piece := [.value text]

/-- An entry of the dependencies of a target. -/
def dependencyPieces : Dependency → List Piece
  | .bare name => [.value name]
  | .target name => memberCall "target" [textArgument "name" name]
  | .byName name => memberCall "byName" [textArgument "name" name]
  | .product name package =>
      memberCall "product"
        [textArgument "name" name, textArgument "package" package]

/-- The constructor of the targets of a kind. -/
def TargetKind.constructor : TargetKind → String
  | .regular => "target"
  | .executable => "executableTarget"
  | .test => "testTarget"
  | .macroTarget => "macro"
  | .plugin => "plugin"
  | .system => "systemLibrary"
  | .binary => "binaryTarget"

/-- The arguments of a target. -/
def targetArguments (target : Target) : List Argument :=
  textArgument "name" target.name ::
    arrayArgument "dependencies" (target.dependencies.map dependencyPieces) ::
      ((target.path.map (textArgument "path")).toList ++
        (target.sources.map fun sources =>
          arrayArgument "sources" (sources.map textPieces)).toList)

/-- The declaration of a target. -/
def targetPieces (target : Target) : List Piece :=
  memberCall target.kind.constructor (targetArguments target)

/-- The arguments for the fields that have a text. -/
def fieldArguments (fields : List (String × Option String)) : List Argument :=
  fields.filterMap fun field => field.2.map (textArgument field.1)

/-- The fields of a declaration of a package. -/
def declarationFields (declaration : Declaration) :
    List (String × Option String) :=
  [("name", declaration.name), ("url", declaration.url),
    ("path", declaration.path), ("id", declaration.id),
    ("from", declaration.requirement)]

/-- The arguments of a declaration of a package. -/
def declarationArguments (declaration : Declaration) : List Argument :=
  fieldArguments (declarationFields declaration)

/-- The declaration of a package. -/
def declarationPieces (declaration : Declaration) : List Piece :=
  memberCall "package" (declarationArguments declaration)

/-- The declaration of a product. -/
def productPieces (product : Product) : List Piece :=
  memberCall product.kind
    [textArgument "name" product.name,
      arrayArgument "targets" (product.targets.map textPieces)]

/-- The arguments of the call of a package. -/
def packageArguments (package : Package) : List Argument :=
  (package.name.map (textArgument "name")).toList ++
    [arrayArgument "products" (package.products.map productPieces),
      arrayArgument "dependencies" (package.declarations.map declarationPieces),
      arrayArgument "targets" (package.targets.map targetPieces)]

/-- The manifest of a package. -/
def manifestPieces (package : Package) : List Piece :=
  plainly "Package".toList ++ parenthesized (packageArguments package)

/-- The text of the manifest of a package. -/
def canonicalText (package : Package) : String := render (manifestPieces package)

/-- A manifest with a product, a declaration and a target. -/
example :
    canonicalText
        { name := some "P"
          targets := [{ name := "T", dependencies := [.bare "a\"b"] }]
          declarations := [{ path := some "../Q" }]
          products := [{ name := "L", kind := "library", targets := ["T"] }] } =
      "Package(name: \"P\", products: [.library(name: \"L\", targets: [\"T\"])], dependencies: [.package(path: \"../Q\")], targets: [.target(name: \"T\", dependencies: [\"a\\\"b\"])])" := by
  decide +kernel

/-! ### Sound arguments -/

/-- Whether an argument is a name with a sound value. -/
structure Argument.Sound (argument : Argument) : Prop where
  good : argument.Good
  sound : PackageLayers.Manifest.Sound argument.value

theorem Argument.Sound.pieces {argument : Argument} (sound : argument.Sound) :
    PackageLayers.Manifest.Sound argument.pieces := by
  rw [Argument.pieces]
  refine PackageLayers.Manifest.Sound.plainly (fun c member => ?_)
    (.cons (by decide) (by decide) (.cons (by decide) (by decide) sound.sound))
  have known := name_plain sound.good.label c member
  exact ⟨plain_of_isNameChar known, Source.no_bracket_of_name known⟩

theorem textArgument_sound {label : String} (name : isName label)
    (value : String) : (textArgument label value).Sound :=
  ⟨textArgument_good name value, .value value⟩

theorem arrayArgument_sound {label : String} (name : isName label)
    {items : List (List Piece)} (sound : ∀ item ∈ items, Sound item) :
    (arrayArgument label items).Sound :=
  ⟨⟨name, .array (Sound.listed sound).balanced⟩,
    .bracketed rfl rfl (by decide) (Sound.listed sound)⟩

theorem memberCall_sound {name : String} {arguments : List Argument}
    (good : isName name) (sound : ∀ argument ∈ arguments, argument.Sound) :
    Sound (memberCall name arguments) := by
  refine Sound.plainly (fun c member => ?_)
    (.bracketed rfl rfl (by decide) (.listed fun item member => ?_))
  · have known := dotted_plain good c member
    exact ⟨known.1, known.2.1⟩
  · obtain ⟨argument, here, rfl⟩ := List.mem_map.mp member
    exact (sound argument here).pieces

theorem isElement_of_sound {name : String} {arguments : List Argument}
    (good : isName name) (sound : ∀ argument ∈ arguments, argument.Sound) :
    IsElement (memberCall name arguments) := by
  refine isElement_call good (Sound.listed fun item member => ?_).balanced
  obtain ⟨argument, here, rfl⟩ := List.mem_map.mp member
  exact (sound argument here).pieces

/-! ### The manifest is sound -/

theorem textPieces_sound (text : String) : Sound (textPieces text) :=
  .value text

theorem texts_sound (texts : List String) :
    ∀ item ∈ texts.map textPieces, Sound item := by
  intro item member
  obtain ⟨text, -, rfl⟩ := List.mem_map.mp member
  exact textPieces_sound text

theorem nameArgument_sound (name : String) :
    ∀ argument ∈ [textArgument "name" name], argument.Sound := by
  intro argument member
  rw [List.mem_singleton.mp member]
  exact textArgument_sound (by decide) name

theorem ownedArguments_sound (name package : String) :
    ∀ argument ∈ [textArgument "name" name, textArgument "package" package],
      argument.Sound := by
  intro argument member
  simp only [List.mem_cons, List.not_mem_nil, or_false] at member
  rcases member with rfl | rfl
  · exact textArgument_sound (by decide) name
  · exact textArgument_sound (by decide) package

theorem dependencyPieces_sound (dependency : Dependency) :
    Sound (dependencyPieces dependency) := by
  cases dependency with
  | bare name => exact .value name
  | target name => exact memberCall_sound (by decide) (nameArgument_sound name)
  | byName name => exact memberCall_sound (by decide) (nameArgument_sound name)
  | product name package =>
      exact memberCall_sound (by decide) (ownedArguments_sound name package)

theorem targetArguments_sound (target : Target) :
    ∀ argument ∈ targetArguments target, argument.Sound := by
  intro argument member
  simp only [targetArguments, List.mem_cons, List.mem_append,
    Option.mem_toList, Option.map_eq_some_iff] at member
  rcases member with rfl | rfl | ⟨path, -, rfl⟩ | ⟨sources, -, rfl⟩
  · exact textArgument_sound (by decide) _
  · refine arrayArgument_sound (by decide) fun item member => ?_
    obtain ⟨dependency, -, rfl⟩ := List.mem_map.mp member
    exact dependencyPieces_sound dependency
  · exact textArgument_sound (by decide) _
  · exact arrayArgument_sound (by decide) (texts_sound sources)

theorem isName_constructor (kind : TargetKind) : isName kind.constructor := by
  cases kind <;> decide

theorem targetPieces_sound (target : Target) : Sound (targetPieces target) :=
  memberCall_sound (isName_constructor target.kind) (targetArguments_sound target)

theorem declarationArguments_sound (declaration : Declaration) :
    ∀ argument ∈ declarationArguments declaration, argument.Sound := by
  intro argument member
  obtain ⟨field, known, made⟩ := List.mem_filterMap.mp member
  obtain ⟨value, -, rfl⟩ := Option.map_eq_some_iff.mp made
  refine textArgument_sound ?_ value
  simp only [declarationFields, List.mem_cons, List.not_mem_nil,
    or_false] at known
  rcases known with rfl | rfl | rfl | rfl | rfl <;> dsimp only <;> decide

theorem declarationPieces_sound (declaration : Declaration) :
    Sound (declarationPieces declaration) :=
  memberCall_sound (by decide) (declarationArguments_sound declaration)

/-- The kinds of products. -/
def productKinds : List String := ["library", "executable", "plugin"]

theorem isName_productKind {kind : String} (known : kind ∈ productKinds) :
    isName kind := by
  have all : ∀ kind ∈ productKinds, isName kind := by decide
  exact all kind known

theorem productArguments_sound (product : Product) :
    ∀ argument ∈ [textArgument "name" product.name,
      arrayArgument "targets" (product.targets.map textPieces)],
      argument.Sound := by
  intro argument member
  simp only [List.mem_cons, List.not_mem_nil, or_false] at member
  rcases member with rfl | rfl
  · exact textArgument_sound (by decide) _
  · exact arrayArgument_sound (by decide) (texts_sound product.targets)

theorem productPieces_sound {product : Product}
    (known : product.kind ∈ productKinds) : Sound (productPieces product) :=
  memberCall_sound (isName_productKind known) (productArguments_sound product)

theorem packageArguments_sound {package : Package}
    (known : ∀ product ∈ package.products, product.kind ∈ productKinds) :
    ∀ argument ∈ packageArguments package, argument.Sound := by
  intro argument member
  simp only [packageArguments, List.mem_append, Option.mem_toList,
    Option.map_eq_some_iff, List.mem_cons, List.not_mem_nil, or_false] at member
  rcases member with ⟨name, -, rfl⟩ | rfl | rfl | rfl
  · exact textArgument_sound (by decide) _
  · refine arrayArgument_sound (by decide) fun item member => ?_
    obtain ⟨product, here, rfl⟩ := List.mem_map.mp member
    exact productPieces_sound (known product here)
  · refine arrayArgument_sound (by decide) fun item member => ?_
    obtain ⟨declaration, -, rfl⟩ := List.mem_map.mp member
    exact declarationPieces_sound declaration
  · refine arrayArgument_sound (by decide) fun item member => ?_
    obtain ⟨target, -, rfl⟩ := List.mem_map.mp member
    exact targetPieces_sound target

/-- The manifest of a package is read as it is printed. -/
theorem manifest_sound {package : Package}
    (known : ∀ product ∈ package.products, product.kind ∈ productKinds) :
    Sound (manifestPieces package) := by
  refine Sound.plainly (fun c member => ?_)
    (.bracketed rfl rfl (by decide) (.listed fun item member => ?_))
  · have plain : ∀ c ∈ "Package".toList,
        isPlain c ∧ Bracket.ofChar? c = none :=
      List.all_iff_forall_prop.mp (by decide)
    exact plain c member
  · obtain ⟨argument, here, rfl⟩ := List.mem_map.mp member
    exact (packageArguments_sound known argument here).pieces

end PackageLayers.Manifest

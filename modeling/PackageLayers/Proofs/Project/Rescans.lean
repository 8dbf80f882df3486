/-
Purpose: What a scan finds after files have changed.
Main exports: IsGround, Untouched, Untouched.discoveriesOf_eq, Replaced,
  discoveriesOf_edited
-/
import PackageLayers.Proofs.Project.Additions
import PackageLayers.Proofs.Project.Scanning

namespace PackageLayers.Project

open Manifest (Outline)

/-!
A scan sees files by the name of manifests and nothing else.  As the list that it
makes is in order, it is determined by which of these there are: whatever else
changes, the same manifests are listed in the same order.  If only the text of one of
them changes, only the package of that one is read anew.
-/

variable {root cache : Path} {files later : Files} {edited : Location}

/-! ### The root of a scan -/

theorem descend_path {location : Location} {names : List String}
    (plain : (location ++ names).IsPlain) :
    location.path.descend names = (location ++ names).path := by
  induction names generalizing location with
  | nil =>
      rw [List.append_nil]
      rfl
  | cons name names inductionHypothesis =>
      rw [List.append_cons] at plain ⊢
      rw [← inductionHypothesis plain, ← Location.child_path
        (fun other member => plain other (by simp [member])) (plain name (by simp))]
      rfl

/-- Whether a path is the canonical one of a directory in a tree. -/
structure IsGround (files : Files) (root : Path) : Prop where
  tree : files.IsTree
  located : files.locate root = .ok root.place
  directory : files.isDirectory root.place
  canonical : root.place.path = root

namespace IsGround

/-- A directory of a tree has a canonical path. -/
theorem of_directory {location : Location} (tree : files.IsTree)
    (directory : files.isDirectory location) : IsGround files location.path := by
  have plain := tree.plain_directory directory
  have place := Location.place_path plain
  refine ⟨tree, ?_, place.symm ▸ directory, congrArg Location.path place⟩
  rw [place]
  by_cases root : location = []
  · subst root
    rfl
  · rw [Files.isDirectory, beq_iff_eq, Files.get?, if_neg root] at directory
    have led := @Files.IsTree.locate_below files tree ⟨"/"⟩ [] location .directory rfl
      (mem_of_entryAt directory)
    have spelled : Path.descend ⟨"/"⟩ location = location.path :=
      @descend_path [] location plain
    rwa [← spelled]

variable (ground : IsGround files root)

include ground

theorem store {path : Path} {content : Content} {modified : Nat}
    (stored : files.store path content modified = .ok later) : IsGround later root where
  tree := ground.tree.store stored
  located := Files.locate_store stored ground.located
  directory := by
    obtain ⟨made, executable, widens, -, filled, free, -, -, rfl⟩ :=
      Files.store_eq stored
    have still := widens.isDirectory ground.directory
    rw [Files.isDirectory, Files.get?_put made filled, if_neg]
    · exact still
    · rintro same
      rw [← same, still] at free
      cases free
  canonical := ground.canonical

/-- The root is not below a file. -/
theorem not_below_file {place : Location} {file : File}
    (found : files.file? place = some file) : ¬place <+: root.place := by
  intro below
  have solid := Files.not_directory_of_file found
  by_cases whole : place = root.place
  · rw [whole, ground.directory] at solid
    cases solid
  · have directory := ground.directory
    rw [Files.isDirectory, beq_iff_eq, Files.get?] at directory
    split at directory
    · rename_i top
      rw [top] at below whole
      exact whole (List.prefix_nil.mp below)
    · rw [ground.tree.directory_above (mem_of_entryAt directory) below whole] at solid
      cases solid

theorem removeUnder {place : Location} {file : File}
    (found : files.file? place = some file) :
    IsGround (files.removeUnder place) root where
  tree := ground.tree.removeUnder place
  located := by
    refine Files.locate_removeUnder found (fun same => ?_) ground.located
    exact ground.not_below_file found (same ▸ List.prefix_refl _)
  directory := by
    rw [Files.isDirectory, Files.get_removeUnder (ground.not_below_file found)]
    exact ground.directory
  canonical := ground.canonical

end IsGround

/-! ### Manifests that stay -/

/-- Whether the root of a scan and all files by the name of manifests stay as they
are. -/
structure Untouched (root : Path) (files later : Files) : Prop where
  ground : IsGround files root
  still : IsGround later root
  same : ∀ place, place.getLast? = some manifestName →
    later.file? place = files.file? place

namespace Untouched

theorem refl (ground : IsGround files root) : Untouched root files files where
  ground := ground
  still := ground
  same _ _ := rfl

theorem trans {middle : Files} (first : Untouched root files middle)
    (second : Untouched root middle later) : Untouched root files later where
  ground := first.ground
  still := second.still
  same place named := (second.same place named).trans (first.same place named)

/-- A file by another name may be stored. -/
theorem store (ground : IsGround files root) {path : Path} {content : Content}
    {modified : Nat} (other : path.place.getLast? ≠ some manifestName)
    (stored : files.store path content modified = .ok later) :
    Untouched root files later where
  ground := ground
  still := ground.store stored
  same place named := Files.file_store stored place fun same => other (same ▸ named)

/-- A file by another name may be removed. -/
theorem removeUnder (ground : IsGround files root) {place : Location} {file : File}
    (other : place.getLast? ≠ some manifestName)
    (found : files.file? place = some file) :
    Untouched root files (files.removeUnder place) where
  ground := ground
  still := ground.removeUnder found
  same _ named := ground.tree.file_of_removed found fun same => other (same ▸ named)

end Untouched

/-! ### The manifests that are listed -/

/-- A manifest that is listed is the canonical path of a file of that name, and leads
there before and after. -/
theorem place_of_listed (ground : IsGround files root) (still : IsGround later root)
    (same : ∀ place, place.getLast? = some manifestName →
      (later.file? place).isSome = (files.file? place).isSome)
    {manifest : Path} (listed : manifest ∈ manifestsOf files root cache) :
    ∃ place, place.IsPlain ∧ place.getLast? = some manifestName ∧
      manifest = place.path ∧ files.locate manifest = .ok place ∧
      later.locate manifest = .ok place := by
  obtain ⟨names, found, rfl⟩ :=
    (mem_manifestsBelow_iff ground.tree ground.located).mp listed
  obtain ⟨found, named, -⟩ :=
    (isFound_tree_iff ground.tree ground.located).mp found
  obtain ⟨file, here⟩ := Option.isSome_iff_exists.mp found
  have there := same _ named
  rw [here, Option.isSome_some, Option.isSome_iff_exists] at there
  obtain ⟨other, there⟩ := there
  have led := locate_descend ground.tree ground.located here
  have plain : (root.place ++ names).IsPlain :=
    Files.place_of_locate led ▸ Path.isPlain_place _
  refine ⟨root.place ++ names, plain, named, ?_, led,
    locate_descend still.tree still.located there⟩
  rw [← descend_path plain, ground.canonical]

theorem ofFile_of_locate {manifest : Path} {place : Location}
    (located : files.locate manifest = .ok place) :
    Discovery.ofFile? files manifest =
      ((files.file? place).bind fun file => file.content.text?).bind
        (Discovery.ofText? manifest) := by
  rw [Discovery.ofFile?, Files.textOf?, Files.fileOf_of_locate located]

theorem Discovery.manifest_of_ofText {manifest : Path} {text : String}
    {discovery : Discovery} (read : Discovery.ofText? manifest text = some discovery) :
    discovery.manifest = manifest := by
  simp only [Discovery.ofText?, bind, Option.bind_eq_some_iff] at read
  obtain ⟨directory, -, name, -, same⟩ := read
  cases same
  rfl

theorem Discovery.package_of_ofText {manifest : Path} {text : String}
    {discovery : Discovery} (read : Discovery.ofText? manifest text = some discovery) :
    discovery.package = (Outline.ofText text).package := by
  simp only [Discovery.ofText?, bind, Option.bind_eq_some_iff] at read
  obtain ⟨directory, -, name, -, same⟩ := read
  cases same
  rfl

/-- What a scan finds is what the manifest at its path contributes. -/
theorem ofFile_of_mem {discovery : Discovery}
    (member : discovery ∈ discoveriesOf files root cache) :
    Discovery.ofFile? files discovery.manifest = some discovery := by
  obtain ⟨manifest, -, read⟩ := List.mem_filterMap.mp member
  have held := read
  rw [Discovery.ofFile?, Option.bind_eq_some_iff] at held
  obtain ⟨text, -, contributed⟩ := held
  rw [Discovery.manifest_of_ofText contributed, read]

/-- Where the manifests stay as they are, the same is found. -/
theorem Untouched.discoveriesOf_eq (untouched : Untouched root files later)
    (cache : Path) : discoveriesOf later root cache = discoveriesOf files root cache := by
  obtain ⟨ground, still, same⟩ := untouched
  have present := fun place named => congrArg Option.isSome (same place named)
  rw [discoveriesOf, discoveriesOf, manifestsOf,
    manifestsBelow_congr ground.tree ground.located still.tree still.located present]
  refine List.filterMap_congr fun manifest listed => ?_
  obtain ⟨place, -, named, -, led, ledLater⟩ :=
    place_of_listed ground still present listed
  rw [ofFile_of_locate led, ofFile_of_locate ledLater, same place named]

/-- A text that gives the package the name that another one does contributes the same
but for the package. -/
theorem Discovery.ofText_renamed {text new : String}
    (name : (Outline.ofText new).package.name = (Outline.ofText text).package.name)
    (manifest : Path) :
    Discovery.ofText? manifest new = (Discovery.ofText? manifest text).map fun user =>
      { user with package := (Outline.ofText new).package } := by
  simp only [Discovery.ofText?, bind, name]
  generalize (Outline.ofText new).package = next
  generalize (Outline.ofText text).package = package
  cases manifest.parent? with
  | none => rfl
  | some directory =>
      rw [Option.bind_some, Option.bind_some]
      cases package.name.or directory.fileName? <;> rfl

/-! ### One text that is replaced -/

/-- Whether the text of one file is another later, of a package with the same name,
and no other manifest changes. -/
structure Replaced (files later : Files) (edited : Location) (text new : String) :
    Prop where
  plain : edited.IsPlain
  held : ∃ file, files.file? edited = some file ∧ file.content = .text text
  heldLater : ∃ file, later.file? edited = some file ∧ file.content = .text new
  others : ∀ place, place.getLast? = some manifestName → place ≠ edited →
    later.file? place = files.file? place
  name : (Outline.ofText new).package.name = (Outline.ofText text).package.name

/-- A text that is stored replaces what was there. -/
theorem Replaced.of_store {path : Path} {text new : String} {modified : Nat}
    (stored : files.store path (.text new) modified = .ok later)
    (held : ∃ file, files.file? path.place = some file ∧ file.content = .text text)
    (name : (Outline.ofText new).package.name = (Outline.ofText text).package.name) :
    Replaced files later path.place text new where
  plain := path.isPlain_place
  held := held
  heldLater := by
    obtain ⟨executable, there⟩ := Files.file_store_place stored
    exact ⟨_, there, rfl⟩
  others place _ other := Files.file_store stored place other
  name := name

/-- After a text was replaced the same is found, but that the package of that file is
read anew. -/
theorem discoveriesOf_edited {text new : String}
    (ground : IsGround files root) (still : IsGround later root)
    (replaced : Replaced files later edited text new) :
    discoveriesOf later root cache = discoveriesOf files root cache ∨
      ∃ user, Discovery.ofText? edited.path text = some user ∧
        discoveriesOf later root cache = (discoveriesOf files root cache).map
          (revised user { user with package := (Outline.ofText new).package }) := by
  obtain ⟨plain, ⟨old, held, content⟩, ⟨file, heldLater, contentLater⟩, others, name⟩ :=
    replaced
  have present (place : Location) (named : place.getLast? = some manifestName) :
      (later.file? place).isSome = (files.file? place).isSome := by
    by_cases here : place = edited
    · rw [here, held, heldLater]
      rfl
    · rw [others place named here]
  have manifests : manifestsOf later root cache = manifestsOf files root cache :=
    manifestsBelow_congr ground.tree ground.located still.tree still.located present
  -- what each of the manifests contributes
  have read {manifest : Path} (listed : manifest ∈ manifestsOf files root cache) :
      manifest = edited.path ∧
          Discovery.ofFile? files manifest = Discovery.ofText? edited.path text ∧
          Discovery.ofFile? later manifest = Discovery.ofText? edited.path new ∨
        manifest ≠ edited.path ∧
          Discovery.ofFile? later manifest = Discovery.ofFile? files manifest := by
    obtain ⟨place, plainPlace, named, rfl, led, ledLater⟩ :=
      place_of_listed ground still present listed
    rw [ofFile_of_locate led, ofFile_of_locate ledLater]
    by_cases here : place = edited
    · subst here
      simp only [held, heldLater, Option.bind_some, content, contentLater,
        Content.text?, true_and, true_or]
    · refine Or.inr ⟨fun same => here ?_, by rw [others place named here]⟩
      rw [← Location.place_path plainPlace, same, Location.place_path plain]
  rw [Discovery.ofText_renamed name] at read
  cases contributed : Discovery.ofText? edited.path text with
  | some user =>
      refine Or.inr ⟨user, rfl, ?_⟩
      rw [discoveriesOf, discoveriesOf, manifests, List.map_filterMap]
      refine List.filterMap_congr fun manifest listed => ?_
      rcases read listed with ⟨-, before, after⟩ | ⟨other, same⟩
      · rw [before, after, contributed, Option.map_some, Option.map_some, revised_self]
      · rw [same]
        cases found : Discovery.ofFile? files manifest with
        | none => rfl
        | some discovery =>
            have different : discovery ≠ user := by
              rintro rfl
              rw [Discovery.ofFile?, Option.bind_eq_some_iff] at found
              obtain ⟨written, -, found⟩ := found
              exact other ((Discovery.manifest_of_ofText found).symm.trans
                (Discovery.manifest_of_ofText contributed))
            rw [Option.map_some, revised_other different]
  | none =>
      refine Or.inl ?_
      rw [discoveriesOf, discoveriesOf, manifests]
      refine List.filterMap_congr fun manifest listed => ?_
      rcases read listed with ⟨-, before, after⟩ | ⟨-, same⟩
      · rw [before, after, contributed, Option.map_none]
      · exact same

end PackageLayers.Project

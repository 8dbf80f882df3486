/-
Purpose: What is still there after a file is stored or removed.
Main exports: Files.Widens, Files.store_eq, Files.file_store,
  Files.file_removeUnder, Files.locate_store, Files.locate_removeUnder,
  World.files_of_store
-/
import PackageLayers.Proofs.Files.Places

namespace PackageLayers.Files

/-!
To store a file at a path makes the directories that lead to its place and puts
the file there; every other file stays as it was.  To remove a file removes what
is below its place as well, which is nothing that a path leads to.  Either way, a
path that led to another place leads there still.
-/

variable {files later made : Files}

/-! ### Directories that are made -/

/-- Files with further directories where nothing was. -/
structure Widens (files later : Files) : Prop where
  kept : ∀ location entry, files.get? location = some entry →
    later.get? location = some entry
  file : ∀ location, later.file? location = files.file? location

namespace Widens

theorem refl : Widens files files where
  kept := fun _ _ found => found
  file := fun _ => rfl

theorem trans (first : Widens files made) (second : Widens made later) :
    Widens files later where
  kept location entry found :=
    second.kept location entry (first.kept location entry found)
  file location := (second.file location).trans (first.file location)

theorem isDirectory (widens : Widens files later) {location : Location}
    (directory : files.isDirectory location) : later.isDirectory location := by
  rw [Files.isDirectory, beq_iff_eq] at directory ⊢
  exact widens.kept location .directory directory

theorem put_directory {location : Location} (notRoot : location ≠ [])
    (free : files.get? location = none) :
    Widens files (files.put location .directory) where
  kept other entry found := by
    rw [get?_put files notRoot, if_neg]
    · exact found
    · rintro rfl
      rw [free] at found
      cases found
  file other := by
    rw [file?, file?, get?_put files notRoot]
    by_cases same : other = location
    · rw [if_pos same, same, free]
    · rw [if_neg same]

end Widens

/-- Directories on the way to a place are made, and nothing else. -/
theorem widens_makeAlong {here there : Location} {steps : List String}
    (along : files.makeAlong here steps = some (made, there)) :
    Widens files made ∧ there = steps.foldl Location.step here ∧
      made.isDirectory there := by
  induction steps generalizing files here with
  | nil =>
      rw [makeAlong] at along
      split at along
      · cases along
        exact ⟨.refl, rfl, ‹_›⟩
      · cases along
  | cons step steps inductionHypothesis =>
      rw [makeAlong] at along
      rw [List.foldl_cons, Location.step]
      split at along
      · cases along
      · split at along
        · rw [if_pos ‹_›]
          exact inductionHypothesis along
        · rw [if_neg ‹_›]
          split at along
          · rw [if_pos ‹_›]
            exact inductionHypothesis along
          · rw [if_neg ‹_›]
            split at along
            · exact inductionHypothesis along
            · rename_i free
              have first : Widens files (files.put (here ++ [step]) .directory) :=
                .put_directory (by simp) (by simpa using free)
              obtain ⟨widens, there, directory⟩ := inductionHypothesis along
              exact ⟨first.trans widens, there, directory⟩

/-! ### Paths that lead where they led -/

theorem follow_mono {here there : Location} {steps : List String}
    (directories : ∀ location, files.isDirectory location →
      later.isDirectory location)
    (entries : ∀ location, (files.get? location).isSome →
      (later.get? location).isSome)
    (found : files.follow here steps = .ok there) :
    later.follow here steps = .ok there := by
  induction steps generalizing here with
  | nil => exact found
  | cons step steps inductionHypothesis =>
      rw [follow] at found ⊢
      split at found
      · cases found
      · rename_i directory
        have still := directories here (by simpa using directory)
        rw [still]
        simp only [Bool.not_true, Bool.false_eq_true, if_false]
        split at found
        · rw [if_pos ‹_›]
          exact inductionHypothesis found
        · rw [if_neg ‹_›]
          split at found
          · rw [if_pos ‹_›]
            exact inductionHypothesis found
          · rw [if_neg ‹_›]
            split at found
            · rw [if_pos (entries _ ‹_›)]
              exact inductionHypothesis found
            · cases found

/-- A file that is put where no directory is, is in no path's way. -/
theorem locate_put_file {place location : Location} {path : Path} {file : File}
    (notRoot : place ≠ []) (free : files.isDirectory place = false)
    (located : files.locate path = .ok location) :
    (files.put place (.file file)).locate path = .ok location := by
  rw [locate] at located ⊢
  split at located
  · rw [if_pos ‹_›]
    refine follow_mono (fun here directory => ?_) (fun here there => ?_) located
    · rw [isDirectory, get?_put files notRoot, if_neg]
      · exact directory
      · rintro rfl
        rw [free] at directory
        cases directory
    · rw [get?_put files notRoot]
      split
      · rfl
      · exact there
  · cases located

theorem Widens.locate (widens : Widens files later) {path : Path}
    {location : Location} (located : files.locate path = .ok location) :
    later.locate path = .ok location := by
  rw [Files.locate] at located ⊢
  split at located
  · rw [if_pos ‹_›]
    refine follow_mono (fun _ => widens.isDirectory) (fun here there => ?_) located
    obtain ⟨entry, found⟩ := Option.isSome_iff_exists.mp there
    rw [widens.kept here entry found]
    rfl
  · cases located

/-- Directories that are made on a way are there to be followed. -/
theorem follow_of_makeAlong {here there : Location} {steps : List String}
    (along : files.makeAlong here steps = some (made, there)) :
    made.follow here steps = .ok there := by
  induction steps generalizing files here with
  | nil =>
      rw [makeAlong] at along
      split at along
      · cases along
        rfl
      · cases along
  | cons step steps inductionHypothesis =>
      have widens := (widens_makeAlong along).1
      rw [makeAlong] at along
      rw [follow]
      split at along
      · cases along
      · rename_i inside
        have directory : made.isDirectory here :=
          widens.isDirectory (by simpa using inside)
        rw [directory]
        simp only [Bool.not_true, Bool.false_eq_true, if_false]
        split at along
        · rw [if_pos ‹_›]
          exact inductionHypothesis along
        · rw [if_neg ‹_›]
          split at along
          · rw [if_pos ‹_›]
            exact inductionHypothesis along
          · rw [if_neg ‹_›]
            have there : (made.get? (here ++ [step])).isSome := by
              split at along
              · obtain ⟨entry, found⟩ := Option.isSome_iff_exists.mp ‹_›
                rw [widens.kept _ entry found]
                rfl
              · have found : (files.put (here ++ [step]) .directory).get?
                    (here ++ [step]) = some .directory := by
                  rw [get?_put files (by simp), if_pos rfl]
                rw [(widens_makeAlong along).1.kept _ _ found]
                rfl
            rw [if_pos there]
            split at along <;> exact inductionHypothesis along

/-! ### Storing -/

section

variable {path : Path} {content : Content} {modified : Nat}

/-- The place of a path is in the directory that is made for it. -/
theorem place_of_directories {parent : Location} {name : String}
    (directories : files.withDirectories? (directoryOf path) = some (made, parent))
    (named : path.fileName? = some name) :
    path.isAbsolute ∧ path.place = parent ++ [name] ∧ Widens files made ∧
      made.locate (directoryOf path) = .ok parent ∧ made.isDirectory parent := by
  rw [withDirectories?] at directories
  split at directories
  · rename_i rooted
    obtain ⟨widens, there, inside⟩ := widens_makeAlong directories
    have walked : made.locate (directoryOf path) = .ok parent := by
      rw [locate, if_pos rooted, follow_of_makeAlong directories]
    obtain ⟨above, up, same⟩ : ∃ above, path.parent? = some above ∧
        above = directoryOf path := by
      rw [directoryOf] at rooted ⊢
      cases up : path.parent? with
      | none =>
          rw [up] at rooted
          cases rooted
      | some above =>
          rw [up] at rooted
          simp only at rooted ⊢
          split at rooted
          · cases rooted
          · rename_i filled
            exact ⟨above, rfl, by rw [if_neg filled]⟩
    rw [← same] at rooted there
    have absolute := Path.absolute_of_parent up rooted
    obtain ⟨chars, text⟩ := Path.rooted_of_absolute rooted
    refine ⟨absolute, ?_, widens, walked, inside⟩
    rw [Path.place_of_parent absolute up named, there, Path.place_rooted text]
  · cases directories

/-- To store is to make the directories that lead to a place and to put the file
there. -/
theorem directories_of_store
    (stored : files.store path content modified = .ok later) :
    ∃ made executable,
      files.withDirectories? (directoryOf path) = some (made, path.place.dropLast) ∧
        path.isAbsolute ∧ path.place ≠ [] ∧ made.isDirectory path.place = false ∧
        Widens files made ∧
        made.locate (directoryOf path) = .ok path.place.dropLast ∧
        made.isDirectory path.place.dropLast ∧
        later = made.put path.place
          (.file
            { content := content
              modified := .ofMilliseconds modified
              executable := executable }) := by
  delta store at stored
  simp only at stored
  split at stored
  · cases stored
  · cases stored
  · rename_i made parent name directories named
    obtain ⟨absolute, place, widens, walked, inside⟩ :=
      place_of_directories directories named
    have above : path.place.dropLast = parent := by
      rw [place, List.dropLast_concat]
    rw [← place] at stored
    split at stored
    · cases stored
    · rename_i free
      cases stored
      exact ⟨made, _, by rw [above, directories], absolute, by rw [place]; simp,
        by simpa using free, widens, by rw [above, walked], by rw [above, inside],
        rfl⟩

/-- What is stored is put at the place of its path. -/
theorem store_eq (stored : files.store path content modified = .ok later) :
    ∃ made executable, Widens files made ∧ path.isAbsolute ∧ path.place ≠ [] ∧
      made.isDirectory path.place = false ∧
      made.locate (directoryOf path) = .ok path.place.dropLast ∧
      made.isDirectory path.place.dropLast ∧
      later = made.put path.place
        (.file
          { content := content
            modified := .ofMilliseconds modified
            executable := executable }) := by
  obtain ⟨made, executable, -, absolute, filled, free, widens, walked, inside, same⟩ :=
    directories_of_store stored
  exact ⟨made, executable, widens, absolute, filled, free, walked, inside, same⟩

/-- A file that is stored changes no other file. -/
theorem file_store (stored : files.store path content modified = .ok later)
    (location : Location) (other : location ≠ path.place) :
    later.file? location = files.file? location := by
  obtain ⟨made, executable, widens, -, notRoot, -, -, -, rfl⟩ := store_eq stored
  rw [file_put notRoot, if_neg other, widens.file]

/-- A file that is stored holds what was stored. -/
theorem file_store_place (stored : files.store path content modified = .ok later) :
    ∃ executable, later.file? path.place = some
      { content := content
        modified := .ofMilliseconds modified
        executable := executable } := by
  obtain ⟨made, executable, -, -, notRoot, -, -, -, rfl⟩ := store_eq stored
  exact ⟨executable, by rw [file_put notRoot, if_pos rfl]⟩

end

/-! ### Reading what was stored -/

/-- A name that is in the directory of a path is what the path leads to. -/
theorem locate_of_directory {path : Path} {chars : List Char} {name : String}
    {front : List (List Char)} {here : Location}
    (rooted : path.text.toList = '/' :: chars) (named : IsName name)
    (split : Path.rootedSegments chars = front ++ [name.toList])
    (there : files.locate (directoryOf path) = .ok here)
    (inside : files.isDirectory here) (found : (files.get? (here ++ [name])).isSome) :
    files.locate path = .ok (here ++ [name]) := by
  have loud := isIdle_of_name named
  have spoken : Path.dropLastWhile Path.isIdle (Path.rootedSegments chars) =
      front ++ [name.toList] := by
    rw [split, Path.dropLastWhile, List.reverse_append]
    simp [loud]
  obtain ⟨dropped, whole, idle⟩ := Path.dropLastWhile_append Path.isIdle front
  obtain ⟨count, still⟩ := Path.followed_idle idle
  obtain ⟨more, steps⟩ := @Path.steps_ofParts
    (Path.dropLastWhile Path.isIdle front)
    (fun other member => @Path.plain_of_rootedSegments chars other (by
      rw [split, whole]
      simp [member]))
    (Path.getLast_dropLastWhile Path.isIdle front)
  rw [directoryOf_segments rooted spoken, locate,
    if_pos (Path.isAbsolute_ofParts _), steps, follow_append] at there
  have walked : files.follow [] (Path.followed front) = .ok here := by
    rw [whole, Path.followed_append, still, follow_append]
    cases before : files.follow []
        (Path.followed (Path.dropLastWhile Path.isIdle front)) with
    | error obstacle =>
        rw [before] at there
        cases there
    | ok place =>
        rw [before] at there
        obtain ⟨rfl, -⟩ := follow_here there
        exact follow_stay inside count
  have absolute : path.isAbsolute := by
    rw [Path.isAbsolute, rooted]
    rfl
  have final : (Path.rootedSegments chars).getLast? ≠ some [] := by
    rw [split, List.getLast?_concat, ne_eq, Option.some.injEq]
    intro empty
    rw [empty] at loud
    cases loud
  have last : Path.followed [name.toList] = [name] := by
    have filled : name.toList ≠ [] := fun empty => by
      rw [empty] at loud
      cases loud
    simp [Path.followed, filled]
  rw [locate, if_pos absolute, Path.steps_rooted rooted, if_neg final,
    List.append_nil, split, Path.followed_append, last, follow_append, walked]
  change files.follow here [name] = _
  rw [follow, inside, if_neg named.notHere, if_neg named.notUp, if_pos found]
  rfl

/-- A text that is stored under a name in a directory is read there. -/
theorem textOf_store_child {directory : Path} {name text : String} {modified : Nat}
    (absolute : directory.isAbsolute) (named : IsName name)
    (stored : files.store (directory.child name) (.text text) modified = .ok later) :
    later.textOf? (directory.child name) = some text := by
  obtain ⟨chars, front, rooted, split⟩ := Path.rootedSegments_child absolute named
  have place := Path.place_child directory named
  obtain ⟨made, executable, -, -, notRoot, free, walked, inside, rfl⟩ :=
    store_eq stored
  have above : (directory.child name).place.dropLast = directory.place := by
    rw [place, List.dropLast_concat]
  rw [above] at walked inside
  generalize entry : Entry.file ⟨.text text, .ofMilliseconds modified, executable⟩ = stays
  have put : (made.put (directory.child name).place stays).get?
      (directory.place ++ [name]) = some stays := by
    rw [get?_put made notRoot, if_pos place.symm]
  have kept : (made.put (directory.child name).place stays).isDirectory
      directory.place := by
    rw [isDirectory, get?_put made notRoot, if_neg]
    · exact inside
    · rw [place]
      exact fun same => by simpa using congrArg List.length same
  have located := locate_of_directory rooted named split
    (entry ▸ locate_put_file notRoot free walked) kept (by rw [put]; rfl)
  rw [textOf?, fileOf?, entryOf?, located]
  dsimp only
  rw [put, ← entry]
  rfl

/-! ### Removing -/

theorem entryAt_without (location other : Location)
    (entries : List (Location × Entry)) :
    entryAt other (entries.filter fun entry => !location.isPrefixOf entry.1) =
      if location <+: other then none else entryAt other entries := by
  induction entries with
  | nil => simp [entryAt]
  | cons head rest inductionHypothesis =>
      obtain ⟨place, entry⟩ := head
      rw [List.filter_cons]
      by_cases same : place = other
      · subst same
        by_cases below : location <+: place
        · have dropped : location.isPrefixOf place = true := by simpa using below
          simp only [dropped, Bool.not_true, Bool.false_eq_true, if_false]
          rw [inductionHypothesis, if_pos below, if_pos below]
        · have kept : location.isPrefixOf place = false := by
            rw [Bool.eq_false_iff]
            simpa using below
          simp only [kept, Bool.not_false, if_true, if_neg below, entryAt]
      · split
        · rw [entryAt, if_neg same, inductionHypothesis, entryAt, if_neg same]
        · rw [inductionHypothesis, entryAt, if_neg same]

theorem get_removeUnder {location other : Location} (apart : ¬location <+: other) :
    (files.removeUnder location).get? other = files.get? other := by
  rw [get?, get?]
  split
  · rfl
  · exact (entryAt_without location other files.entries).trans (if_neg apart)

/-- What is removed takes with it what is below its location, and no other
file. -/
theorem file_removeUnder (location other : Location) :
    (files.removeUnder location).file? other =
      if location <+: other then none else files.file? other := by
  by_cases below : location <+: other
  · rw [if_pos below, file?, get?]
    by_cases root : other = []
    · rw [if_pos root]
    · rw [if_neg root, removeUnder, entryAt_without, if_pos below]
  · rw [if_neg below, file?, get_removeUnder below]
    rfl

/-! ### Paths that a removal leaves -/

/-- What is stored is in no path's way. -/
theorem locate_store {path other : Path} {content : Content} {modified : Nat}
    {location : Location}
    (stored : files.store path content modified = .ok later)
    (located : files.locate other = .ok location) :
    later.locate other = .ok location := by
  obtain ⟨made, executable, widens, -, notRoot, free, -, -, rfl⟩ := store_eq stored
  exact locate_put_file notRoot free (widens.locate located)

theorem follow_removeUnder {place here there : Location} {file : File}
    {steps : List String} (found : files.file? place = some file)
    (above : ∀ part, part <+: here → part ≠ here → files.isDirectory part)
    (other : there ≠ place) (followed : files.follow here steps = .ok there) :
    (files.removeUnder place).follow here steps = .ok there := by
  have solid := not_directory_of_file found
  induction steps generalizing here with
  | nil => exact followed
  | cons step steps inductionHypothesis =>
      rw [follow] at followed ⊢
      split at followed
      · cases followed
      · rename_i inside
        have directory : files.isDirectory here := by simpa using inside
        have parts (part : Location) (inner : part <+: here) :
            files.isDirectory part := by
          by_cases whole : part = here
          · exact whole ▸ directory
          · exact above part inner whole
        have apart : ¬place <+: here := fun below => by
          rw [parts place below] at solid
          cases solid
        have still : (files.removeUnder place).isDirectory here := by
          rw [isDirectory, get_removeUnder apart]
          exact directory
        rw [still]
        simp only [Bool.not_true, Bool.false_eq_true, if_false]
        split at followed
        · rw [if_pos ‹_›]
          exact inductionHypothesis above followed
        · rw [if_neg ‹_›]
          split at followed
          · rw [if_pos ‹_›]
            exact inductionHypothesis (fun part inner _ =>
              parts part (inner.trans (List.dropLast_prefix here))) followed
          · rw [if_neg ‹_›]
            split at followed
            · rename_i there
              have beside : ¬place <+: here ++ [step] := by
                rw [List.prefix_concat_iff, not_or]
                refine ⟨fun same => ?_, apart⟩
                -- to go on from the file that is removed is not possible
                cases steps with
                | nil =>
                    cases followed
                    exact other same.symm
                | cons next steps =>
                    rw [follow, ← same, solid] at followed
                    cases followed
              rw [get_removeUnder beside, if_pos there]
              refine inductionHypothesis (fun part inner other => ?_) followed
              rcases List.prefix_concat_iff.mp inner with same | inner
              · exact absurd same other
              · exact parts part inner
            · cases followed

/-- A file that is removed is in no path's way. -/
theorem locate_removeUnder {place location : Location} {file : File} {path : Path}
    (found : files.file? place = some file) (other : location ≠ place)
    (located : files.locate path = .ok location) :
    (files.removeUnder place).locate path = .ok location := by
  rw [locate] at located ⊢
  split at located
  · rw [if_pos ‹_›]
    refine follow_removeUnder found (fun part inner filled => ?_) other located
    exact absurd (List.prefix_nil.mp inner) filled
  · cases located

/-! ### Documents -/

section

variable {path : Path} {α : Type} {decode : Json → Option α} {value : α}

/-- A document is what the text at its path writes. -/
theorem document_eq_some_iff :
    files.document? path decode = .ok (some value) ↔
      ∃ text, files.textOf? path = some text ∧
        (Json.read? text).bind decode = some value := by
  rw [document?]
  constructor
  · intro read
    split at read
    · cases read
    · split at read
      · cases read
      · rename_i text readable
        split at read
        · rename_i other decoded
          cases read
          exact ⟨text, readable, decoded⟩
        · cases read
  · rintro ⟨text, readable, decoded⟩
    have there : files.hasEntry path := by
      rw [textOf?, fileOf?, Option.bind_eq_some_iff] at readable
      obtain ⟨file, found, -⟩ := readable
      rw [hasEntry]
      cases entry : files.entryOf? path with
      | some => rfl
      | none =>
          rw [entry] at found
          cases found
    rw [there, readable]
    simp only [Bool.not_true, Bool.false_eq_true, if_false, decoded]

/-- A document is read as before where its path leads to the same file. -/
theorem document_of_kept
    (led : ∀ location, files.locate path = .ok location →
      later.locate path = .ok location)
    (same : later.file? path.place = files.file? path.place)
    (read : files.document? path decode = .ok (some value)) :
    later.document? path decode = .ok (some value) := by
  rw [document_eq_some_iff] at read ⊢
  obtain ⟨text, readable, decoded⟩ := read
  refine ⟨text, ?_, decoded⟩
  rw [textOf?, Option.bind_eq_some_iff] at readable ⊢
  obtain ⟨file, found, content⟩ := readable
  obtain ⟨location, located, here⟩ := fileOf_eq.mp found
  refine ⟨file, fileOf_eq.mpr ⟨location, led location located, ?_⟩, content⟩
  rw [place_of_locate located] at here ⊢
  rw [same, here]

end

end PackageLayers.Files

namespace PackageLayers.World

/-- What is written is what was to be written, and no step of that was refused. -/
theorem unlessRefused_eq_ok_iff {refusal : Option FileFault}
    {written : Except FileFault Files} {files : Files} :
    unlessRefused refusal written = .ok files ↔
      refusal = none ∧ written = .ok files := by
  rcases written with fault | kept
  · cases fault <;> cases refusal <;> simp [unlessRefused]
  · cases refusal <;> simp [unlessRefused]

/-- To store a file changes the files of a world and nothing else of it. -/
theorem files_of_store {world later : World} {path : Path} {content : Content}
    (stored : world.store path content = .ok later) :
    world.files.store path content world.stamp = .ok later.files ∧
      later = { world with files := later.files } := by
  rw [store] at stored
  cases written : unlessRefused (world.refusal? path content)
      (world.files.store path content world.stamp) with
  | error fault =>
      rw [written] at stored
      cases stored
  | ok files =>
      rw [written] at stored
      cases stored
      exact ⟨(unlessRefused_eq_ok_iff.mp written).2, rfl⟩

end PackageLayers.World

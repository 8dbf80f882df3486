/-
Purpose: Files in which every entry is in a directory.
Main exports: Files.IsTree, Files.IsTree.locate_below, Files.IsTree.store,
  Files.IsTree.removeUnder
-/
import PackageLayers.Proofs.Files.Storing

namespace PackageLayers

/-!
The files of a machine are a tree: an entry has a name, and what it is in is a
directory.  So the names on the way to an entry lead through directories, and a
path to one of these is continued by the names that are left.
-/

namespace Path

/-- A name after a path is followed last; a slash or a dot at the end of the path
says no more than before. -/
theorem steps_child {path : Path} {name : String} (absolute : path.isAbsolute)
    (named : IsName name) :
    ∃ steps, (path.child name).steps = steps ++ [name] ∧
      (path.steps = steps ∨ path.steps = steps ++ ["."]) := by
  have single : Text.splitAt (· == '/') name.toList = [name.toList] :=
    Text.splitAt_of_plain named.whole
  have filled : name.toList ≠ [] := by simpa using named.filled
  have last : followed [name.toList] = [name] := by simp [followed, filled]
  have child (chars : List Char) (front : List (List Char))
      (rooted : (path.child name).text.toList = '/' :: chars)
      (split : rootedSegments chars = front ++ [name.toList]) :
      (path.child name).steps = followed front ++ [name] := by
    have final : (rootedSegments chars).getLast? ≠ some [] := by
      rw [split, List.getLast?_concat, ne_eq, Option.some.injEq]
      exact filled
    rw [steps_rooted rooted, if_neg final, List.append_nil, split, followed_append,
      last]
  have text := child_chars absolute named
  obtain ⟨chars, rooted⟩ := rooted_of_absolute absolute
  rw [rooted] at text
  rw [steps_rooted rooted]
  split at text
  · rename_i slash
    cases chars using List.reverseRecOn with
    | nil => exact ⟨[], child name.toList [] text single, Or.inr rfl⟩
    | append_singleton front last =>
        rw [← List.cons_append, List.getLast?_concat] at slash
        cases slash
        have ended : rootedSegments (front ++ ['/']) = rootedSegments front ++ [[]] :=
          Text.splitAt_marked (by rfl) front []
        refine ⟨followed (rootedSegments front), child _ _ text ?_, Or.inr ?_⟩
        · change Text.splitAt _ (front ++ ['/'] ++ name.toList) = _
          rw [List.append_assoc, List.singleton_append,
            Text.splitAt_marked (by rfl), single]
          rfl
        · rw [ended, List.getLast?_concat, if_pos rfl, followed_append]
          exact congrArg (· ++ ["."]) (List.append_nil _)
  · rename_i unmarked
    have unended : (rootedSegments chars).getLast? ≠ some [] := by
      rw [rootedSegments, ne_eq, Text.getLast_splitAt]
      intro marked
      cases chars using List.reverseRecOn with
      | nil => exact unmarked rfl
      | append_singleton front last =>
          rw [← List.cons_append, List.getLast?_concat, Option.some.injEq] at unmarked
          have slash := marked last (by simp)
          exact unmarked (by simpa using slash)
    refine ⟨followed (rootedSegments chars), child _ _ text ?_, Or.inl ?_⟩
    · exact (Text.splitAt_marked (by rfl) chars _).trans (congrArg _ single)
    · rw [if_neg unended, List.append_nil]

/-- What is followed is a name, unless it stays or goes up. -/
theorem isName_step (path : Path) :
    ∀ step ∈ path.steps, step ≠ "." → step ≠ ".." → IsName step := by
  intro step member notHere notUp
  rw [steps, List.mem_map] at member
  obtain ⟨segment, listed, rfl⟩ := member
  rcases List.mem_append.mp listed with inside | last
  · obtain ⟨piece, filled⟩ := List.mem_filter.mp inside
    exact
      { filled := fun empty => by simp_all
        notHere := notHere
        notUp := notUp
        whole := by simpa using Text.plain_of_splitAt piece }
  · split at last
    · rw [List.mem_singleton] at last
      subst last
      exact absurd rfl notHere
    · cases last

theorem absolute_child {path : Path} {name : String} (absolute : path.isAbsolute)
    (named : IsName name) : (path.child name).isAbsolute := by
  obtain ⟨chars, front, rooted, -⟩ := rootedSegments_child absolute named
  rw [isAbsolute, rooted]
  rfl

end Path

/-! ### Listed entries -/

theorem mem_of_entryAt {location : Location} {entry : Entry}
    {entries : List (Location × Entry)}
    (found : entryAt location entries = some entry) : (location, entry) ∈ entries := by
  induction entries with
  | nil => cases found
  | cons head rest inductionHypothesis =>
      obtain ⟨other, first⟩ := head
      rw [entryAt] at found
      split at found
      · rename_i same
        cases found
        rw [same]
        exact List.mem_cons_self
      · exact List.mem_cons_of_mem _ (inductionHypothesis found)

theorem entryAt_of_mem {location : Location} {entry : Entry}
    {entries : List (Location × Entry)}
    (distinct : (entries.map Prod.fst).Nodup) (member : (location, entry) ∈ entries) :
    entryAt location entries = some entry := by
  induction entries with
  | nil => cases member
  | cons head rest inductionHypothesis =>
      obtain ⟨other, first⟩ := head
      rw [List.map_cons, List.nodup_cons] at distinct
      rcases List.mem_cons.mp member with same | later
      · cases same
        rw [entryAt, if_pos rfl]
      · have different : other ≠ location := by
          rintro rfl
          exact distinct.1 (List.mem_map.mpr ⟨_, later, rfl⟩)
        rw [entryAt, if_neg different, inductionHypothesis distinct.2 later]

namespace Files

variable {files : Files}

/-- Whether the entries are those of a tree: each has a name, and is in a
directory. -/
structure IsTree (files : Files) : Prop where
  named : ∀ entry ∈ files.entries, entry.1 ≠ [] ∧ ∀ name ∈ entry.1, IsName name
  nested : ∀ entry ∈ files.entries, files.isDirectory entry.1.dropLast

instance : DecidablePred IsTree := fun files =>
  decidable_of_iff
    ((∀ entry ∈ files.entries, entry.1 ≠ [] ∧ ∀ name ∈ entry.1, IsName name) ∧
      ∀ entry ∈ files.entries, files.isDirectory entry.1.dropLast)
    ⟨fun ⟨named, nested⟩ => ⟨named, nested⟩,
     fun tree => ⟨tree.named, tree.nested⟩⟩

theorem IsTree.get_of_mem (tree : files.IsTree) {location : Location} {entry : Entry}
    (member : (location, entry) ∈ files.entries) : files.get? location = some entry := by
  rw [get?, if_neg (tree.named _ member).1]
  exact entryAt_of_mem files.distinct member

/-- What is above an entry is a directory. -/
theorem IsTree.directory_above (tree : files.IsTree) {location : Location}
    {entry : Entry} (member : (location, entry) ∈ files.entries) {part : Location}
    (inside : part <+: location) (other : part ≠ location) :
    files.isDirectory part := by
  induction location using List.reverseRecOn generalizing entry with
  | nil => exact absurd (List.prefix_nil.mp inside) other
  | append_singleton front name inductionHypothesis =>
      have above := tree.nested _ member
      rw [List.dropLast_concat] at above
      rcases List.prefix_concat_iff.mp inside with same | inner
      · exact absurd same other
      · by_cases whole : part = front
        · rw [whole]
          exact above
        · by_cases root : front = []
          · subst root
            exact absurd (List.prefix_nil.mp inner) whole
          · rw [isDirectory, beq_iff_eq, get?, if_neg root] at above
            exact inductionHypothesis (mem_of_entryAt above) inner whole

/-! ### Paths that are continued -/

/-- A path to a directory is continued by the name of an entry. -/
theorem locate_child {path : Path} {here : Location} {name : String}
    (located : files.locate path = .ok here) (inside : files.isDirectory here)
    (named : IsName name) (found : (files.get? (here ++ [name])).isSome) :
    files.locate (path.child name) = .ok (here ++ [name]) := by
  have absolute := absolute_of_locate located
  obtain ⟨steps, continued, same⟩ := Path.steps_child absolute named
  rw [locate, if_pos absolute] at located
  have walked : files.follow [] steps = .ok here := by
    rcases same with same | same
    · rw [same] at located
      exact located
    · rw [same, follow_append] at located
      cases there : files.follow [] steps with
      | error obstacle =>
          rw [there] at located
          cases located
      | ok place =>
          rw [there] at located
          rw [(@follow_here files place here 1 located).1]
  rw [locate, if_pos (Path.absolute_child absolute named), continued, follow_append,
    walked]
  change files.follow here [name] = _
  rw [follow, inside, if_neg named.notHere, if_neg named.notUp, if_pos found]
  rfl

/-- In a tree, names that lead from a path's place to an entry continue the path
to it. -/
theorem IsTree.locate_below (tree : files.IsTree) {path : Path} {here : Location}
    {names : List String} {entry : Entry}
    (located : files.locate path = .ok here)
    (member : (here ++ names, entry) ∈ files.entries) :
    files.locate (names.foldl Path.child path) = .ok (here ++ names) := by
  induction names generalizing path here with
  | nil =>
      rw [List.append_nil]
      exact located
  | cons name names inductionHypothesis =>
      have whole : here ++ name :: names = here ++ [name] ++ names := by simp
      have first : here ++ [name] <+: here ++ name :: names := ⟨names, whole.symm⟩
      have inside : files.isDirectory here :=
        tree.directory_above member (List.prefix_append _ _) (by simp)
      have found : (files.get? (here ++ [name])).isSome := by
        by_cases last : names = []
        · subst last
          rw [tree.get_of_mem member]
          rfl
        · have directory := tree.directory_above member first (by simpa using last)
          rw [isDirectory, beq_iff_eq] at directory
          rw [directory]
          rfl
      have named : IsName name := (tree.named _ member).2 name (by simp)
      rw [List.foldl_cons, whole]
      rw [whole] at member
      exact inductionHypothesis (locate_child located inside named found) member

/-! ### Trees that are changed -/

/-- A directory of a tree has a plain location. -/
theorem IsTree.plain_directory (tree : files.IsTree) {here : Location}
    (inside : files.isDirectory here) : here.IsPlain := by
  rw [isDirectory, beq_iff_eq, get?] at inside
  split at inside
  · rename_i root
    rw [root]
    exact fun _ member => absurd member List.not_mem_nil
  · exact (tree.named _ (mem_of_entryAt inside)).2

/-- A tree stays one if a name in a directory gets an entry, as long as no directory
is replaced by a file. -/
theorem IsTree.put (tree : files.IsTree) {here : Location} {name : String}
    {entry : Entry} (inside : files.isDirectory here) (named : IsName name)
    (solid : files.isDirectory (here ++ [name]) → entry = .directory) :
    (files.put (here ++ [name]) entry).IsTree := by
  have filled : here ++ [name] ≠ [] := by simp
  have still {other : Location} (directory : files.isDirectory other) :
      (files.put (here ++ [name]) entry).isDirectory other := by
    rw [isDirectory, get?_put files filled]
    split
    · rename_i same
      rw [solid (same ▸ directory)]
      rfl
    · exact directory
  have known {other : Location × Entry}
      (member : other ∈ (files.put (here ++ [name]) entry).entries) :
      other.1 = here ++ [name] ∨ ∃ old, (other.1, old) ∈ files.entries := by
    refine (mem_putEntry (List.mem_map_of_mem member)).imp_right fun listed => ?_
    obtain ⟨⟨_, old⟩, there, same⟩ := List.mem_map.mp listed
    exact ⟨old, same ▸ there⟩
  constructor
  · intro other member
    rcases known member with same | ⟨old, there⟩
    · rw [same]
      refine ⟨filled, fun part among => ?_⟩
      rcases List.mem_append.mp among with above | last
      · exact tree.plain_directory inside part above
      · exact List.mem_singleton.mp last ▸ named
    · exact tree.named (other.1, old) there
  · intro other member
    rcases known member with same | ⟨old, there⟩
    · rw [same, List.dropLast_concat]
      exact still inside
    · exact still (tree.nested (other.1, old) there)

/-- Directories that are made on a way belong to the tree. -/
theorem IsTree.makeAlong (tree : files.IsTree) {here there : Location}
    {steps : List String} {made : Files}
    (plain : ∀ step ∈ steps, step ≠ "." → step ≠ ".." → IsName step)
    (along : files.makeAlong here steps = some (made, there)) : made.IsTree := by
  induction steps generalizing files here with
  | nil =>
      rw [Files.makeAlong] at along
      split at along <;> cases along
      exact tree
  | cons step steps inductionHypothesis =>
      rw [List.forall_mem_cons] at plain
      rw [Files.makeAlong] at along
      split at along
      · cases along
      rename_i inside
      split at along
      · exact inductionHypothesis tree plain.2 along
      rename_i notHere
      split at along
      · exact inductionHypothesis tree plain.2 along
      rename_i notUp
      split at along
      · exact inductionHypothesis tree plain.2 along
      · have named := plain.1 notHere notUp
        exact inductionHypothesis (tree.put (by simpa using inside) named fun _ => rfl)
          plain.2 along

/-- To store a file leaves a tree. -/
theorem IsTree.store (tree : files.IsTree) {path : Path} {content : Content}
    {modified : Nat} {later : Files}
    (stored : files.store path content modified = .ok later) : later.IsTree := by
  obtain ⟨made, executable, directories, -, filled, free, -, -, inside, rfl⟩ :=
    directories_of_store stored
  rw [withDirectories?] at directories
  split at directories
  · have treeMade := tree.makeAlong (directoryOf path).isName_step directories
    obtain ⟨here, name, split⟩ := List.eq_nil_or_concat path.place |>.resolve_left filled
    have plain := path.isPlain_place
    rw [split, List.concat_eq_append] at plain free inside ⊢
    rw [List.dropLast_concat] at inside
    refine treeMade.put inside (plain name (by simp)) fun directory => ?_
    rw [free] at directory
    cases directory
  · cases directories

/-- To remove all that is at or below a location leaves a tree. -/
theorem IsTree.removeUnder (tree : files.IsTree) (location : Location) :
    (files.removeUnder location).IsTree := by
  have known {other : Location × Entry}
      (member : other ∈ (files.removeUnder location).entries) :
      other ∈ files.entries ∧ ¬location <+: other.1 := by
    obtain ⟨there, kept⟩ := List.mem_filter.mp member
    rw [Bool.not_eq_true', ← Bool.not_eq_true, List.isPrefixOf_iff_prefix] at kept
    exact ⟨there, kept⟩
  constructor
  · exact fun other member => tree.named other (known member).1
  · intro other member
    obtain ⟨there, apart⟩ := known member
    rw [isDirectory, get_removeUnder fun below =>
      apart (below.trans (List.dropLast_prefix other.1))]
    exact tree.nested other there

/-- With a file nothing else is removed, as there is nothing below it. -/
theorem IsTree.file_of_removed (tree : files.IsTree) {location other : Location}
    {file : File} (found : files.file? location = some file) (apart : other ≠ location) :
    (files.removeUnder location).file? other = files.file? other := by
  rw [file_removeUnder]
  split
  · rename_i below
    cases there : files.file? other with
    | none => rfl
    | some inner =>
        have entry := get_of_file there
        rw [get?, if_neg (ne_nil_of_file there)] at entry
        have above := tree.directory_above (mem_of_entryAt entry) below apart.symm
        rw [not_directory_of_file found] at above
        cases above
  · rfl

end Files

end PackageLayers

/-
Purpose: What a walk through a tree of files visits.
Main exports: FileTree.Leads, FileTree.isProper, FileTree.Reaches, FileTree.mem_walk,
  FileTree.apart_walk, Files.isProper_tree, Files.leads_tree
-/
import PackageLayers.Files.Walk
import PackageLayers.Proofs.Files.Trees

namespace PackageLayers

/-!
A walk visits each place to which names lead through directories that pass, and
visits it by the path of these names.  Where a directory holds no name twice, names
lead to one place, so no two visits are by paths with the same components.

The files of a machine are such a tree: names lead to a regular file exactly if there
is a file at the location that they spell.
-/

namespace Path

theorem components_descend (path : Path) {names : List String}
    (plain : ∀ name ∈ names, IsName name) :
    (path.descend names).components =
      path.components ++ names.map Component.name := by
  induction names generalizing path with
  | nil => exact (List.append_nil _).symm
  | cons name names inductionHypothesis =>
      rw [List.forall_mem_cons] at plain
      have deeper := inductionHypothesis (path.child name) plain.2
      rw [components_child path plain.1, List.append_assoc] at deeper
      exact deeper

theorem descend_concat (path : Path) (names : List String) (name : String) :
    path.descend (names ++ [name]) = (path.descend names).child name := by
  rw [descend, List.foldl_append]
  rfl

/-- A path that goes on ends in the last name. -/
theorem fileName_descend (path : Path) {names : List String}
    (plain : ∀ name ∈ names, IsName name) :
    (path.descend names).fileName? = names.getLast?.or path.fileName? := by
  cases ends : names.getLast? with
  | none =>
      rw [List.getLast?_eq_none_iff] at ends
      rw [ends]
      rfl
  | some last =>
      obtain ⟨front, rfl⟩ := List.getLast?_eq_some_iff.mp ends
      rw [fileName?, components_descend path plain, List.map_append,
        ← List.append_assoc, List.map_singleton, List.getLast?_concat]
      rfl

end Path

namespace FileTree

variable {passes : Visit → Bool} {path : Path} {depth : Nat} {visit : Visit}
variable {tree next part : FileTree} {name : String} {names : List String}
variable {entries : List (String × FileTree)}

/-- What holds of what is no directory, and of a directory if it does of all that it
holds, holds of every tree. -/
@[elab_as_elim]
theorem induction {motive : FileTree → Prop} (regular : motive .regular)
    (other : motive .other)
    (directory : ∀ entries, (∀ entry ∈ entries, motive entry.2) →
      motive (.directory entries)) (tree : FileTree) : motive tree :=
  @FileTree.rec motive (fun entries => ∀ entry ∈ entries, motive entry.2)
    (fun entry => motive entry.2) regular other directory
    (fun _ member => absurd member List.not_mem_nil)
    (fun _ _ first rest => List.forall_mem_cons.mpr ⟨first, rest⟩)
    (fun _ _ second => second) tree

/-- What something in a tree is. -/
def kind : FileTree → FileKind
  | .regular => .regular
  | .other => .other
  | .directory _ => .directory

/-- Whether names lead through a tree to a part of it. -/
inductive Leads : FileTree → List String → FileTree → Prop where
  | here {tree : FileTree} : Leads tree [] tree
  | through {entries : List (String × FileTree)} {name : String}
      {names : List String} {next part : FileTree}
      (member : (name, next) ∈ entries) (further : Leads next names part) :
      Leads (.directory entries) (name :: names) part

mutual

/-- Whether every directory of a tree holds names only, and each once. -/
def isProper : FileTree → Bool
  | .directory entries =>
      decide (entries.map Prod.fst).Nodup && properEntries entries
  | _ => true

/-- Whether entries have names and are proper. -/
def properEntries : List (String × FileTree) → Bool
  | [] => true
  | (name, tree) :: rest =>
      decide (IsName name) && tree.isProper && properEntries rest

end

theorem properEntries_iff : properEntries entries ↔
    ∀ entry ∈ entries, IsName entry.1 ∧ entry.2.isProper := by
  induction entries with
  | nil => simp [properEntries]
  | cons entry entries inductionHypothesis =>
      rw [properEntries, Bool.and_eq_true, Bool.and_eq_true, decide_eq_true_iff,
        inductionHypothesis, List.forall_mem_cons]

theorem isProper_directory : (directory entries).isProper ↔
    (entries.map Prod.fst).Nodup ∧
      ∀ entry ∈ entries, IsName entry.1 ∧ entry.2.isProper := by
  rw [isProper, Bool.and_eq_true, decide_eq_true_iff, properEntries_iff]

/-- What leads through a proper tree are names. -/
theorem Leads.plain (leads : Leads tree names part) (proper : tree.isProper) :
    ∀ name ∈ names, IsName name := by
  induction leads with
  | here => exact fun _ member => absurd member List.not_mem_nil
  | through member _ inductionHypothesis =>
      have own := (isProper_directory.mp proper).2 _ member
      exact List.forall_mem_cons.mpr ⟨own.1, inductionHypothesis own.2⟩

/-! ### What is visited -/

/-- Whether a walk that starts at a path and a depth comes along names to a part of a
tree: that part and all directories on the way pass. -/
inductive Reaches (passes : Visit → Bool) :
    Path → Nat → FileTree → List String → FileTree → Prop where
  | here {path : Path} {depth : Nat} {tree : FileTree}
      (passed : passes ⟨path, depth, tree.kind⟩) :
      Reaches passes path depth tree [] tree
  | through {path : Path} {depth : Nat} {entries : List (String × FileTree)}
      {name : String} {names : List String} {next part : FileTree}
      (passed : passes ⟨path, depth, .directory⟩) (member : (name, next) ∈ entries)
      (further : Reaches passes (path.child name) (depth + 1) next names part) :
      Reaches passes path depth (.directory entries) (name :: names) part

theorem Reaches.leads (reaches : Reaches passes path depth tree names part) :
    Leads tree names part := by
  induction reaches with
  | here => exact .here
  | through _ member _ inductionHypothesis => exact .through member inductionHypothesis

theorem walkEntries_eq (passes : Visit → Bool) (path : Path) (depth : Nat)
    (entries : List (String × FileTree)) :
    walkEntries passes path depth entries = entries.map fun entry =>
      (entry.1, entry.2.walk passes (path.child entry.1) depth) := by
  induction entries with
  | nil => rfl
  | cons entry entries inductionHypothesis =>
      rw [walkEntries, inductionHypothesis, List.map_cons]

/-- A directory that passes is visited, and then what is visited in it. -/
theorem mem_walk_directory : visit ∈ (directory entries).walk passes path depth ↔
    passes ⟨path, depth, .directory⟩ ∧ (visit = ⟨path, depth, .directory⟩ ∨
      ∃ entry ∈ entries,
        visit ∈ entry.2.walk passes (path.child entry.1) (depth + 1)) := by
  rw [walk]
  split
  · rename_i passed
    rw [List.mem_cons, List.mem_flatMap]
    simp only [mem_sortBy, walkEntries_eq, List.mem_map, exists_exists_and_eq_and,
      passed, true_and]
  · rename_i refused
    simp [refused]

/-- A walk visits what it comes to, by the path of the names that lead there. -/
theorem mem_walk : visit ∈ tree.walk passes path depth ↔
    ∃ names part, Reaches passes path depth tree names part ∧
      visit = ⟨path.descend names, depth + names.length, part.kind⟩ := by
  have leaf {tree : FileTree} (solid : ∀ entries, tree ≠ .directory entries)
      (path : Path) (depth : Nat) :
      visit ∈ [⟨path, depth, tree.kind⟩].filter passes ↔
        ∃ names part, Reaches passes path depth tree names part ∧
          visit = ⟨path.descend names, depth + names.length, part.kind⟩ := by
    rw [List.mem_filter, List.mem_singleton]
    constructor
    · rintro ⟨rfl, passed⟩
      exact ⟨[], tree, .here passed, rfl⟩
    · rintro ⟨names, part, reaches, rfl⟩
      cases reaches with
      | here passed => exact ⟨rfl, passed⟩
      | through => exact absurd rfl (solid _)
  induction tree using FileTree.induction generalizing path depth with
  | regular => exact @leaf .regular (by simp) path depth
  | other => exact @leaf .other (by simp) path depth
  | directory entries inductionHypothesis =>
      rw [mem_walk_directory]
      constructor
      · rintro ⟨passed, rfl | ⟨entry, member, visited⟩⟩
        · exact ⟨[], _, .here passed, rfl⟩
        · obtain ⟨names, part, further, rfl⟩ :=
            (inductionHypothesis entry member).mp visited
          refine ⟨entry.1 :: names, part, .through passed member further, ?_⟩
          rw [List.length_cons, Nat.add_right_comm, Nat.add_assoc]
          rfl
      · rintro ⟨names, part, reaches, rfl⟩
        cases reaches with
        | here passed => exact ⟨passed, Or.inl rfl⟩
        | @through _ _ _ name names next _ passed member further =>
            refine ⟨passed, Or.inr ⟨(name, next), member, ?_⟩⟩
            refine (inductionHypothesis _ member).mpr ⟨names, part, further, ?_⟩
            rw [List.length_cons, Nat.add_right_comm, Nat.add_assoc]
            rfl

/-- What is visited at and below a proper tree has a path that goes on from the
start. -/
theorem components_of_mem_walk (proper : tree.isProper)
    (visited : visit ∈ tree.walk passes path depth) :
    ∃ names : List String,
      visit.path.components = path.components ++ names.map Component.name := by
  obtain ⟨names, part, reaches, rfl⟩ := mem_walk.mp visited
  exact ⟨names, path.components_descend (reaches.leads.plain proper)⟩

/-- In a proper tree no two visits have paths with the same components. -/
theorem apart_walk (proper : tree.isProper) :
    (tree.walk passes path depth).Pairwise fun first second =>
      first.path.components ≠ second.path.components := by
  induction tree using FileTree.induction generalizing path depth with
  | regular => exact (List.pairwise_singleton _ _).filter _
  | other => exact (List.pairwise_singleton _ _).filter _
  | directory entries inductionHypothesis =>
      obtain ⟨distinct, own⟩ := isProper_directory.mp proper
      rw [walk]
      split
      swap
      · exact .nil
      rw [walkEntries_eq]
      have start {entry : String × FileTree} (member : entry ∈ entries)
          {visit : Visit}
          (visited : visit ∈ entry.2.walk passes (path.child entry.1) (depth + 1)) :
          ∃ names : List String, visit.path.components =
            path.components ++ Component.name entry.1 :: names.map Component.name := by
        obtain ⟨names, components⟩ :=
          components_of_mem_walk (own entry member).2 visited
        rw [Path.components_child path (own entry member).1, List.append_assoc]
          at components
        exact ⟨names, components⟩
      refine List.pairwise_cons.mpr ⟨fun visit visited => ?_, ?_⟩
      · simp only [List.mem_flatMap, mem_sortBy, List.mem_map,
          exists_exists_and_eq_and] at visited
        obtain ⟨entry, member, visited⟩ := visited
        obtain ⟨names, components⟩ := start member visited
        rw [components]
        simp
      · refine List.pairwise_flatMap.mpr ⟨?_, ?_⟩
        · intro visits member
          rw [mem_sortBy, List.mem_map] at member
          obtain ⟨entry, member, rfl⟩ := member
          exact inductionHypothesis entry member (own entry member).2
        · -- Sorting does not matter, since being apart is symmetric.
          rw [(sortBy_perm _).pairwise_iff fun apart first visited second visited' same =>
            apart second visited' first visited same.symm, List.pairwise_map]
          refine (List.pairwise_map.mp distinct).imp_of_mem ?_
          intro entry other member member' different first visited second visited' same
          obtain ⟨names, components⟩ := start member visited
          obtain ⟨names', components'⟩ := start member' visited'
          rw [components, components', List.append_cancel_left_eq, List.cons.injEq]
            at same
          exact different (Component.name.inj same.1)

end FileTree

/-! ### The files of a machine -/

namespace Files

variable {files : Files} {location : Location} {name : String}
variable {names : List String}

theorem mem_namesIn : name ∈ files.namesIn location ↔
    (files.get? (location ++ [name])).isSome := by
  rw [namesIn, List.mem_filterMap, get?, if_neg (by simp)]
  constructor
  · rintro ⟨⟨place, entry⟩, member, picked⟩
    rw [Option.ite_none_right_eq_some, List.getLast?_eq_some_iff] at picked
    obtain ⟨above, front, rfl⟩ := picked
    rw [List.dropLast_concat] at above
    rw [above] at member
    rw [entryAt_of_mem files.distinct member]
    rfl
  · intro here
    obtain ⟨entry, found⟩ := Option.isSome_iff_exists.mp here
    refine ⟨(location ++ [name], entry), mem_of_entryAt found, ?_⟩
    rw [List.dropLast_concat, if_pos rfl, List.getLast?_concat]

theorem nodup_namesIn (files : Files) (location : Location) :
    (files.namesIn location).Nodup := by
  rw [namesIn, List.Nodup, List.pairwise_filterMap]
  refine (List.pairwise_map.mp files.distinct).imp ?_
  intro first second different name picked name' picked' same
  rw [Option.ite_none_right_eq_some, List.getLast?_eq_some_iff] at picked picked'
  obtain ⟨above, front, whole⟩ := picked
  obtain ⟨above', front', whole'⟩ := picked'
  rw [whole, List.dropLast_concat] at above
  rw [whole', List.dropLast_concat] at above'
  exact different (by rw [whole, whole', above, above', same])

/-- What is in a directory of a tree has a name. -/
theorem IsTree.named_in (tree : files.IsTree) (member : name ∈ files.namesIn location) :
    IsName name := by
  obtain ⟨entry, found⟩ := Option.isSome_iff_exists.mp (mem_namesIn.mp member)
  rw [get?, if_neg (by simp)] at found
  exact (tree.named _ (mem_of_entryAt found)).2 name (by simp)

/-- A file is listed. -/
theorem mem_entries_of_file {file : File} (held : files.file? location = some file) :
    (location, Entry.file file) ∈ files.entries := by
  rw [file?] at held
  split at held
  · rename_i here
    cases held
    rw [get?] at here
    split at here
    · cases here
    · exact mem_of_entryAt here
  · cases held

theorem isProper_treeTo (tree : files.IsTree) {depth : Nat} :
    (files.treeTo depth location).isProper := by
  induction depth generalizing location with
  | zero =>
      rw [treeTo, FileTree.ofEntry.eq_def]
      split <;> rfl
  | succ depth inductionHypothesis =>
      rw [treeTo, FileTree.ofEntry.eq_def]
      split
      · rfl
      · rw [FileTree.isProper_directory, List.map_map]
        refine ⟨(List.map_id _).symm ▸ nodup_namesIn files location, ?_⟩
        intro entry member
        obtain ⟨name, inside, rfl⟩ := List.mem_map.mp member
        exact ⟨tree.named_in inside, inductionHypothesis⟩
      · rfl

/-- Names that lead to a regular file spell the location of one. -/
theorem file_of_leads {depth : Nat}
    (leads : (files.treeTo depth location).Leads names .regular) :
    (files.file? (location ++ names)).isSome := by
  induction names generalizing depth location with
  | nil =>
      have start : files.treeTo depth location = .regular := by
        generalize files.treeTo depth location = tree at leads
        cases leads
        rfl
      rw [List.append_nil, file?]
      cases found : files.get? location with
      | none =>
          cases depth <;> rw [treeTo, found] at start <;> cases start
      | some entry =>
          cases entry with
          | file file => rfl
          | directory =>
              cases depth <;> rw [treeTo, found] at start <;> cases start
  | cons name names inductionHypothesis =>
      generalize start : files.treeTo depth location = tree at leads
      cases leads with
      | through member further =>
          cases depth with
          | zero =>
              rw [treeTo, FileTree.ofEntry.eq_def] at start
              split at start <;> cases start
              cases member
          | succ depth =>
              rw [treeTo, FileTree.ofEntry.eq_def] at start
              split at start <;> cases start
              obtain ⟨_, -, same⟩ := List.mem_map.mp member
              cases same
              rw [List.append_cons]
              exact inductionHypothesis further

/-- Names that spell the location of a file lead to it, if so many are looked at. -/
theorem leads_of_file (tree : files.IsTree) {file : File} {depth : Nat}
    (listed : (location ++ names, Entry.file file) ∈ files.entries)
    (deep : names.length ≤ depth) :
    (files.treeTo depth location).Leads names .regular := by
  induction names generalizing depth location with
  | nil =>
      rw [List.append_nil] at listed
      cases depth <;> rw [treeTo, tree.get_of_mem listed] <;> exact .here
  | cons name names inductionHypothesis =>
      obtain ⟨depth, rfl⟩ : ∃ fewer, depth = fewer + 1 :=
        ⟨depth - 1, by rw [List.length_cons] at deep; omega⟩
      have inside : files.get? location = some .directory := by
        have above := tree.directory_above listed (List.prefix_append _ _) (by simp)
        rwa [isDirectory, beq_iff_eq] at above
      rw [List.append_cons] at listed
      have here : (files.get? (location ++ [name])).isSome := by
        by_cases last : names = []
        · rw [last, List.append_nil] at listed
          rw [tree.get_of_mem listed]
          rfl
        · have above := tree.directory_above listed (List.prefix_append _ _)
            (by simpa using last)
          rw [isDirectory, beq_iff_eq] at above
          rw [above]
          rfl
      rw [treeTo, inside]
      refine .through (List.mem_map.mpr ⟨name, mem_namesIn.mpr here, rfl⟩) ?_
      exact inductionHypothesis listed (Nat.le_of_succ_le_succ deep)

theorem length_le_height {entry : Entry} (member : (location, entry) ∈ files.entries) :
    location.length ≤ files.height := by
  rw [height]
  generalize files.entries = entries at member
  induction entries with
  | nil => cases member
  | cons first entries inductionHypothesis =>
      rw [List.map_cons, List.foldr_cons]
      rcases List.mem_cons.mp member with rfl | later
      · exact Nat.le_max_left _ _
      · exact (inductionHypothesis later).trans (Nat.le_max_right _ _)

theorem isProper_tree (tree : files.IsTree) (location : Location) :
    (files.tree location).isProper :=
  isProper_treeTo tree

/-- Names lead from a location to the regular files below it. -/
theorem leads_tree (tree : files.IsTree) :
    (files.tree location).Leads names .regular ↔
      (files.file? (location ++ names)).isSome := by
  refine ⟨file_of_leads, fun found => ?_⟩
  obtain ⟨file, found⟩ := Option.isSome_iff_exists.mp found
  have listed := mem_entries_of_file found
  refine leads_of_file tree listed ?_
  have short := length_le_height listed
  rw [List.length_append] at short
  exact (Nat.le_add_left _ _).trans short

end Files

end PackageLayers

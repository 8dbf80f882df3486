/-
Purpose: A file that can be read can be overwritten.
Main exports: follow_append, Files.store_of_file, World.overwrite_of_text,
  World.overwrite_of_refused
-/
import Mathlib.Data.List.TakeWhile
import Mathlib.Tactic.Common
import PackageLayers.World

namespace PackageLayers

/-!
A path is followed through directories only, so a path that leads to a file ends
in the name of the file, and what stands before that name leads to its directory.
To store a content there replaces that file and nothing else.
-/

namespace Text

variable {α : Type} {p : α → Bool}

theorem splitAt_ne_nil (items : List α) : splitAt p items ≠ [] := by
  cases items with
  | nil => exact List.cons_ne_nil _ _
  | cons item items =>
      rw [splitAt]
      split
      · exact List.cons_ne_nil _ _
      · split <;> exact List.cons_ne_nil _ _

theorem splitAt_of_plain {items : List α} (plain : ∀ item ∈ items, p item = false) :
    splitAt p items = [items] := by
  induction items with
  | nil => rfl
  | cons item items inductionHypothesis =>
      have later := inductionHypothesis fun other member =>
        plain other (List.mem_cons_of_mem item member)
      rw [splitAt, plain item List.mem_cons_self, later]
      rfl

theorem splitAt_append {items rest : List α} {mark : α}
    (plain : ∀ item ∈ items, p item = false) (marks : p mark) :
    splitAt p (items ++ mark :: rest) = items :: splitAt p rest := by
  induction items with
  | nil => rw [List.nil_append, splitAt, if_pos marks]
  | cons item items inductionHypothesis =>
      have later := inductionHypothesis fun other member =>
        plain other (List.mem_cons_of_mem item member)
      rw [List.cons_append, splitAt, plain item List.mem_cons_self, later]
      rfl

/-- Pieces that are put together with marks are found again. -/
theorem splitAt_intercalate {mark : α} {pieces : List (List α)}
    (filled : pieces ≠ []) (marks : p mark)
    (plain : ∀ piece ∈ pieces, ∀ item ∈ piece, p item = false) :
    splitAt p ([mark].intercalate pieces) = pieces := by
  induction pieces with
  | nil => exact absurd rfl filled
  | cons piece pieces inductionHypothesis =>
      have first := plain piece List.mem_cons_self
      cases pieces with
      | nil =>
          rw [List.intercalate_singleton]
          exact splitAt_of_plain first
      | cons next pieces =>
          have later := inductionHypothesis (List.cons_ne_nil _ _)
            fun other member => plain other (List.mem_cons_of_mem piece member)
          rw [List.intercalate_cons_cons, List.append_assoc,
            List.singleton_append, splitAt_append first marks, later]

/-- Pieces hold no mark. -/
theorem plain_of_splitAt {items piece : List α} (member : piece ∈ splitAt p items) :
    ∀ item ∈ piece, p item = false := by
  induction items generalizing piece with
  | nil =>
      rw [splitAt, List.mem_singleton] at member
      subst member
      simp
  | cons item items inductionHypothesis =>
      rw [splitAt] at member
      split at member
      · rcases List.mem_cons.mp member with rfl | later
        · simp
        · exact inductionHypothesis later
      · rename_i plain
        cases pieces : splitAt p items with
        | nil => exact absurd pieces (splitAt_ne_nil items)
        | cons first rest =>
            rw [pieces] at member
            rcases List.mem_cons.mp member with rfl | later
            · intro other here
              rcases List.mem_cons.mp here with rfl | inside
              · simpa using plain
              · exact inductionHypothesis (by rw [pieces]; exact List.mem_cons_self)
                  other inside
            · exact inductionHypothesis (by
                rw [pieces]
                exact List.mem_cons_of_mem first later)

theorem eq_of_splitAt_single {items piece : List α}
    (single : splitAt p items = [piece]) : piece = items := by
  induction items generalizing piece with
  | nil =>
      cases single
      rfl
  | cons item items inductionHypothesis =>
      cases pieces : splitAt p items with
      | nil => exact absurd pieces (splitAt_ne_nil items)
      | cons first rest =>
          rw [splitAt, pieces] at single
          split at single
          · cases single
          · cases rest with
            | nil =>
                cases single
                rw [inductionHypothesis pieces]
            | cons second rest => cases single

/-- The last piece is empty exactly if nothing or a mark is last. -/
theorem getLast_splitAt (items : List α) :
    (splitAt p items).getLast? = some [] ↔ ∀ item ∈ items.getLast?, p item := by
  induction items with
  | nil => simp [splitAt]
  | cons item items inductionHypothesis =>
      cases pieces : splitAt p items with
      | nil => exact absurd pieces (splitAt_ne_nil items)
      | cons first rest =>
          rw [pieces] at inductionHypothesis
          cases items with
          | nil =>
              rw [splitAt] at pieces
              cases pieces
              cases holds : p item <;> simp [splitAt, holds]
          | cons next items =>
              rw [List.getLast?_cons_cons, ← inductionHypothesis, splitAt, pieces]
              cases rest with
              | nil =>
                  have known := eq_of_splitAt_single pieces
                  subst known
                  cases holds : p item <;> simp
              | cons second rest =>
                  cases holds : p item <;> simp

end Text

/-! ### Following steps -/

namespace Files

variable {files : Files}

theorem follow_append (here : Location) (first second : List String) :
    files.follow here (first ++ second) =
      (files.follow here first).bind fun there => files.follow there second := by
  induction first generalizing here with
  | nil => rfl
  | cons step first inductionHypothesis =>
      simp only [List.cons_append, follow, inductionHypothesis]
      repeat' split
      all_goals rfl

/-- What is followed leads through directories. -/
theorem directories_of_follow {here there : Location} {steps : List String}
    (before : ∀ part, part <+: here → part ≠ here → files.isDirectory part)
    (found : files.follow here steps = .ok there) :
    ∀ part, part <+: there → part ≠ there → files.isDirectory part := by
  induction steps generalizing here with
  | nil =>
      cases found
      exact before
  | cons step steps inductionHypothesis =>
      rw [follow] at found
      split at found
      · cases found
      · rename_i directory
        simp only [Bool.not_eq_true', Bool.not_eq_false] at directory
        split at found
        · exact inductionHypothesis before found
        · split at found
          · refine inductionHypothesis (fun part inside other => ?_) found
            refine before part (inside.trans (List.dropLast_prefix here)) ?_
            rintro rfl
            exact other (inside.eq_of_length_le (by simp))
          · split at found
            · refine inductionHypothesis (fun part inside other => ?_) found
              rcases List.prefix_concat_iff.mp inside with same | inner
              · exact absurd same other
              · by_cases whole : part = here
                · exact whole ▸ directory
                · exact before part inner whole
            · cases found

theorem not_directory_of_file {location : Location} {file : File}
    (found : files.file? location = some file) :
    files.isDirectory location = false := by
  rw [file?] at found
  rw [isDirectory]
  cases entry : files.get? location with
  | none => rfl
  | some kind =>
      rw [entry] at found
      cases kind with
      | file other => rfl
      | directory => cases found

/-- To stay means to be in a directory. -/
theorem follow_here {here there : Location} {count : Nat}
    (found : files.follow here (List.replicate count ".") = .ok there) :
    there = here ∧ (count ≠ 0 → files.isDirectory here) := by
  induction count with
  | zero =>
      cases found
      exact ⟨rfl, fun none => absurd rfl none⟩
  | succ count inductionHypothesis =>
      rw [List.replicate_succ, follow] at found
      split at found
      · cases found
      · rename_i directory
        rw [if_pos rfl] at found
        exact ⟨(inductionHypothesis found).1, fun _ => by simpa using directory⟩

theorem follow_stay {here : Location} (directory : files.isDirectory here)
    (count : Nat) : files.follow here (List.replicate count ".") = .ok here := by
  induction count with
  | zero => rfl
  | succ count inductionHypothesis =>
      rw [List.replicate_succ, follow, directory]
      exact inductionHypothesis

/-- Directories that are there are not made. -/
theorem makeAlong_of_follow {here there : Location} {steps : List String}
    (found : files.follow here steps = .ok there)
    (directory : files.isDirectory there) :
    files.makeAlong here steps = some (files, there) := by
  induction steps generalizing here with
  | nil =>
      cases found
      rw [makeAlong, if_pos directory]
  | cons step steps inductionHypothesis =>
      rw [follow] at found
      rw [makeAlong]
      split at found
      · cases found
      · rename_i inside
        rw [if_neg inside]
        split at found
        · rw [if_pos ‹_›]
          exact inductionHypothesis found
        · rw [if_neg ‹_›]
          split at found
          · rw [if_pos ‹_›]
            exact inductionHypothesis found
          · rw [if_neg ‹_›]
            split at found
            · rw [if_pos ‹_›]
              exact inductionHypothesis found
            · cases found

end Files

/-! ### Paths to files -/

namespace Path

/-- The segments that say something or name the directory that they are in. -/
def followed (segments : List (List Char)) : List String :=
  (segments.filter fun segment => !segment.isEmpty).map String.ofList

theorem followed_append (first second : List (List Char)) :
    followed (first ++ second) = followed first ++ followed second := by
  rw [followed, List.filter_append, List.map_append]
  rfl

/-- Segments that say nothing lead nowhere else. -/
theorem followed_idle {segments : List (List Char)}
    (idle : ∀ segment ∈ segments, isIdle segment) :
    ∃ count, followed segments = List.replicate count "." := by
  induction segments with
  | nil => exact ⟨0, rfl⟩
  | cons segment segments inductionHypothesis =>
      obtain ⟨count, later⟩ := inductionHypothesis fun other member =>
        idle other (List.mem_cons_of_mem segment member)
      have first := idle segment List.mem_cons_self
      simp only [isIdle, Bool.or_eq_true, beq_iff_eq] at first
      rcases first with rfl | rfl
      · exact ⟨count, later⟩
      · exact ⟨count + 1, congrArg ("." :: ·) later⟩

theorem dropLastWhile_append {α : Type} (p : α → Bool) (items : List α) :
    ∃ dropped, items = dropLastWhile p items ++ dropped ∧
      ∀ item ∈ dropped, p item := by
  refine ⟨(items.reverse.takeWhile p).reverse, ?_, fun item member => ?_⟩
  · rw [dropLastWhile, ← List.reverse_append, List.takeWhile_append_dropWhile,
      List.reverse_reverse]
  · exact List.mem_takeWhile_imp (List.mem_reverse.mp member)

theorem getLast_dropLastWhile {α : Type} (p : α → Bool) (items : List α) :
    ∀ item ∈ (dropLastWhile p items).getLast?, p item = false := by
  intro item member
  rw [dropLastWhile, List.getLast?_reverse] at member
  have known := List.head?_dropWhile_not p items.reverse
  rw [Option.mem_def.mp member] at known
  simpa using known

/-- The segments of a path from the root. -/
def rootedSegments (chars : List Char) : List (List Char) :=
  Text.splitAt (· == '/') chars

/-- A path from the root is followed along its segments; a slash at the end asks
for a directory. -/
theorem steps_rooted {path : Path} {chars : List Char}
    (rooted : path.text.toList = '/' :: chars) :
    path.steps = followed (rootedSegments chars) ++
      if (rootedSegments chars).getLast? = some [] then ["."] else [] := by
  have final : ('/' :: chars).getLast? = some '/' ↔
      (rootedSegments chars).getLast? = some [] := by
    rw [rootedSegments, Text.getLast_splitAt]
    cases chars with
    | nil => simp
    | cons c chars =>
        rw [List.getLast?_cons_cons,
          List.getLast?_eq_some_getLast (List.cons_ne_nil c chars)]
        simp
  have slash : Text.splitAt (· == '/') ('/' :: chars) =
      [] :: rootedSegments chars := rfl
  simp only [steps, rooted, slash, final]
  split <;> simp [followed]

theorem parts_rooted {path : Path} {chars : List Char}
    (rooted : path.text.toList = '/' :: chars) :
    path.parts = ⟨.root, rootedSegments chars⟩ := by
  simp [parts, rooted, anchorOf, rootedSegments, Anchor.chars]

theorem plain_of_rootedSegments {chars : List Char} :
    ∀ segment ∈ rootedSegments chars, ∀ c ∈ segment, (c == '/') = false :=
  fun _ member => Text.plain_of_splitAt member

theorem isAbsolute_ofParts (segments : List (List Char)) :
    (ofParts ⟨.root, segments⟩).isAbsolute := by
  simp [isAbsolute, ofParts, Anchor.chars]

/-- The path that segments spell from the root is followed along them. -/
theorem steps_ofParts {segments : List (List Char)}
    (plain : ∀ segment ∈ segments, ∀ c ∈ segment, (c == '/') = false)
    (last : ∀ segment ∈ segments.getLast?, isIdle segment = false) :
    ∃ count, (ofParts ⟨.root, segments⟩).steps =
      followed segments ++ List.replicate count "." := by
  have text : (ofParts ⟨.root, segments⟩).text.toList =
      '/' :: ['/'].intercalate segments := by
    simp [ofParts, Anchor.chars]
  rw [steps_rooted text, rootedSegments]
  cases segments with
  | nil => exact ⟨1, rfl⟩
  | cons segment rest =>
      refine ⟨0, ?_⟩
      rw [Text.splitAt_intercalate (List.cons_ne_nil _ _) (by rfl) plain, if_neg]
      · rfl
      · intro empty
        have idle := last [] empty
        cases idle

end Path

namespace Files

variable {files : Files}

/-- A path that ends in segments that say nothing leads to no file. -/
theorem not_file_of_idle {segments spoken idle : List (List Char)}
    {location : Location} {file : File} (whole : segments = spoken ++ idle)
    (filled : idle ≠ []) (allIdle : ∀ segment ∈ idle, Path.isIdle segment)
    (followed : files.follow [] (Path.followed segments ++
      if segments.getLast? = some [] then ["."] else []) = .ok location) :
    files.file? location ≠ some file := by
  obtain ⟨count, same⟩ := Path.followed_idle allIdle
  obtain ⟨more, final⟩ : ∃ more, (if segments.getLast? = some [] then ["."]
      else []) = List.replicate more "." := by
    split
    · exact ⟨1, rfl⟩
    · exact ⟨0, rfl⟩
  have some : count + more ≠ 0 := by
    intro none
    obtain ⟨rfl, rfl⟩ : count = 0 ∧ more = 0 := by omega
    obtain ⟨front, last, rfl⟩ := List.eq_nil_or_concat idle |>.resolve_left filled
    have known := allIdle last (by simp)
    simp only [Path.isIdle, Bool.or_eq_true, beq_iff_eq] at known
    rcases known with rfl | rfl
    · rw [whole] at final
      simp at final
    · have member : "." ∈ Path.followed (front.concat ['.']) := by
        rw [List.concat_eq_append, Path.followed_append]
        exact List.mem_append_right _ List.mem_cons_self
      rw [same] at member
      cases member
  rw [whole, Path.followed_append, same, ← whole, final, List.append_assoc,
    List.replicate_append_replicate, follow_append] at followed
  cases there : files.follow [] (Path.followed spoken) with
  | error obstacle =>
      rw [there] at followed
      cases followed
  | ok here =>
      rw [there] at followed
      obtain ⟨rfl, directory⟩ := follow_here followed
      intro found
      rw [not_directory_of_file found] at directory
      exact absurd (directory some) (by decide)

theorem fileName_of_segments {path : Path} {chars segment : List Char}
    {front : List (List Char)} (rooted : path.text.toList = '/' :: chars)
    (split : Path.rootedSegments chars = front ++ [segment])
    (filled : segment ≠ []) (here : segment ≠ ['.'])
    (up : segment ≠ ['.', '.']) :
    path.fileName? = some (String.ofList segment) := by
  have loud : Path.isIdle segment = false := by simp [Path.isIdle, filled, here]
  have last : (path.components).getLast? =
      some (.name (String.ofList segment)) := by
    rw [Path.components, Path.parts_rooted rooted]
    simp [split, loud, Path.ofSegment, up, List.getLast?_append]
  rw [Path.fileName?, last]

theorem directoryOf_segments {path : Path} {chars segment : List Char}
    {front : List (List Char)} (rooted : path.text.toList = '/' :: chars)
    (spoken : Path.dropLastWhile Path.isIdle (Path.rootedSegments chars) =
      front ++ [segment]) :
    directoryOf path =
      Path.ofParts ⟨.root, Path.dropLastWhile Path.isIdle front⟩ := by
  have parent : path.parent? =
      some (Path.ofParts ⟨.root, Path.dropLastWhile Path.isIdle front⟩) := by
    rw [Path.parent?, Path.parts_rooted rooted]
    simp only [spoken]
    cases front with
    | nil => rfl
    | cons first front =>
        simp only [List.cons_append]
        rw [← List.cons_append, List.dropLast_concat]
  have filled : (Path.ofParts
      ⟨.root, Path.dropLastWhile Path.isIdle front⟩).text.isEmpty = false := by
    rw [Path.ofParts, Path.Anchor.chars]
    simp
  rw [directoryOf, parent]
  simp only [filled]
  rfl

/-- The directory of a path is where the segments before its name lead. -/
theorem locate_directory {chars segment : List Char} {front : List (List Char)}
    {here : Location} (split : Path.rootedSegments chars = front ++ [segment])
    (there : files.follow [] (Path.followed front) = .ok here)
    (directory : files.isDirectory here) :
    files.locate (Path.ofParts ⟨.root, Path.dropLastWhile Path.isIdle front⟩) =
      .ok here := by
  obtain ⟨dropped, whole, idle⟩ := Path.dropLastWhile_append Path.isIdle front
  obtain ⟨count, same⟩ := Path.followed_idle idle
  obtain ⟨more, steps⟩ := @Path.steps_ofParts
    (Path.dropLastWhile Path.isIdle front)
    (fun other member => @Path.plain_of_rootedSegments chars other (by
      rw [split, whole]
      simp [member]))
    (Path.getLast_dropLastWhile Path.isIdle front)
  rw [whole, Path.followed_append, same, follow_append] at there
  rw [locate, if_pos (Path.isAbsolute_ofParts _), steps, follow_append]
  cases walked : files.follow []
      (Path.followed (Path.dropLastWhile Path.isIdle front)) with
  | error obstacle =>
      rw [walked] at there
      cases there
  | ok place =>
      rw [walked] at there
      obtain ⟨rfl, -⟩ := follow_here there
      exact follow_stay directory more

theorem parent_of_segments {path : Path} {chars segment : List Char}
    {front : List (List Char)} {location : Location} {file : File}
    (rooted : path.text.toList = '/' :: chars)
    (split : Path.rootedSegments chars = front ++ [segment])
    (loud : Path.isIdle segment = false)
    (spoken : Path.dropLastWhile Path.isIdle (Path.rootedSegments chars) =
      front ++ [segment])
    (followed : files.follow [] (Path.followed (Path.rootedSegments chars) ++
      if (Path.rootedSegments chars).getLast? = some [] then ["."] else []) =
        .ok location)
    (found : files.file? location = some file) :
    ∃ parent name, location = parent ++ [name] ∧ path.fileName? = some name ∧
      files.isDirectory parent ∧
      files.locate (directoryOf path) = .ok parent ∧
      (directoryOf path).isAbsolute := by
  simp only [Path.isIdle, Bool.or_eq_false_iff, beq_eq_false_iff_ne] at loud
  obtain ⟨filled, other⟩ := loud
  have last : Path.followed [segment] = [String.ofList segment] := by
    simp [Path.followed, filled]
  have final : ¬(Path.rootedSegments chars).getLast? = some [] := by
    rw [split, List.getLast?_concat, Option.some.injEq]
    exact filled
  rw [if_neg final, List.append_nil, split, Path.followed_append, last,
    follow_append] at followed
  cases there : files.follow [] (Path.followed front) with
  | error obstacle =>
      rw [there] at followed
      cases followed
  | ok here =>
      rw [there] at followed
      have walked : files.follow here [String.ofList segment] = .ok location :=
        followed
      have still : String.ofList segment ≠ "." := fun same =>
        other (String.ofList_injective same)
      rw [follow, if_neg still] at walked
      split at walked
      · cases walked
      · rename_i inside
        have directory : files.isDirectory here := by simpa using inside
        split at walked
        · cases walked
          have before := @directories_of_follow files [] here _
            (fun part inner outer => absurd (List.prefix_nil.mp inner) outer) there
          have above : files.isDirectory here.dropLast := by
            by_cases same : here.dropLast = here
            · rw [same]
              exact directory
            · exact before _ (List.dropLast_prefix here) same
          rw [not_directory_of_file found] at above
          cases above
        · rename_i up
          split at walked
          · cases walked
            refine ⟨here, _, rfl, ?_, directory, ?_, ?_⟩
            · rw [fileName_of_segments rooted split filled other fun same =>
                up (congrArg String.ofList same)]
            · rw [directoryOf_segments rooted spoken]
              exact locate_directory split there directory
            · rw [directoryOf_segments rooted spoken]
              exact Path.isAbsolute_ofParts _
          · cases walked

/-- A path that leads to a file is the path of its directory and its name. -/
theorem parent_of_file {path : Path} {location : Location} {file : File}
    (located : files.locate path = .ok location)
    (found : files.file? location = some file) :
    ∃ parent name, location = parent ++ [name] ∧ path.fileName? = some name ∧
      files.isDirectory parent ∧
      files.locate (directoryOf path) = .ok parent ∧
      (directoryOf path).isAbsolute := by
  rw [locate] at located
  split at located
  · rename_i absolute
    obtain ⟨chars, rooted⟩ : ∃ chars, path.text.toList = '/' :: chars := by
      rw [Path.isAbsolute, beq_iff_eq] at absolute
      exact List.head?_eq_some_iff.mp absolute
    have followed : files.follow [] path.steps = .ok location := located
    rw [Path.steps_rooted rooted] at followed
    obtain ⟨dropped, whole, idle⟩ :=
      Path.dropLastWhile_append Path.isIdle (Path.rootedSegments chars)
    have spoken := Path.getLast_dropLastWhile Path.isIdle
      (Path.rootedSegments chars)
    cases dropped with
    | cons segment dropped =>
        exact absurd found
          (not_file_of_idle whole (List.cons_ne_nil _ _) idle followed)
    | nil =>
        rw [List.append_nil] at whole
        rw [← whole] at spoken
        obtain ⟨front, segment, split⟩ :=
          (List.eq_nil_or_concat (Path.rootedSegments chars)).resolve_left
            (Text.splitAt_ne_nil chars)
        rw [List.concat_eq_append] at split
        have loud := spoken segment (by rw [split]; exact List.getLast?_concat)
        exact parent_of_segments rooted split loud (whole ▸ split) followed found
  · cases located

/-! ### Replacing a file -/

theorem get_of_file {location : Location} {file : File}
    (found : files.file? location = some file) :
    files.get? location = some (.file file) := by
  rw [file?] at found
  split at found
  · rename_i same
    cases found
    exact same
  · cases found

theorem ne_nil_of_file {location : Location} {file : File}
    (found : files.file? location = some file) : location ≠ [] := by
  rintro rfl
  cases get_of_file found

/-- A content that is stored where a file is replaces the file. -/
theorem store_of_file {path : Path} {location : Location} {old : File}
    (located : files.locate path = .ok location)
    (found : files.file? location = some old) (content : Content)
    (modified : Nat) :
    files.store path content modified = .ok (files.put location
      (.file
        { content := content
          modified := .ofMilliseconds modified
          executable := old.executable })) := by
  obtain ⟨parent, name, rfl, named, directory, there, absolute⟩ :=
    parent_of_file located found
  have made : files.withDirectories? (directoryOf path) = some (files, parent) := by
    rw [locate, if_pos absolute] at there
    rw [withDirectories?, if_pos absolute]
    exact makeAlong_of_follow there directory
  -- its equation, with the place bound inside, is slow to make
  delta store
  simp only [made, named, not_directory_of_file found, isExecutable, found,
    Option.any_some]
  rfl

theorem file_put {location : Location} (notRoot : location ≠ []) (file : File)
    (other : Location) :
    (files.put location (.file file)).file? other =
      if other = location then some file else files.file? other := by
  rw [file?, get?_put files notRoot]
  by_cases same : other = location
  · rw [if_pos same, if_pos same]
  · rw [if_neg same, if_neg same]
    rfl

theorem fileOf_eq {path : Path} {file : File} :
    files.fileOf? path = some file ↔
      ∃ location, files.locate path = .ok location ∧
        files.file? location = some file := by
  rw [fileOf?, entryOf?]
  cases files.locate path with
  | error obstacle => simp
  | ok location =>
      simp only [Except.ok.injEq, exists_eq_left']
      rfl

end Files

namespace World

/-- What is stored where the disk refuses nothing. -/
theorem store_of_accepted {world : World} {path : Path} {content : Content}
    {files : Files} (accepted : world.disk path content = none)
    (stored : world.files.store path content world.stamp = .ok files) :
    world.store path content = .ok { world with files := files } := by
  rw [store, stored, refusal?, accepted]
  rfl

/-- A file that can be read is in no way of its being overwritten. -/
theorem stored_of_text {world : World} {path : Path} {old : String}
    (readable : world.files.textOf? path = some old) (text : String) :
    world.files.hasEntry path ∧
      ∃ files, world.files.store path (.text text) world.tick.stamp = .ok files := by
  rw [Files.textOf?, Option.bind_eq_some_iff] at readable
  obtain ⟨file, found, -⟩ := readable
  obtain ⟨location, located, here⟩ := Files.fileOf_eq.mp found
  refine ⟨?_, _, Files.store_of_file located here (.text text) world.tick.stamp⟩
  rw [Files.hasEntry, Files.entryOf?, located]
  exact Option.isSome_of_mem (Files.get_of_file here)

/-- It can be overwritten, then, if the disk refuses nothing. -/
theorem overwrite_of_text {world : World} {path : Path} {old text : String}
    (readable : world.files.textOf? path = some old)
    (accepted : world.disk path (.text text) = none) :
    ∃ later, world.overwrite path text = .ok later := by
  obtain ⟨-, files, stored⟩ := stored_of_text readable text
  exact ⟨_, store_of_accepted accepted stored⟩

/-- If the disk refuses a step, the fault tells which. -/
theorem overwrite_of_refused {world : World} {path : Path} {old text : String}
    {fault : WriteFault} (readable : world.files.textOf? path = some old)
    (refused : world.disk path (.text text) = some fault) :
    world.overwrite path text = .error (.refused fault.step path fault.reason) := by
  obtain ⟨there, files, stored⟩ := stored_of_text readable text
  have refusal : world.tick.refusal? path (.text text) =
      some (.refused fault.step path fault.reason) := by
    have filled : world.tick.files.hasEntry path = true := there
    rw [refusal?, show world.tick.disk path (.text text) = some fault from refused,
      Option.bind_some, filled, Bool.not_true, Bool.and_false]
    rfl
  have written : world.tick.files.store path (.text text) world.tick.stamp =
      .ok files := stored
  rw [overwrite, store, refusal, written]
  rfl

end World

end PackageLayers

/-
Purpose: The path from one directory to another leads there.
Main exports: Path.clean_of_absolute, Path.IsStraight, Path.spoken_relativeTo,
  Path.place_join_relativeTo
-/
import PackageLayers.Path.Clean
import PackageLayers.Path.Relative
import PackageLayers.Proofs.Files.Places

namespace PackageLayers

/-!
To clean a path from the root is to spell the place that it names, so it is enough
to follow places.  A relative path, used in a directory, goes on from the place of
that directory.

A path that leads straight down from the root is its place, name by name.  The path
from one such directory to another says as many times `..` as the base goes on
behind the last directory in common, and then the names that the other goes on
with.  Where the base lies above the other, that is nothing and the rest, which is
how the rest is found: it keeps the spelling of the other path, while the names are
spelled anew where something is gone up.
-/

namespace Path

open Component (lead)

variable {path base other : Path}

/-! ### Cleaned paths -/

theorem root_notMem_spoken (segments : List (List Char)) :
    .root ∉ spoken segments := by
  rw [spoken, List.mem_map]
  rintro ⟨segment, -, same⟩
  rw [ofSegment] at same
  split at same <;> cases same

/-- A cleaned list that starts from the root holds the names of the place so far. -/
theorem foldl_cleanStep {components : List Component} (later : .root ∉ components)
    (here : Location) :
    components.foldl cleanStep ((here.map Component.name).reverse ++ [.root]) =
      ((components.foldl lead here).map Component.name).reverse ++ [.root] := by
  induction components generalizing here with
  | nil => rfl
  | cons component components inductionHypothesis =>
      rw [List.mem_cons, not_or] at later
      rw [List.foldl_cons, List.foldl_cons, ← inductionHypothesis later.2]
      congr 1
      cases component with
      | root => exact absurd rfl later.1
      | here => rfl
      | parent =>
          cases here using List.reverseRecOn with
          | nil => rfl
          | append_singleton front name => simp [lead, cleanStep]
      | name text => simp [lead, cleanStep]

/-- A path from the root is cleaned to the canonical path of its place. -/
theorem clean_of_absolute (absolute : path.isAbsolute) :
    path.clean = path.place.path := by
  obtain ⟨chars, rooted⟩ := rooted_of_absolute absolute
  have cleaned : cleanComponents path.components =
      .root :: path.place.map Component.name := by
    have reversed := foldl_cleanStep (root_notMem_spoken (rootedSegments chars)) []
    rw [place, components_rooted rooted, cleanComponents, List.foldl_cons]
    exact (congrArg List.reverse reversed).trans (by simp [lead])
  have texts : path.place.map (Component.text ∘ Component.name) = path.place :=
    List.map_id _
  rw [clean, cleaned, ofComponents, List.map_map, texts, Location.path]

theorem isAbsolute_join (absolute : path.isAbsolute)
    (relative : other.isAbsolute = false) : (path.join other).isAbsolute := by
  obtain ⟨chars, rooted⟩ := rooted_of_absolute absolute
  have text := join_chars (filled_of_absolute absolute) relative
  rw [isAbsolute, beq_iff_eq, text, rooted]
  split <;> rfl

/-- A relative path goes on from the place of the directory it is used in. -/
theorem place_join (absolute : path.isAbsolute)
    (relative : other.isAbsolute = false) :
    (path.join other).place =
      (spoken (rootedSegments other.text.toList)).foldl lead path.place := by
  rw [place, components_join (filled_of_absolute absolute) relative,
    List.foldl_append]
  rfl

/-! ### Straight paths -/

/-- Whether a path leads straight down from the root and can be stored as it is. -/
structure IsStraight (path : Path) : Prop where
  absolute : path.isAbsolute
  down : ∀ component ∈ path.components, component ≠ .here ∧ component ≠ .parent
  stored : '\\' ∉ path.text.toList

instance : DecidablePred IsStraight := fun path =>
  decidable_of_iff
    (path.isAbsolute ∧
      (∀ component ∈ path.components, component ≠ .here ∧ component ≠ .parent) ∧
        '\\' ∉ path.text.toList)
    ⟨fun ⟨absolute, down, stored⟩ => ⟨absolute, down, stored⟩,
     fun straight => ⟨straight.absolute, straight.down, straight.stored⟩⟩

/-- A straight path is its place, name by name. -/
theorem IsStraight.components_eq (straight : path.IsStraight) :
    path.components = .root :: path.place.map Component.name := by
  obtain ⟨chars, rooted⟩ := rooted_of_absolute straight.absolute
  have down := straight.down
  rw [components_rooted rooted] at down
  have named (components : List Component)
      (known : ∀ component ∈ components, component ≠ .root ∧
        component ≠ .here ∧ component ≠ .parent) :
      ∃ names : Location, components = names.map Component.name := by
    induction components with
    | nil => exact ⟨[], rfl⟩
    | cons component components inductionHypothesis =>
        rw [List.forall_mem_cons] at known
        obtain ⟨names, rfl⟩ := inductionHypothesis known.2
        cases component with
        | root => exact absurd rfl known.1.1
        | here => exact absurd rfl known.1.2.1
        | parent => exact absurd rfl known.1.2.2
        | name text => exact ⟨text :: names, rfl⟩
  obtain ⟨names, all⟩ := named (spoken (rootedSegments chars)) fun component member =>
    ⟨fun root => root_notMem_spoken _ (root ▸ member),
      down component (List.mem_cons_of_mem _ member)⟩
  rw [place, components_rooted rooted, all, List.foldl_cons, Location.foldl_names]
  rfl

/-- Straight paths to one place are the same path. -/
theorem IsStraight.sameAs_iff (straight : path.IsStraight) (also : other.IsStraight) :
    path.sameAs other ↔ path.place = other.place := by
  refine ⟨place_of_sameAs, fun same => ?_⟩
  rw [sameAs, beq_iff_eq, straight.components_eq, also.components_eq, same]

/-! ### Places in common -/

theorem commonLength_le (left right : List Component) :
    commonLength left right ≤ left.length := by
  fun_induction commonLength left right <;> simp_all

/-- What two lists have in common starts both of them. -/
theorem take_commonLength (left right : List Component) :
    left.take (commonLength left right) = right.take (commonLength left right) := by
  fun_induction commonLength left right <;> simp_all

theorem commonLength_eq_length {left right : List Component} (starts : left <+: right) :
    commonLength left right = left.length := by
  obtain ⟨rest, rfl⟩ := starts
  induction left with
  | nil => cases rest <;> rfl
  | cons component left inductionHypothesis =>
      rw [List.cons_append, commonLength, if_pos rfl, inductionHypothesis,
        List.length_cons]

/-- To go up is to forget the last names. -/
theorem foldl_parents (count : Nat) (here : Location) :
    (List.replicate count Component.parent).foldl lead here =
      here.take (here.length - count) := by
  induction count generalizing here with
  | zero => simp
  | succ count inductionHypothesis =>
      rw [List.replicate_succ, List.foldl_cons, inductionHypothesis]
      change here.dropLast.take (here.dropLast.length - count) = _
      rw [List.length_dropLast, List.dropLast_eq_take, List.take_take]
      congr 1
      omega

/-! ### Spellings of relative paths -/

theorem mem_of_splitAt {p : Char → Bool} {chars piece : List Char} {c : Char}
    (listed : piece ∈ Text.splitAt p chars) (member : c ∈ piece) : c ∈ chars := by
  induction chars generalizing piece with
  | nil =>
      rw [Text.splitAt, List.mem_singleton] at listed
      rwa [listed] at member
  | cons first chars inductionHypothesis =>
      rw [Text.splitAt] at listed
      split at listed
      · rcases List.mem_cons.mp listed with rfl | later
        · cases member
        · exact List.mem_cons_of_mem _ (inductionHypothesis later member)
      · split at listed
        · rw [List.mem_singleton] at listed
          rw [listed, List.mem_singleton] at member
          exact member ▸ List.mem_cons_self
        · rename_i front pieces split
          rcases List.mem_cons.mp listed with rfl | later
          · rcases List.mem_cons.mp member with rfl | inside
            · exact List.mem_cons_self
            · exact List.mem_cons_of_mem _
                (inductionHypothesis (split ▸ List.mem_cons_self) inside)
          · exact List.mem_cons_of_mem _
              (inductionHypothesis (split ▸ List.mem_cons_of_mem _ later) member)

theorem mem_intercalate {pieces : List (List Char)} {mark c : Char}
    (member : c ∈ [mark].intercalate pieces) : c = mark ∨ ∃ piece ∈ pieces, c ∈ piece := by
  induction pieces with
  | nil => cases member
  | cons piece pieces inductionHypothesis =>
      cases pieces with
      | nil =>
          rw [List.intercalate_singleton] at member
          exact Or.inr ⟨piece, List.mem_cons_self, member⟩
      | cons next pieces =>
          rw [List.intercalate_cons_cons, List.append_assoc, List.mem_append,
            List.singleton_append, List.mem_cons] at member
          rcases member with here | rfl | later
          · exact Or.inr ⟨piece, List.mem_cons_self, here⟩
          · exact Or.inl rfl
          · refine (inductionHypothesis later).imp_right ?_
            rintro ⟨other, listed, inside⟩
            exact ⟨other, List.mem_cons_of_mem _ listed, inside⟩

/-- A path without backslashes is stored as it is spelled. -/
theorem storedText_eq (stored : '\\' ∉ path.text.toList) :
    path.storedText = path.text := by
  have kept : path.text.toList.map (fun c => if c = '\\' then '/' else c) =
      path.text.toList := by
    refine (List.map_congr_left fun c member => ?_).trans (List.map_id _)
    refine if_neg fun backslash => stored ?_
    rwa [← backslash]
  rw [storedText, Text.replaceChar, kept, String.ofList_toList]

/-- The segments of a relative path: none holds a slash or a backslash, and the
first is not empty. -/
structure IsRelative (segments : List (List Char)) : Prop where
  whole : ∀ segment ∈ segments, ∀ c ∈ segment, (c == '/') = false
  stored : ∀ segment ∈ segments, '\\' ∉ segment
  filled : [] ∉ segments.head?

/-- Segments with slashes between them are read back, and are no path from the
root. -/
theorem IsRelative.read {segments : List (List Char)} (relative : IsRelative segments) :
    let spelled := storedText ⟨String.ofList (['/'].intercalate segments)⟩
    (⟨spelled⟩ : Path).isAbsolute = false ∧
      spoken (rootedSegments spelled.toList) = spoken segments := by
  intro spelled
  have same : spelled = String.ofList (['/'].intercalate segments) := by
    refine storedText_eq fun member => ?_
    rw [String.toList_ofList] at member
    rcases mem_intercalate member with slash | ⟨segment, listed, inside⟩
    · cases slash
    · exact relative.stored segment listed inside
  rw [same, isAbsolute, String.toList_ofList]
  cases segments with
  | nil => exact ⟨rfl, rfl⟩
  | cons first rest =>
      constructor
      · cases first with
        | nil => exact absurd rfl relative.filled
        | cons c first =>
            have head : (['/'].intercalate ((c :: first) :: rest)).head? = some c := by
              cases rest <;> simp
            have plain := relative.whole _ List.mem_cons_self c List.mem_cons_self
            rw [head, beq_eq_false_iff_ne, ne_eq, Option.some.injEq]
            simpa using plain
      · rw [rootedSegments,
          Text.splitAt_intercalate (List.cons_ne_nil _ _) (by rfl) relative.whole]

/-- Segments that say nothing are not counted. -/
theorem spoken_dropSegments (count : Nat) (segments : List (List Char)) :
    spoken (dropSegments count segments) = (spoken segments).drop count := by
  fun_induction dropSegments count segments with
  | case1 => simp [spoken]
  | case2 => rfl
  | case3 count segment rest idle inductionHypothesis =>
      rw [inductionHypothesis]
      simp [spoken, idle]
  | case4 count segment rest loud inductionHypothesis =>
      rw [inductionHypothesis]
      simp [spoken, loud]

theorem dropSegments_suffix (count : Nat) (segments : List (List Char)) :
    dropSegments count segments <:+ segments := by
  fun_induction dropSegments count segments with
  | case1 => exact List.suffix_refl _
  | case2 => exact List.suffix_refl _
  | case3 _ _ _ _ inductionHypothesis => exact inductionHypothesis.trans (List.suffix_cons _ _)
  | case4 _ _ _ _ inductionHypothesis => exact inductionHypothesis.trans (List.suffix_cons _ _)

theorem spoken_dropWhile (segments : List (List Char)) :
    spoken (segments.dropWhile isIdle) = spoken segments := by
  induction segments with
  | nil => rfl
  | cons segment segments inductionHypothesis =>
      rw [List.dropWhile_cons]
      split
      · rename_i idle
        rw [inductionHypothesis]
        simp [spoken, idle]
      · rfl

/-! ### From one straight path to another -/

section

variable (here : base.IsStraight) (there : other.IsStraight)

include there in
/-- The segments of a straight path write the names of its place. -/
theorem IsStraight.segments :
    other.parts.anchor = .root ∧
      spoken other.parts.segments = other.place.map Component.name ∧
      ∀ segment ∈ other.parts.segments,
        (∀ c ∈ segment, (c == '/') = false) ∧ '\\' ∉ segment := by
  obtain ⟨chars, rooted⟩ := rooted_of_absolute there.absolute
  have all := there.components_eq
  rw [components_rooted rooted, List.cons.injEq] at all
  rw [parts_rooted rooted]
  refine ⟨rfl, all.2, fun segment listed => ⟨Text.plain_of_splitAt listed, ?_⟩⟩
  intro backslash
  refine there.stored ?_
  rw [rooted]
  exact List.mem_cons_of_mem _ (mem_of_splitAt listed backslash)

include there in
theorem IsStraight.stored_place : ∀ name ∈ other.place, '\\' ∉ name.toList := by
  obtain ⟨-, written, plain⟩ := there.segments
  intro name member
  have listed : Component.name name ∈ spoken other.parts.segments := by
    rw [written]
    exact List.mem_map_of_mem member
  obtain ⟨segment, kept, same⟩ := List.mem_map.mp listed
  rw [ofSegment] at same
  split at same
  · cases same
  · cases same
    rw [String.toList_ofList]
    exact (plain segment (List.mem_filter.mp kept).1).2

include here there in
/-- The way to a directory below is spelled by the segments that are left. -/
theorem relativeTo_below (below : base.components <+: other.components) :
    ∃ segments, IsRelative segments ∧
      other.relativeTo base =
        storedText ⟨String.ofList (['/'].intercalate segments)⟩ ∧
      spoken segments =
        (other.place.drop base.place.length).map Component.name := by
  obtain ⟨anchor, written, plain⟩ := there.segments
  have starts : (Component.root :: base.place.map Component.name).isPrefixOf
      other.components := by
    rw [List.isPrefixOf_iff_prefix, ← here.components_eq]
    exact below
  have count : (Component.root :: base.place.map Component.name).length -
      Anchor.root.components.length = base.place.length := by
    simp [Anchor.components]
  let left := dropSegments base.place.length
    (dropLastWhile isIdle other.parts.segments)
  have listed : ∀ segment ∈ left.dropWhile isIdle, segment ∈ other.parts.segments :=
    fun segment member =>
      (prefix_of_dropLastWhile isIdle _).subset
        ((dropSegments_suffix _ _).subset ((List.dropWhile_sublist _).subset member))
  refine ⟨left.dropWhile isIdle, ⟨fun segment member => (plain segment (listed _ member)).1,
    fun segment member => (plain segment (listed _ member)).2, fun empty => ?_⟩, ?_, ?_⟩
  · have loud := List.head?_dropWhile_not isIdle left
    rw [empty] at loud
    cases loud
  · rw [relativeTo, stripBase?, here.components_eq]
    simp only [starts, if_true, anchor, count, ofParts, Anchor.chars, List.nil_append]
    rfl
  · rw [spoken_dropWhile, spoken_dropSegments, spoken_dropLastWhile, written, List.map_drop]

include here there in
/-- The way to any other directory goes up to the last one in common and down from
there. -/
theorem relativeTo_beside (apart : ¬base.components <+: other.components) :
    let common := commonLength (base.place.map .name) (other.place.map .name)
    ∃ segments, IsRelative segments ∧
      other.relativeTo base =
        storedText ⟨String.ofList (['/'].intercalate segments)⟩ ∧
      spoken segments =
        List.replicate (base.place.length - common) .parent ++
          (other.place.drop common).map Component.name := by
  intro common
  let ups := List.replicate (base.place.length - common) ".."
  let downs := other.place.drop common
  have named : ∀ name ∈ downs, IsName name := fun name member =>
    other.isPlain_place name (List.mem_of_mem_drop member)
  have either (name : String) (member : name ∈ ups ++ downs) :
      name = ".." ∨ name ∈ other.place := by
    rcases List.mem_append.mp member with up | down
    · exact Or.inl (List.eq_of_mem_replicate up)
    · exact Or.inr (List.mem_of_mem_drop down)
  refine ⟨(ups ++ downs).map String.toList, ⟨?_, ?_, ?_⟩, ?_, ?_⟩
  · rw [List.forall_mem_map]
    intro name member
    rcases either name member with rfl | known
    · simp
    · exact (other.isPlain_place name known).whole
  · rw [List.forall_mem_map]
    intro name member
    rcases either name member with rfl | known
    · simp
    · exact there.stored_place name known
  · intro first
    obtain ⟨name, member, empty⟩ := List.mem_map.mp (List.mem_of_head? first)
    rcases either name member with rfl | known
    · cases empty
    · exact (other.isPlain_place name known).filled (by simpa using empty)
  · have none : other.stripBase? base = none := by
      rw [stripBase?, here.components_eq]
      refine if_neg fun starts => apart ?_
      rw [here.components_eq]
      exact List.isPrefixOf_iff_prefix.mp starts
    have drop (items : Location) :
        (Component.root :: items.map Component.name).drop (common + 1) =
          (items.drop common).map Component.name := by
      rw [List.drop_succ_cons, List.map_drop]
    have upward : ((base.place.drop common).map Component.name).map (fun _ => "..") =
        ups := by
      rw [List.map_const', List.length_map, List.length_drop]
    have downward : (((other.place.drop common).map Component.name).filter
        Component.isName).map Component.text = downs := by
      rw [List.filter_eq_self.mpr (List.forall_mem_map.mpr fun _ _ => rfl), List.map_map]
      exact List.map_id _
    have both : commonLength base.components other.components = common + 1 := by
      rw [here.components_eq, there.components_eq, commonLength, if_pos rfl]
    have spelled : "/".intercalate (ups ++ downs) =
        String.ofList (['/'].intercalate ((ups ++ downs).map String.toList)) :=
      String.toList_inj.mp (by simp)
    simp only [relativeTo, none, both]
    rw [here.components_eq, there.components_eq, drop, drop, upward, downward, spelled]
  · rw [List.map_append, spoken_append, Location.spoken_names named, List.map_replicate]
    congr 1
    rw [spoken, List.filter_replicate, if_pos (by decide), List.map_replicate]
    rfl

include here there in
/-- The way from one directory to another is spelled by segments that go up to the
last directory in common and down from there. -/
theorem relativeTo_spelled :
    let common := commonLength (base.place.map .name) (other.place.map .name)
    ∃ segments, IsRelative segments ∧
      other.relativeTo base =
        storedText ⟨String.ofList (['/'].intercalate segments)⟩ ∧
      spoken segments =
        List.replicate (base.place.length - common) .parent ++
          (other.place.drop common).map Component.name := by
  intro common
  by_cases below : base.components <+: other.components
  · obtain ⟨segments, relative, spelled, said⟩ := relativeTo_below here there below
    rw [here.components_eq, there.components_eq, List.cons_prefix_cons] at below
    have all : common = base.place.length :=
      (commonLength_eq_length below.2).trans (List.length_map _)
    refine ⟨segments, relative, spelled, ?_⟩
    rw [said, all, Nat.sub_self]
    rfl
  · exact relativeTo_beside here there below

include here there in
/-- The way from one directory to another leads there. -/
theorem place_join_relativeTo :
    (base.join ⟨other.relativeTo base⟩).place = other.place := by
  obtain ⟨segments, relative, spelled, said⟩ := relativeTo_spelled here there
  obtain ⟨free, read⟩ := relative.read
  rw [← spelled] at free read
  have least := commonLength_le (base.place.map .name) (other.place.map .name)
  have same := take_commonLength (base.place.map .name) (other.place.map .name)
  rw [← List.map_take, ← List.map_take,
    List.map_inj_right fun _ _ => Component.name.inj] at same
  rw [List.length_map] at least
  rw [place_join here.absolute free, read, said, List.foldl_append, foldl_parents,
    Location.foldl_names, Nat.sub_sub_self least, same, List.take_append_drop]

include here there in
/-- Cleaned, the way from one directory to another is the path of the other. -/
theorem clean_join_relativeTo :
    (base.join ⟨other.relativeTo base⟩).clean = other.place.path := by
  obtain ⟨segments, relative, spelled, -⟩ := relativeTo_spelled here there
  have free := relative.read.1
  rw [← spelled] at free
  rw [clean_of_absolute (isAbsolute_join here.absolute free),
    place_join_relativeTo here there]

end

/-- The place of a straight path is spelled by a path that is the same. -/
theorem IsStraight.sameAs_place (straight : path.IsStraight) :
    path.place.path.sameAs path := by
  rw [sameAs, beq_iff_eq, straight.components_eq,
    Location.components_path path.isPlain_place]

end Path

end PackageLayers

/-
Purpose: The location that a path names, whatever the files hold.
Main exports: Path.place, Files.place_of_locate, Location.place_path,
  Files.canonical_place
-/
import Mathlib.Data.Bool.AllAny
import Mathlib.Data.List.Induction
import PackageLayers.Proofs.Files.Overwriting

namespace PackageLayers

/-!
Where there are no links, a path names one location: `.` stays, `..` goes up and
a name goes down.  A path that is followed leads there, if it leads anywhere, so
two paths with the same components never lead to different files.  The canonical
path of a location has the names of the location as its components, and can be
told from the canonical path of any other.
-/

/-- A mark that stands between two lists stands between their pieces. -/
theorem Text.splitAt_marked {α : Type} {p : α → Bool} {mark : α} (marks : p mark)
    (first second : List α) :
    splitAt p (first ++ mark :: second) = splitAt p first ++ splitAt p second := by
  induction first with
  | nil => simp [splitAt, marks]
  | cons item first inductionHypothesis =>
      rw [List.cons_append, splitAt, splitAt, inductionHypothesis]
      split
      · rfl
      · cases pieces : splitAt p first with
        | nil => exact absurd pieces (splitAt_ne_nil first)
        | cons piece rest => rfl

theorem Text.head_of_empty_piece {α : Type} {p : α → Bool} {items : List α}
    {later : List (List α)} (pieces : splitAt p items = [] :: later) :
    items = [] ∨ ∃ item rest, items = item :: rest ∧ p item := by
  cases items with
  | nil => exact Or.inl rfl
  | cons item rest =>
      rw [splitAt] at pieces
      split at pieces
      · exact Or.inr ⟨item, rest, rfl, ‹_›⟩
      · split at pieces <;> cases pieces

/-! ### Names -/

/-- Whether a text names an entry of a directory. -/
structure IsName (text : String) : Prop where
  filled : text ≠ ""
  notHere : text ≠ "."
  notUp : text ≠ ".."
  whole : ∀ c ∈ text.toList, (c == '/') = false

instance : DecidablePred IsName := fun text =>
  decidable_of_iff
    (text ≠ "" ∧ text ≠ "." ∧ text ≠ ".." ∧
      text.toList.all fun c => (c == '/') = false)
    ⟨fun ⟨filled, notHere, notUp, whole⟩ =>
      ⟨filled, notHere, notUp, List.all_iff_forall_prop.mp whole⟩,
     fun named => ⟨named.filled, named.notHere, named.notUp,
      List.all_iff_forall_prop.mpr named.whole⟩⟩

theorem isIdle_of_name {name : String} (named : IsName name) :
    Path.isIdle name.toList = false := by
  have filled := named.filled
  have notHere := named.notHere
  simp only [Path.isIdle, Bool.or_eq_false_iff, beq_eq_false_iff_ne, ne_eq]
  exact ⟨fun empty => filled (by simpa using empty),
    fun here => notHere (String.toList_inj.mp here)⟩

theorem ofSegment_of_name {name : String} (named : IsName name) :
    Path.ofSegment name.toList = .name name := by
  have notUp := named.notUp
  have other : name.toList ≠ ['.', '.'] := fun up =>
    notUp (String.toList_inj.mp up)
  rw [Path.ofSegment, if_neg other, String.ofList_toList]

/-- Whether a location consists of names. -/
def Location.IsPlain (location : Location) : Prop :=
  ∀ name ∈ location, IsName name

/-! ### Places -/

/-- The location that a component leads to from another. -/
def Component.lead (here : Location) : Component → Location
  | .root => []
  | .here => here
  | .parent => here.dropLast
  | .name text => here ++ [text]

/-- The location that a step leads to from another. -/
def Location.step (here : Location) (step : String) : Location :=
  if step = "." then here
  else if step = ".." then here.dropLast
  else here ++ [step]

namespace Path

/-- The location that a path names. -/
def place (path : Path) : Location :=
  path.components.foldl Component.lead []

theorem place_of_sameAs {left right : Path} (same : left.sameAs right) :
    left.place = right.place := by
  rw [sameAs, beq_iff_eq] at same
  rw [place, place, same]

/-- The components that segments write. -/
def spoken (segments : List (List Char)) : List Component :=
  (segments.filter fun segment => !isIdle segment).map ofSegment

theorem spoken_append (first second : List (List Char)) :
    spoken (first ++ second) = spoken first ++ spoken second := by
  rw [spoken, List.filter_append, List.map_append]
  rfl

theorem spoken_of_idle {segments : List (List Char)}
    (idle : ∀ segment ∈ segments, isIdle segment) : spoken segments = [] := by
  rw [spoken, List.filter_eq_nil_iff.mpr, List.map_nil]
  simpa using idle

theorem spoken_dropLastWhile (segments : List (List Char)) :
    spoken (dropLastWhile isIdle segments) = spoken segments := by
  obtain ⟨dropped, whole, idle⟩ := dropLastWhile_append isIdle segments
  conv_rhs => rw [whole, spoken_append, spoken_of_idle idle, List.append_nil]

theorem components_rooted {path : Path} {chars : List Char}
    (rooted : path.text.toList = '/' :: chars) :
    path.components = .root :: spoken (rootedSegments chars) := by
  rw [components, parts_rooted rooted]
  rfl

/-- What the anchor of a spelling says about its characters. -/
theorem chars_of_anchor (chars : List Char) :
    anchorOf chars = .none ∨
      (anchorOf chars = .root ∧ ∃ rest, chars = '/' :: rest) ∨
      (anchorOf chars = .here ∧
        (chars = ['.'] ∨ ∃ rest, chars = '.' :: '/' :: rest)) := by
  rw [anchorOf.eq_def]
  split
  · exact Or.inr (Or.inl ⟨rfl, _, rfl⟩)
  · exact Or.inr (Or.inr ⟨rfl, Or.inl rfl⟩)
  · exact Or.inr (Or.inr ⟨rfl, Or.inr ⟨_, rfl⟩⟩)
  · exact Or.inl rfl

theorem parts_anchor (path : Path) :
    path.parts.anchor = anchorOf path.text.toList := rfl

/-- The piece of a spelling that its anchor is says nothing, so all pieces say what
the pieces behind the anchor say. -/
theorem components_eq (path : Path) :
    path.components =
      path.parts.anchor.components ++ spoken (rootedSegments path.text.toList) := by
  change (anchorOf path.text.toList).components ++
      spoken (rootedSegments
        (path.text.toList.drop (anchorOf path.text.toList).chars.length)) =
    (anchorOf path.text.toList).components ++ _
  rw [List.append_right_inj]
  rcases chars_of_anchor path.text.toList with
    none | ⟨root, rest, chars⟩ | ⟨here, chars | ⟨rest, chars⟩⟩
  · rw [none]
    rfl
  · rw [root, chars]
    rfl
  · rw [here, chars]
    rfl
  · rw [here, chars]
    rfl

/-- Steps lead where the components lead that the same segments write. -/
theorem foldl_followed (segments : List (List Char)) (here : Location) :
    (followed segments).foldl Location.step here =
      (spoken segments).foldl Component.lead here := by
  induction segments generalizing here with
  | nil => rfl
  | cons segment segments inductionHypothesis =>
      by_cases empty : segment = []
      · subst empty
        exact inductionHypothesis here
      by_cases stays : segment = ['.']
      · subst stays
        exact inductionHypothesis here
      have loud : isIdle segment = false := by simp [isIdle, empty, stays]
      have first : followed (segment :: segments) =
          String.ofList segment :: followed segments := by
        simp [followed, empty]
      have same : spoken (segment :: segments) =
          ofSegment segment :: spoken segments := by
        simp [spoken, loud]
      rw [first, same, List.foldl_cons, List.foldl_cons, inductionHypothesis]
      congr 1
      have notHere : String.ofList segment ≠ "." := fun here =>
        stays (by simpa using congrArg String.toList here)
      rw [Location.step, if_neg notHere, ofSegment]
      by_cases up : segment = ['.', '.']
      · rw [if_pos up, up]
        rfl
      · rw [if_neg up, if_neg fun up' =>
          up (by simpa using congrArg String.toList up')]
        rfl

theorem place_rooted {path : Path} {chars : List Char}
    (rooted : path.text.toList = '/' :: chars) :
    path.steps.foldl Location.step [] = path.place := by
  rw [steps_rooted rooted, List.foldl_append, foldl_followed, place,
    components_rooted rooted]
  split <;> rfl

theorem rooted_of_absolute {path : Path} (absolute : path.isAbsolute) :
    ∃ chars, path.text.toList = '/' :: chars := by
  rw [isAbsolute, beq_iff_eq] at absolute
  exact List.head?_eq_some_iff.mp absolute

theorem isName_of_segment {segments : List (List Char)}
    (plain : ∀ segment ∈ segments, ∀ c ∈ segment, (c == '/') = false)
    {name : String} (member : Component.name name ∈ spoken segments) :
    IsName name := by
  rw [spoken, List.mem_map] at member
  obtain ⟨segment, kept, same⟩ := member
  obtain ⟨listed, loud⟩ := List.mem_filter.mp kept
  rw [ofSegment] at same
  split at same
  · cases same
  · rename_i notUp
    cases same
    simp only [isIdle, Bool.not_or, Bool.and_eq_true, Bool.not_eq_true',
      beq_eq_false_iff_ne, ne_eq] at loud
    exact
      { filled := fun empty =>
          loud.1 (by simpa using congrArg String.toList empty)
        notHere := fun here =>
          loud.2 (by simpa using congrArg String.toList here)
        notUp := fun up => notUp (by simpa using congrArg String.toList up)
        whole := by simpa using plain segment listed }

theorem isName_of_component {path : Path} {name : String}
    (member : Component.name name ∈ path.components) : IsName name := by
  rw [components, List.mem_append] at member
  rcases member with anchor | later
  · cases kind : path.parts.anchor <;> rw [kind] at anchor <;>
      simp [Anchor.components] at anchor
  · exact isName_of_segment (fun _ => Text.plain_of_splitAt) later

/-- A place consists of names. -/
theorem isPlain_place (path : Path) : path.place.IsPlain := by
  have leads (components : List Component)
      (known : ∀ name, Component.name name ∈ components → IsName name)
      (here : Location) (plain : here.IsPlain) :
      Location.IsPlain (components.foldl Component.lead here) := by
    induction components generalizing here with
    | nil => exact plain
    | cons component components inductionHypothesis =>
        refine inductionHypothesis
          (fun name member => known name (List.mem_cons_of_mem _ member)) _ ?_
        cases component with
        | root => exact fun name member => absurd member List.not_mem_nil
        | here => exact plain
        | parent => exact fun name member => plain name (List.dropLast_subset _ member)
        | name text =>
            intro name member
            rcases List.mem_append.mp member with old | new
            · exact plain name old
            · rw [List.mem_singleton.mp new]
              exact known text List.mem_cons_self
  exact leads _ (fun _ => isName_of_component) []
    fun name member => absurd member List.not_mem_nil

end Path

/-! ### Canonical paths -/

namespace Location

variable {location other : Location}

theorem path_rooted (location : Location) :
    location.path.text.toList =
      '/' :: ['/'].intercalate (location.map String.toList) := by
  simp [path]

theorem rootedSegments_path (plain : location.IsPlain) (filled : location ≠ []) :
    Path.rootedSegments (['/'].intercalate (location.map String.toList)) =
      location.map String.toList := by
  refine Text.splitAt_intercalate (by simpa using filled) (by rfl) ?_
  simp only [List.mem_map, forall_exists_index, and_imp, forall_apply_eq_imp_iff₂]
  exact fun name member => (plain name member).whole

/-- Names are segments that say themselves. -/
theorem spoken_names (plain : location.IsPlain) :
    Path.spoken (location.map String.toList) = location.map Component.name := by
  rw [Path.spoken, List.filter_eq_self.mpr, List.map_map]
  · exact List.map_congr_left fun name member => ofSegment_of_name (plain name member)
  · simp only [List.mem_map, forall_exists_index, and_imp, forall_apply_eq_imp_iff₂,
      Bool.not_eq_true']
    exact fun name member => isIdle_of_name (plain name member)

/-- The components of a canonical path are the names of its location. -/
theorem components_path (plain : location.IsPlain) :
    location.path.components = .root :: location.map .name := by
  rw [Path.components_rooted location.path_rooted]
  by_cases filled : location = []
  · subst filled
    rfl
  · rw [rootedSegments_path plain filled, spoken_names plain]

theorem foldl_names (names here : Location) :
    (names.map Component.name).foldl Component.lead here = here ++ names := by
  induction names generalizing here with
  | nil => simp
  | cons name names inductionHypothesis =>
      rw [List.map_cons, List.foldl_cons, inductionHypothesis]
      simp [Component.lead]

@[simp] theorem place_path (plain : location.IsPlain) :
    location.path.place = location := by
  rw [Path.place, components_path plain, List.foldl_cons, foldl_names]
  rfl

/-- Canonical paths that are the same path are of the same location. -/
theorem eq_of_sameAs (plain : location.IsPlain) (plainOther : other.IsPlain)
    (same : location.path.sameAs other.path) : location = other := by
  rw [← place_path plain, ← place_path plainOther, Path.place_of_sameAs same]

theorem isAbsolute_path (location : Location) : location.path.isAbsolute := by
  rw [Path.isAbsolute, path_rooted]
  rfl

end Location

namespace Path

theorem isAbsolute_name {name : String} (named : IsName name) :
    (⟨name⟩ : Path).isAbsolute = false := by
  rw [isAbsolute, beq_eq_false_iff_ne]
  intro head
  obtain ⟨rest, starts⟩ := List.head?_eq_some_iff.mp head
  have slash := named.whole '/' (by rw [starts]; exact List.mem_cons_self)
  cases slash

theorem filled_of_absolute {path : Path} (absolute : path.isAbsolute) :
    path.text ≠ "" := by
  obtain ⟨chars, rooted⟩ := rooted_of_absolute absolute
  intro empty
  rw [empty] at rooted
  cases rooted

theorem join_chars {path other : Path} (filled : path.text ≠ "")
    (relative : other.isAbsolute = false) :
    (path.join other).text.toList =
      if path.text.toList.getLast? = some '/' then
        path.text.toList ++ other.text.toList
      else path.text.toList ++ '/' :: other.text.toList := by
  rw [join, relative, String.isEmpty_eq_false_iff.mpr filled]
  simp only [Bool.or_self, Bool.false_eq_true, if_false]
  split <;> simp

theorem child_chars {path : Path} {name : String} (absolute : path.isAbsolute)
    (named : IsName name) :
    (path.child name).text.toList =
      if path.text.toList.getLast? = some '/' then
        path.text.toList ++ name.toList
      else path.text.toList ++ '/' :: name.toList :=
  join_chars (filled_of_absolute absolute) (isAbsolute_name named)

/-- A path followed by a name ends as the name does. -/
theorem getLast_child {path : Path} {name : String} {last : Char}
    (ends : name.toList.getLast? = some last) :
    (path.child name).text.toList.getLast? = some last := by
  rw [child, join]
  split
  · exact ends
  · split <;> simp [List.getLast?_cons, ends]

theorem absolute_of_child {path : Path} {name : String} (named : IsName name)
    (absolute : (path.child name).isAbsolute) : path.isAbsolute := by
  have relative : (⟨name⟩ : Path).isAbsolute = false := isAbsolute_name named
  rw [child, join, relative, Bool.false_or] at absolute
  split at absolute
  · rw [relative] at absolute
    cases absolute
  · rename_i filled
    have starts : path.text.toList ≠ [] := by simpa using filled
    rw [isAbsolute, beq_iff_eq] at absolute ⊢
    obtain ⟨c, rest, text⟩ := List.exists_cons_of_ne_nil starts
    split at absolute <;>
      simpa only [String.toList_append, text, List.cons_append, List.head?_cons]
        using absolute

/-- A name after an absolute path is its last segment. -/
theorem rootedSegments_child {path : Path} {name : String}
    (absolute : path.isAbsolute) (named : IsName name) :
    ∃ chars front, (path.child name).text.toList = '/' :: chars ∧
      rootedSegments chars = front ++ [name.toList] := by
  obtain ⟨chars, rooted⟩ := rooted_of_absolute absolute
  have single : Text.splitAt (· == '/') name.toList = [name.toList] :=
    Text.splitAt_of_plain named.whole
  have text := child_chars absolute named
  rw [rooted] at text
  split at text
  · rename_i slash
    cases chars using List.reverseRecOn with
    | nil => exact ⟨_, [], text, single⟩
    | append_singleton front last =>
        rw [← List.cons_append, List.getLast?_concat] at slash
        cases slash
        refine ⟨_, Text.splitAt (· == '/') front, text, ?_⟩
        change Text.splitAt _ (front ++ ['/'] ++ name.toList) = _
        rw [List.append_assoc, List.singleton_append,
          Text.splitAt_marked (by rfl), single]
  · refine ⟨_, Text.splitAt (· == '/') chars, text, ?_⟩
    change Text.splitAt _ (chars ++ '/' :: name.toList) = _
    rw [Text.splitAt_marked (by rfl), single]

/-- What is put behind a spelling leaves its anchor as it is, if a slash stands in
between. -/
theorem anchorOf_append {chars rest : List Char} (filled : chars ≠ [])
    (marked : chars.getLast? = some '/' ∨ rest.head? = some '/') :
    anchorOf (chars ++ rest) = anchorOf chars := by
  rcases chars with _ | ⟨c, _ | ⟨d, more⟩⟩
  · exact absurd rfl filled
  · rcases marked with slash | slash
    · cases slash
      rfl
    · obtain ⟨rest, rfl⟩ := List.head?_eq_some_iff.mp slash
      simp only [List.singleton_append, anchorOf.eq_def]
      split <;> simp_all
  · simp only [List.cons_append, anchorOf.eq_def]
    split <;> simp_all

/-- A relative path after a filled one says what its segments say. -/
theorem components_join {path other : Path} (filled : path.text ≠ "")
    (relative : other.isAbsolute = false) :
    (path.join other).components =
      path.components ++ spoken (rootedSegments other.text.toList) := by
  have text := join_chars filled relative
  have starts : path.text.toList ≠ [] := by simpa using filled
  have anchor : (path.join other).parts.anchor = path.parts.anchor := by
    rw [parts_anchor, parts_anchor, text]
    split
    · exact anchorOf_append starts (Or.inl ‹_›)
    · exact anchorOf_append starts (Or.inr rfl)
  rw [components_eq (path.join other), components_eq path, anchor,
    List.append_assoc, List.append_right_inj, text]
  split
  · rename_i slash
    cases chars : path.text.toList using List.reverseRecOn with
    | nil => exact absurd chars starts
    | append_singleton front last =>
        rw [chars, List.getLast?_concat] at slash
        cases slash
        rw [List.append_assoc, List.singleton_append, rootedSegments,
          rootedSegments, Text.splitAt_marked (by rfl),
          Text.splitAt_marked (by rfl), spoken_append, spoken_append,
          List.append_assoc]
        rfl
  · rw [rootedSegments, Text.splitAt_marked (by rfl), spoken_append]
    rfl

/-- A name is a path of one component. -/
theorem components_name {name : String} (named : IsName name) :
    (⟨name⟩ : Path).components = [.name name] := by
  have anchor : anchorOf name.toList = .none := by
    rw [anchorOf.eq_def]
    split
    · rename_i chars
      cases named.whole '/' (by rw [chars]; exact List.mem_cons_self)
    · rename_i chars
      exact absurd (String.toList_inj.mp chars) named.notHere
    · rename_i chars
      cases named.whole '/' (by rw [chars]; exact List.mem_cons_of_mem _ List.mem_cons_self)
    · rfl
  rw [components, parts, anchor]
  simp only [Anchor.components, Anchor.chars, List.nil_append, List.length_nil,
    List.drop_zero, Text.splitAt_of_plain named.whole]
  simp [isIdle_of_name named, ofSegment_of_name named]

/-- A name after a path is one more component. -/
theorem components_child (path : Path) {name : String} (named : IsName name) :
    (path.child name).components = path.components ++ [.name name] := by
  by_cases empty : path.text = ""
  · have alone : path.child name = ⟨name⟩ := by
      rw [child, join, empty, if_pos (by simp)]
    obtain rfl : path = ⟨""⟩ := congrArg Path.mk empty
    rw [alone, components_name named]
    rfl
  · have single : spoken (rootedSegments name.toList) = [.name name] := by
      rw [rootedSegments, Text.splitAt_of_plain named.whole, spoken]
      simp [isIdle_of_name named, ofSegment_of_name named]
    rw [child, components_join empty (isAbsolute_name named), single]

theorem place_child (path : Path) {name : String} (named : IsName name) :
    (path.child name).place = path.place ++ [name] := by
  rw [place, components_child path named, List.foldl_append]
  rfl

theorem prefix_of_dropLastWhile {α : Type} (p : α → Bool) (items : List α) :
    dropLastWhile p items <+: items := by
  obtain ⟨dropped, whole, -⟩ := dropLastWhile_append p items
  exact ⟨dropped, whole.symm⟩

theorem isAbsolute_iff {path : Path} :
    path.isAbsolute ↔ path.parts.anchor = .root := by
  rw [isAbsolute, parts, beq_iff_eq]
  simp only
  cases path.text.toList with
  | nil => simp [anchorOf]
  | cons c chars =>
      by_cases slash : c = '/'
      · subst slash
        simp [anchorOf]
      · simp only [List.head?_cons, Option.some.injEq, slash, false_iff]
        rw [anchorOf.eq_def]
        split <;> simp_all

theorem anchorless {path : Path} (anchor : path.parts.anchor = .none) :
    anchorOf path.text.toList = .none := anchor

/-- A path with a parent and a name is the name in the parent. -/
theorem components_of_parent {path parent : Path} {name : String}
    (absolute : path.isAbsolute) (up : path.parent? = some parent)
    (named : path.fileName? = some name) :
    parent.isAbsolute ∧ path.components = parent.components ++ [.name name] := by
  obtain ⟨chars, rooted⟩ := rooted_of_absolute absolute
  rw [parent?, parts_rooted rooted] at up
  rw [fileName?, components_rooted rooted] at named
  rw [components_rooted rooted]
  have loud := getLast_dropLastWhile isIdle (rootedSegments chars)
  rw [← spoken_dropLastWhile] at named ⊢
  have plain : ∀ segment ∈ dropLastWhile isIdle (rootedSegments chars),
      ∀ c ∈ segment, (c == '/') = false := fun segment member =>
    plain_of_rootedSegments segment
      ((prefix_of_dropLastWhile isIdle (rootedSegments chars)).subset member)
  cases kept : dropLastWhile isIdle (rootedSegments chars) using
    List.reverseRecOn with
  | nil =>
      rw [kept] at up
      cases up
  | append_singleton front last _ =>
      rw [kept] at up named loud plain
      have inner : parent =
          ofParts ⟨.root, dropLastWhile isIdle front⟩ := by
        cases front with
        | nil =>
            cases up
            rfl
        | cons first front =>
            simp only [List.cons_append] at up
            rw [← List.cons_append, List.dropLast_concat] at up
            exact (Option.some.inj up).symm
      have single : spoken [last] = [ofSegment last] := by
        have loudLast := loud last List.getLast?_concat
        simp [spoken, loudLast]
      have text : parent.text.toList =
          '/' :: ['/'].intercalate (dropLastWhile isIdle front) := by
        simp [inner, ofParts, Anchor.chars]
      have components : parent.components = .root :: spoken front := by
        rw [components_rooted text, rootedSegments, ← spoken_dropLastWhile front]
        by_cases empty : dropLastWhile isIdle front = []
        · rw [empty]
          rfl
        · rw [Text.splitAt_intercalate empty (by rfl) fun segment member =>
            plain segment (List.mem_append_left _
              ((prefix_of_dropLastWhile isIdle front).subset member))]
      rw [spoken_append, single, ← List.cons_append, List.getLast?_concat] at named
      refine ⟨by rw [inner]; exact isAbsolute_ofParts _, ?_⟩
      rw [components, spoken_append, single, List.cons_append]
      split at named
      · rename_i same
        cases named
        rw [Option.some.inj same]
      · cases named

theorem place_of_parent {path parent : Path} {name : String}
    (absolute : path.isAbsolute) (up : path.parent? = some parent)
    (named : path.fileName? = some name) :
    path.place = parent.place ++ [name] := by
  rw [place, (components_of_parent absolute up named).2, List.foldl_append]
  rfl

/-- A path whose parent starts from the root starts from the root. -/
theorem absolute_of_parent {path parent : Path}
    (up : path.parent? = some parent) (absolute : parent.isAbsolute) :
    path.isAbsolute := by
  rw [isAbsolute_iff]
  rw [isAbsolute, beq_iff_eq] at absolute
  cases anchor : path.parts.anchor with
  | root => rfl
  | here =>
      rw [parent?, anchor] at up
      split at up <;> cases up
      · cases absolute
      · simp [ofParts, Anchor.chars] at absolute
  | none =>
      rw [parent?] at up
      split at up
      · rw [anchor] at up
        cases up
      · rename_i segment rest kept
        cases up
        have inner : dropLastWhile isIdle (segment :: rest).dropLast <+:
            path.parts.segments :=
          (prefix_of_dropLastWhile _ _).trans
            (( List.dropLast_prefix _).trans (kept ▸ prefix_of_dropLastWhile _ _))
        simp only [ofParts, anchor, Anchor.chars, List.nil_append,
          String.toList_ofList] at absolute
        cases front : dropLastWhile isIdle (segment :: rest).dropLast with
        | nil =>
            rw [front] at absolute
            cases absolute
        | cons first more =>
            rw [front] at inner absolute
            obtain ⟨later, whole⟩ := inner
            have listed : first ∈ path.parts.segments := by simp [← whole]
            cases first with
            | nil =>
                -- a path that starts with an empty segment is empty or rooted
                exfalso
                have pieces : Text.splitAt (· == '/') path.text.toList =
                    [] :: (more ++ later) := by
                  rw [← List.cons_append, whole, parts, anchorless anchor]
                  rfl
                rcases Text.head_of_empty_piece pieces with empty | ⟨c, rest, head, slash⟩
                · have single : path.parts.segments = [[]] := by
                    rw [parts, anchorless anchor, empty]
                    rfl
                  rw [single] at kept
                  cases kept
                · rw [beq_iff_eq] at slash
                  have rooted : path.isAbsolute := by
                    rw [isAbsolute, head, slash]
                    rfl
                  rw [isAbsolute_iff, anchor] at rooted
                  cases rooted
            | cons c first =>
                have head : (['/'].intercalate ((c :: first) :: more)).head? =
                    some c := by
                  cases more <;> simp
                rw [head] at absolute
                have plain := Text.plain_of_splitAt listed c List.mem_cons_self
                cases absolute
                cases plain

end Path

/-! ### Where paths lead -/

namespace Location

variable {location : Location} {name : String}

theorem intercalate_concat (names : List (List Char)) (name : List Char)
    (filled : names ≠ []) :
    ['/'].intercalate (names ++ [name]) = ['/'].intercalate names ++ '/' :: name := by
  induction names with
  | nil => exact absurd rfl filled
  | cons first names inductionHypothesis =>
      cases names with
      | nil => simp
      | cons next names =>
          have later := inductionHypothesis (List.cons_ne_nil _ _)
          simp only [List.cons_append] at later
          simp only [List.cons_append, List.intercalate_cons_cons, later,
            List.append_assoc]

/-- No name ends in a slash, so no canonical path does but that of the root. -/
theorem getLast_path (plain : location.IsPlain) (filled : location ≠ []) :
    location.path.text.toList.getLast? ≠ some '/' := by
  obtain ⟨front, last, rfl⟩ :=
    (List.eq_nil_or_concat location).resolve_left filled
  rw [List.concat_eq_append] at plain ⊢
  have named := plain last (by simp)
  have ends : ∃ before, (Location.path (front ++ [last])).text.toList =
      before ++ last.toList := by
    rw [path_rooted, List.map_append]
    by_cases root : front.map String.toList = []
    · exact ⟨['/'], by simp [root]⟩
    · refine ⟨'/' :: (['/'].intercalate (front.map String.toList) ++ ['/']), ?_⟩
      rw [List.map_singleton, intercalate_concat _ _ root]
      simp
  obtain ⟨before, text⟩ := ends
  have ended : last.toList.getLast?.isSome := by
    simpa using named.filled
  obtain ⟨c, lastChar⟩ := Option.isSome_iff_exists.mp ended
  rw [text, List.getLast?_append, lastChar]
  rintro ⟨⟩
  have slash := named.whole '/' (List.mem_of_getLast? lastChar)
  cases slash

/-- The canonical path of a name in a directory. -/
theorem child_path (plain : location.IsPlain) (named : IsName name) :
    location.path.child name = Location.path (location ++ [name]) := by
  have same : (location.path.child name).text.toList =
      (Location.path (location ++ [name])).text.toList := by
    rw [Path.child_chars location.isAbsolute_path named]
    by_cases root : location = []
    · subst root
      simp [path]
    · have filled : location.map String.toList ≠ [] := by simpa using root
      rw [if_neg (getLast_path plain root), path_rooted, path_rooted,
        List.map_append, List.map_singleton, intercalate_concat _ _ filled]
      rfl
  exact congrArg Path.mk (String.toList_inj.mp same)

end Location

namespace Files

variable {files : Files}

theorem place_of_follow {here there : Location} {steps : List String}
    (found : files.follow here steps = .ok there) :
    there = steps.foldl Location.step here := by
  induction steps generalizing here with
  | nil =>
      cases found
      rfl
  | cons step steps inductionHypothesis =>
      rw [follow] at found
      rw [List.foldl_cons, Location.step]
      split at found
      · cases found
      · split at found
        · rw [if_pos ‹_›]
          exact inductionHypothesis found
        · rw [if_neg ‹_›]
          split at found
          · rw [if_pos ‹_›]
            exact inductionHypothesis found
          · rw [if_neg ‹_›]
            split at found
            · exact inductionHypothesis found
            · cases found

/-- A path that leads somewhere leads to the place that it names. -/
theorem place_of_locate {path : Path} {location : Location}
    (located : files.locate path = .ok location) : location = path.place := by
  rw [locate] at located
  split at located
  · rename_i absolute
    obtain ⟨chars, rooted⟩ := Path.rooted_of_absolute absolute
    rw [← Path.place_rooted rooted]
    exact place_of_follow located
  · cases located

theorem absolute_of_locate {path : Path} {location : Location}
    (located : files.locate path = .ok location) : path.isAbsolute := by
  rw [locate] at located
  split at located
  · assumption
  · cases located

/-- The canonical path of a path is that of its place. -/
theorem canonical_place {path other : Path}
    (found : files.canonical path = .ok other) :
    path.isAbsolute ∧ other = path.place.path := by
  rw [canonical] at found
  split at found
  · rename_i location located
    cases found
    exact ⟨absolute_of_locate located, by rw [place_of_locate located]⟩
  · split at found
    · rename_i location name up named
      cases found
      obtain ⟨parent, above, located⟩ := Option.map_eq_some_iff.mp up
      have absolute :=
        Path.absolute_of_parent above (absolute_of_locate located)
      refine ⟨absolute, ?_⟩
      rw [Path.place_of_parent absolute above named, place_of_locate located]
      have plain := path.isPlain_place
      rw [Path.place_of_parent absolute above named] at plain
      exact Location.child_path parent.isPlain_place
        (plain name (List.mem_append_right _ (List.mem_singleton_self name)))
    · cases found

end Files

end PackageLayers

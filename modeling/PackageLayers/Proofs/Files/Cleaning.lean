/-
Purpose: Cleaned paths are the normal forms of paths.
Main exports: Path.Settled, Path.components_clean, Path.foldl_join,
  Path.IsNormal, Path.isNormal_iff, Path.clean_normalizes
-/
import PackageLayers.Proofs.Files.Directions

namespace PackageLayers.Path

/-!
To clean is to fold the components into a list that is kept last first, and to
spell what is left.  Such a list is settled: it goes on by names from the root, or
from some `..`.  A step leaves a list settled, a settled list is folded into
itself, and its spelling is read back as it is.  So a cleaned path stands for the
list that the path is folded into, and what is joined to it goes on from there.
-/

variable {path other : Path} {cleaned components : List Component}

/-! ### Settled lists -/

/-- Cleaned components, last first. -/
inductive Settled : List Component → Prop
  | root : Settled [.root]
  | ups (count : Nat) : Settled (List.replicate count .parent)
  | name {text : String} {cleaned : List Component} (named : IsName text)
      (before : Settled cleaned) : Settled (.name text :: cleaned)

theorem Settled.nil : Settled [] := .ups 0

/-- A step leaves a list settled.  The root is only met where nothing is before
it. -/
theorem Settled.step (settled : Settled cleaned) {component : Component}
    (named : ∀ text, component = .name text → IsName text)
    (first : component = .root → cleaned = []) :
    Settled (cleanStep cleaned component) := by
  cases component with
  | root =>
      rw [first rfl]
      exact .root
  | here => exact settled
  | parent =>
      cases settled with
      | root => exact .root
      | ups count =>
          cases count with
          | zero => exact .ups 1
          | succ count => exact .ups (count + 2)
      | name named before => exact before
  | name text => exact .name (named text rfl) settled

theorem Settled.foldl (settled : Settled cleaned)
    (named : ∀ text, .name text ∈ components → IsName text)
    (later : .root ∉ components) : Settled (components.foldl cleanStep cleaned) := by
  induction components generalizing cleaned with
  | nil => exact settled
  | cons component components inductionHypothesis =>
      rw [List.mem_cons, not_or] at later
      refine inductionHypothesis (settled.step ?_ ?_)
        (fun text member => named text (List.mem_cons_of_mem _ member)) later.2
      · rintro text rfl
        exact named text List.mem_cons_self
      · rintro rfl
        exact absurd rfl later.1

/-- What the components of a path are folded into is settled. -/
theorem settled_components (path : Path) :
    Settled (path.components.foldl cleanStep []) := by
  have anchored : Settled (path.parts.anchor.components.foldl cleanStep []) := by
    cases path.parts.anchor with
    | none => exact .nil
    | here => exact .nil
    | root => exact .root
  rw [components_eq, List.foldl_append]
  refine anchored.foldl (fun text member => ?_) (root_notMem_spoken _)
  have listed : .name text ∈ path.components := by
    rw [components_eq]
    exact List.mem_append_right _ member
  exact isName_of_component listed

/-- A settled list is folded into itself. -/
theorem Settled.foldl_reverse (settled : Settled cleaned) :
    cleaned.reverse.foldl cleanStep [] = cleaned := by
  induction settled with
  | root => rfl
  | ups count =>
      induction count with
      | zero => rfl
      | succ count inductionHypothesis =>
          rw [List.replicate_succ, List.reverse_cons, List.foldl_append,
            inductionHypothesis]
          cases count <;> rfl
  | name named before inductionHypothesis =>
      rw [List.reverse_cons, List.foldl_append, inductionHypothesis]
      rfl

/-- Whether a component is one of the segments of a path: `..` or a name. -/
def IsSegment (component : Component) : Prop :=
  component = .parent ∨ ∃ text, component = .name text ∧ IsName text

/-- A settled list is a place, or it has nothing but `..` and names. -/
theorem Settled.kinds (settled : Settled cleaned) :
    (∃ place : Location, place.IsPlain ∧
        cleaned.reverse = .root :: place.map Component.name) ∨
      ∀ component ∈ cleaned, IsSegment component := by
  induction settled with
  | root => exact Or.inl ⟨[], fun _ member => absurd member List.not_mem_nil, rfl⟩
  | ups count =>
      exact Or.inr fun component member => Or.inl (List.eq_of_mem_replicate member)
  | @name text cleaned named before inductionHypothesis =>
      rcases inductionHypothesis with ⟨place, plain, whole⟩ | relative
      · refine Or.inl ⟨place ++ [text], ?_, by simp [whole]⟩
        exact List.forall_mem_append.mpr ⟨plain, List.forall_mem_singleton.mpr named⟩
      · exact Or.inr (List.forall_mem_cons.mpr ⟨Or.inr ⟨text, rfl, named⟩, relative⟩)

/-! ### Spellings of settled lists -/

/-- The segments that components are written as. -/
def segmentsOf (components : List Component) : List (List Char) :=
  components.map fun component => component.text.toList

theorem written_segmentsOf (spelled : ∀ component ∈ components, IsSegment component) :
    ∀ segment ∈ segmentsOf components, isIdle segment = false ∧
      ∀ c ∈ segment, (c == '/') = false := by
  refine List.forall_mem_map.mpr fun component member => ?_
  rcases spelled component member with rfl | ⟨text, rfl, named⟩
  · exact ⟨rfl, by simp [Component.text]⟩
  · exact ⟨isIdle_of_name named, named.whole⟩

theorem spoken_segmentsOf (spelled : ∀ component ∈ components, IsSegment component) :
    spoken (segmentsOf components) = components := by
  have loud : ∀ segment ∈ segmentsOf components, !isIdle segment := by
    intro segment member
    rw [(written_segmentsOf spelled segment member).1]
    rfl
  rw [spoken, List.filter_eq_self.mpr loud, segmentsOf, List.map_map]
  refine (List.map_congr_left fun component member => ?_).trans (List.map_id _)
  rcases spelled component member with rfl | ⟨text, rfl, named⟩
  · rfl
  · exact ofSegment_of_name named

theorem chars_ofComponents (spelled : ∀ component ∈ components, IsSegment component) :
    (ofComponents components).text.toList =
      ['/'].intercalate (segmentsOf components) := by
  cases components with
  | nil => rfl
  | cons first rest =>
      rcases spelled first List.mem_cons_self with rfl | ⟨text, rfl, -⟩ <;>
        simp [ofComponents, segmentsOf, Component.text, Function.comp_def]

/-- A spelling has no anchor if its first piece says anything. -/
theorem anchorOf_loud {chars first : List Char} {rest : List (List Char)}
    (pieces : rootedSegments chars = first :: rest) (loud : isIdle first = false) :
    anchorOf chars = .none := by
  rcases chars_of_anchor chars with
    none | ⟨-, behind, same⟩ | ⟨-, same | ⟨behind, same⟩⟩
  · exact none
  all_goals
    rw [same] at pieces
    cases pieces
    cases loud

/-- What writes `..` and names is read back. -/
theorem components_ofComponents
    (spelled : ∀ component ∈ components, IsSegment component) :
    (ofComponents components).components = components := by
  have written := written_segmentsOf spelled
  have said := spoken_segmentsOf spelled
  rw [components_eq, parts_anchor, chars_ofComponents spelled]
  cases segments : segmentsOf components with
  | nil =>
      obtain rfl : components = [] := List.map_eq_nil_iff.mp segments
      rfl
  | cons first rest =>
      rw [segments] at written said
      have pieces : rootedSegments (['/'].intercalate (first :: rest)) = first :: rest :=
        Text.splitAt_intercalate (List.cons_ne_nil _ _) (by rfl)
          fun segment member => (written segment member).2
      rw [anchorOf_loud pieces (written first List.mem_cons_self).1, pieces, said]
      rfl

theorem Settled.components_ofComponents (settled : Settled cleaned) :
    (ofComponents cleaned.reverse).components = cleaned.reverse := by
  rcases settled.kinds with ⟨place, plain, whole⟩ | relative
  · have texts : place.map (Component.text ∘ Component.name) = place := List.map_id _
    rw [whole, ofComponents, List.map_map, texts]
    exact Location.components_path plain
  · refine Path.components_ofComponents fun component member => ?_
    exact relative component (List.mem_reverse.mp member)

/-- The components of a cleaned path. -/
theorem components_clean (path : Path) :
    path.clean.components = cleanComponents path.components :=
  (settled_components path).components_ofComponents

/-- A cleaned path is folded into what the path itself is folded into. -/
theorem foldl_clean (path : Path) :
    path.clean.components.foldl cleanStep [] =
      path.components.foldl cleanStep [] := by
  rw [components_clean]
  exact (settled_components path).foldl_reverse

theorem clean_of_foldl
    (same : path.components.foldl cleanStep [] = other.components.foldl cleanStep []) :
    path.clean = other.clean := by
  rw [clean, clean, cleanComponents, cleanComponents, same]

/-- What is joined to a path goes on from what the path is folded into. -/
theorem foldl_join (path : Path) (relative : other.isAbsolute = false) :
    (path.join other).components.foldl cleanStep [] =
      (spoken (rootedSegments other.text.toList)).foldl cleanStep
        (path.components.foldl cleanStep []) := by
  by_cases empty : path.text = ""
  · obtain rfl : path = ⟨""⟩ := congrArg Path.mk empty
    have alone : (⟨""⟩ : Path).join other = other := by
      simp [join]
    rw [alone, components_eq, List.foldl_append]
    congr 1
    cases anchor : other.parts.anchor with
    | none => rfl
    | here => rfl
    | root =>
        rw [isAbsolute_iff.mpr anchor] at relative
        cases relative
  · rw [components_join empty relative, List.foldl_append]

/-! ### Normal forms -/

/-- Whether nothing is left to clean: there is no `.`, and `..` stands only at the
start, and not at all behind the root. -/
structure IsNormal (components : List Component) : Prop where
  noHere : .here ∉ components
  leading : ∃ count rest, components = List.replicate count .parent ++ rest ∧
    .parent ∉ rest
  rooted : .root ∈ components → .parent ∉ components

theorem Settled.isNormal (settled : Settled cleaned) : IsNormal cleaned.reverse := by
  induction settled with
  | root => exact ⟨by decide, ⟨0, [.root], rfl, by decide⟩, by decide⟩
  | ups count =>
      refine ⟨fun member => ?_, ⟨count, [], by simp, List.not_mem_nil⟩,
        fun member => ?_⟩ <;>
      cases List.eq_of_mem_replicate (List.mem_reverse.mp member)
  | name named before inductionHypothesis =>
      obtain ⟨count, rest, whole, down⟩ := inductionHypothesis.leading
      have noHere := inductionHypothesis.noHere
      have rooted := inductionHypothesis.rooted
      rw [List.reverse_cons]
      exact
        { noHere := by simpa using noHere
          leading := ⟨count, rest ++ [.name _], by rw [whole, List.append_assoc],
            by simpa using down⟩
          rooted := by simpa using rooted }

/-- Names that follow a settled list leave it settled. -/
theorem Settled.append_names (settled : Settled cleaned)
    (names : ∀ component ∈ components, ∃ text, component = .name text ∧ IsName text) :
    Settled (components.reverse ++ cleaned) := by
  induction components generalizing cleaned with
  | nil => exact settled
  | cons component components inductionHypothesis =>
      obtain ⟨⟨text, rfl, named⟩, later⟩ := List.forall_mem_cons.mp names
      rw [List.reverse_cons, List.append_assoc]
      exact inductionHypothesis (.name named settled) later

/-- In normal form there are only names besides the root and `..`. -/
theorem IsNormal.name (normal : IsNormal path.components) {component : Component}
    (listed : component ∈ path.components) (notRoot : component ≠ .root)
    (notParent : component ≠ .parent) :
    ∃ text, component = .name text ∧ IsName text := by
  cases component with
  | root => exact absurd rfl notRoot
  | here => exact absurd listed normal.noHere
  | parent => exact absurd rfl notParent
  | name text => exact ⟨text, rfl, isName_of_component listed⟩

/-- The components of a path in normal form are settled. -/
theorem IsNormal.settled (normal : IsNormal path.components) :
    Settled path.components.reverse := by
  have whole := components_eq path
  have rootless := root_notMem_spoken (rootedSegments path.text.toList)
  cases anchor : path.parts.anchor with
  | here =>
      rw [anchor] at whole
      exact absurd (by rw [whole]; exact List.mem_cons_self) normal.noHere
  | root =>
      -- behind the root there is nothing but names
      rw [anchor] at whole
      have down := normal.rooted (by rw [whole]; exact List.mem_cons_self)
      have names : ∀ component ∈ spoken (rootedSegments path.text.toList),
          ∃ text, component = .name text ∧ IsName text := by
        intro component member
        have listed : component ∈ path.components := by
          rw [whole]
          exact List.mem_cons_of_mem _ member
        exact normal.name listed (fun root => rootless (root ▸ member))
          fun parent => down (parent ▸ listed)
      rw [whole]
      simpa [Anchor.components] using Settled.root.append_names names
  | none =>
      -- behind the leading `..` there is nothing but names
      rw [anchor] at whole
      obtain ⟨count, rest, split, down⟩ := normal.leading
      have names : ∀ component ∈ rest, ∃ text, component = .name text ∧ IsName text := by
        intro component member
        have listed : component ∈ path.components := by
          rw [split]
          exact List.mem_append_right _ member
        refine normal.name listed (fun root => rootless ?_) fun parent =>
          down (parent ▸ member)
        rw [root, whole] at listed
        exact listed
      rw [split, List.reverse_append, List.reverse_replicate]
      exact (Settled.ups count).append_names names

/-- The normal forms are the paths that cleaning leaves as they are. -/
theorem isNormal_iff : IsNormal path.components ↔ path.clean.sameAs path := by
  rw [sameAs, beq_iff_eq, components_clean, cleanComponents]
  constructor
  · intro normal
    have folded := normal.settled.foldl_reverse
    rw [List.reverse_reverse] at folded
    rw [folded, List.reverse_reverse]
  · intro same
    rw [← same]
    exact (settled_components path).isNormal

/-- Cleaned again, a cleaned path stays as it is; it is in normal form, which only
the paths are that cleaning leaves as they are; and a path can be cleaned before
something is joined to it. -/
theorem clean_normalizes (path other : Path) :
    path.clean.clean = path.clean ∧
      IsNormal path.clean.components ∧
      (IsNormal path.components ↔ path.clean.sameAs path) ∧
      (path.join other).clean = (path.clean.join other).clean := by
  refine ⟨clean_of_foldl (foldl_clean path), ?_, isNormal_iff, ?_⟩
  · rw [components_clean]
    exact (settled_components path).isNormal
  · cases absolute : other.isAbsolute with
    | true => simp [join, absolute]
    | false =>
        refine clean_of_foldl ?_
        rw [foldl_join path absolute, foldl_join path.clean absolute, foldl_clean]

end PackageLayers.Path

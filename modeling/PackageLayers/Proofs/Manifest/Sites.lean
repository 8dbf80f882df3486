/-
Purpose: Places of a text where a fragment is read on its own.
Main exports: Spot, Spot.insertion, Spot.result_eq, Site, Site.seam
-/
import PackageLayers.Proofs.Manifest.Tokens
import PackageLayers.Proofs.Source.Cuts

namespace PackageLayers.Manifest

open Source (Cut Mode Insertion Insertable Apart JoinsAt asksAhead answersAhead
  asksBack answersBack byteLength)

/-!
A fragment that is put at a spot leaves the rest of the text as it was read
before, so the new text as it is read is the old one with an insertion.  At a site
there is nothing moreover that looks across the fragment, and all literals are
closed.
-/

/-- A text with a fragment put between two parts of it. -/
def joined (before : List Char) (fragment : Fragment) (after : List Char) :
    String :=
  String.ofList (before ++ fragment.chars ++ after)

/-- A place of a text at which a fragment is read on its own. -/
structure Spot (text : String) (fragment : Fragment) (place : Nat)
    (before after : List Char) (middle : Mode) : Prop where
  fit : fragment.Fit
  cut : Cut text.toList place before after middle
  calm : middle = .code ∨ middle = .lineComment ∧
    fragment.chars.head? = some '\n' ∧ after.head? = some '\n'
  starts : before ≠ []
  ends : after ≠ []
  apartBefore : Apart before fragment.chars
  apartAfter : Apart fragment.chars after

namespace Spot

variable {text : String} {fragment : Fragment} {place : Nat}
  {before after : List Char} {middle : Mode}

theorem insertable (spot : Spot text fragment place before after middle) :
    Insertable before fragment.chars after where
  place := by
    obtain ⟨found, reads⟩ := spot.cut.reads
    exact ⟨found, middle, reads, spot.calm⟩
  whole := by
    have alone := @Fragment.reads _ spot.fit.good [] (by simp)
    exact ⟨_, alone, alone.follow (Or.inr ⟨rfl, spot.apartAfter⟩)⟩
  apartBefore := spot.apartBefore

theorem text_eq (spot : Spot text fragment place before after middle) :
    text = String.ofList (before ++ after) := by
  rw [← spot.cut.parts, String.ofList_toList]

/-- The insertion that a spot stands for. -/
def insertion (spot : Spot text fragment place before after middle) :
    Insertion where
  source := Source.ofText text
  fragment := fragment.source
  place := place
  positive := spot.cut.pos_iff.mpr spot.starts
  inside := spot.cut.lt_size_iff.mpr spot.ends

theorem result_eq (spot : Spot text fragment place before after middle) :
    spot.insertion.result = Source.ofText (joined before fragment after) := by
  rw [joined, Source.ofText_insert spot.insertable, ← spot.text_eq,
    spot.cut.place]
  rfl

variable (spot : Spot text fragment place before after middle)

include spot in
/-- All literals are on one side of a spot. -/
theorem outside : ∀ literal ∈ (Source.ofText text).literals,
    literal.stop ≤ place ∨ place ≤ literal.start :=
  spot.cut.outside (by rcases spot.calm with rfl | ⟨rfl, -⟩ <;> rfl)

theorem width_eq : spot.insertion.width = fragment.cells.length :=
  Fragment.source_size spot.fit.good

theorem width_pos : 0 < spot.insertion.width := by
  obtain ⟨cell, member, -⟩ := spot.fit.filled
  rw [width_eq]
  exact List.length_pos_of_mem member

theorem balanced : spot.insertion.IsBalanced := by
  rw [Insertion.IsBalanced]
  have code := Fragment.chars_code spot.fit.good
  exact code ▸ spot.fit.balanced

include spot in
/-- Code of the fragment, where it is put. -/
theorem codeAt_inside {index : Nat} (inner : index < fragment.cells.length) :
    (Source.ofText (joined before fragment after)).codeAt? (place + index) =
      fragment.source.codeAt? index := by
  rw [← spot.width_eq] at inner
  have code := spot.insertion.codeAt_place inner
  rw [spot.result_eq] at code
  exact code

include spot in
/-- Code behind a spot moves behind the fragment. -/
theorem codeAt_behind {position : Nat} (behind : place ≤ position) :
    (Source.ofText (joined before fragment after)).codeAt?
        (position + fragment.cells.length) =
      (Source.ofText text).codeAt? position := by
  have code := spot.insertion.codeAt_shift position
  rw [spot.insertion.shift_of_le behind, spot.width_eq, spot.result_eq] at code
  exact code

include spot in
/-- The literals that end in a range around a spot are closed still. -/
theorem closedIn_result {start stop : Nat}
    (closed : Source.ClosedIn (Source.ofText text) start stop)
    (lower : start ≤ place) (upper : place ≤ stop) :
    Source.ClosedIn (Source.ofText (joined before fragment after)) start
      (stop + fragment.cells.length) := by
  rw [← spot.result_eq, ← spot.width_eq]
  intro literal member behind within
  simp only [Insertion.result, Source.insert, List.mem_append, List.mem_map,
    List.mem_filter, decide_eq_true_eq] at member
  rcases member with (⟨early, front⟩ | ⟨inner, found, rfl⟩) | ⟨late, ⟨found, back⟩, rfl⟩
  · rcases spot.outside literal early with ended | later
    · exact closed literal early behind (Nat.le_trans ended upper)
    · exact absurd front (Nat.not_lt_of_le later)
  · exact Fragment.closed spot.fit.good inner found
  · have order := (Source.literal_inside found).1
    refine closed late found ?_ (Nat.le_of_add_le_add_right within)
    exact Nat.lt_of_le_of_lt (Nat.le_trans lower back) order

end Spot

/-- A spot in a text whose literals are closed, where nothing joins the fragment. -/
structure Site (text : String) (fragment : Fragment) (place : Nat)
    (before after : List Char) (middle : Mode) : Prop
    extends Spot text fragment place before after middle where
  closed : Source.AllClosed (Source.ofText text)
  leads : ∀ left right, (Source.ofText text).charAt? (place - 1) = some left →
    fragment.source.charAt? 0 = some right → Source.joins left right = false

namespace Site

variable {text : String} {fragment : Fragment} {place : Nat}
  {before after : List Char} {middle : Mode}

theorem closed_result (site : Site text fragment place before after middle) :
    Source.AllClosed (Source.ofText (joined before fragment after)) := by
  rw [← site.result_eq]
  exact site.closed.insert (Fragment.closed site.fit.good) place

variable (site : Site text fragment place before after middle)

/-- Something of the fragment counts. -/
theorem filled : ∃ first last,
    site.insertion.fragment.nextSignificant? 0 site.insertion.width =
      some first ∧
    site.insertion.fragment.lastSignificant? 0 site.insertion.width =
      some last := by
  obtain ⟨cell, member, visible⟩ := site.fit.filled
  obtain ⟨index, inside, here⟩ := List.mem_iff_getElem.mp member
  have significant : site.insertion.fragment.isSignificant index := by
    rw [isSignificant_eq]
    exact (Fragment.source_cell site.fit.good index).symm ▸
      (by simp [inside, here, visible])
  rw [← site.width_eq] at inside
  cases next : site.insertion.fragment.nextSignificant? 0
      site.insertion.width with
  | none =>
      have hidden := Source.next_eq_none_iff.mp next index (Nat.zero_le _) inside
      rw [significant] at hidden
      cases hidden
  | some first =>
      cases last : site.insertion.fragment.lastSignificant? 0
          site.insertion.width with
      | none =>
          have hidden :=
            Source.last_eq_none_iff.mp last index (Nat.zero_le _) inside
          rw [significant] at hidden
          cases hidden
      | some final => exact ⟨first, final, rfl, rfl⟩

theorem left : ¬JoinsAt site.insertion.result site.insertion.place := by
  rintro ⟨left, right, positive, front, char, joins⟩
  have previous := site.insertion.charAt_shift (site.insertion.place - 1)
  rw [site.insertion.shift_of_lt (Nat.sub_lt positive Nat.one_pos), front]
    at previous
  have first := site.insertion.charAt_place site.width_pos
  rw [Nat.add_zero, char] at first
  rw [site.leads left right previous.symm first.symm] at joins
  cases joins

theorem right : ¬JoinsAt site.insertion.result
    (site.insertion.place + site.insertion.width) := by
  rintro ⟨left, right, -, char, -, joins⟩
  obtain ⟨rest, cell, cells, apart⟩ := site.fit.last
  have width := site.width_pos
  have last := @Insertion.charAt_place site.insertion (site.insertion.width - 1)
      (by omega)
  have known : site.insertion.fragment.charAt? (site.insertion.width - 1) =
      cell.char? := by
    have here := Fragment.source_cell site.fit.good (site.insertion.width - 1)
    rw [site.width_eq, cells] at here
    rw [site.width_eq, cells]
    simp only [List.length_append, List.length_singleton, Nat.add_sub_cancel]
      at here ⊢
    exact (congrArg (Option.bind · Cell.char?) here).trans (by simp)
  rw [← Nat.add_sub_assoc width, known] at last
  rw [last] at char
  obtain ⟨name, dot, plus⟩ := apart left char
  simp [Source.joins, name, dot, plus] at joins

/-- A fragment at a site is a seam if the text there has nothing that would reach
across it. -/
theorem seam (whole : ¬JoinsAt (Source.ofText text) place)
    (ahead : ∀ position c, position < place →
      (Source.ofText text).codeAt? position = some c → asksAhead c →
      (∀ other, position < other → other < place →
        (Source.ofText text).isSignificant other = false) →
      (∀ next, (Source.ofText text).nextSignificant? place
          (Source.ofText text).size = some next →
        ∃ d, (Source.ofText text).codeAt? next = some d ∧ !answersAhead d) ∧
      ∀ first, fragment.source.nextSignificant? 0 fragment.source.size =
          some first →
        ∃ d, fragment.source.codeAt? first = some d ∧ !answersAhead d)
    (back : ∀ position c, place ≤ position →
      (Source.ofText text).codeAt? position = some c → asksBack c →
      (∀ other, place ≤ other → other < position →
        (Source.ofText text).isSignificant other = false) →
      (∀ last, (Source.ofText text).lastSignificant? 0 place = some last →
        ∀ d, (Source.ofText text).charAt? last = some d → !answersBack d) ∧
      ∀ last, fragment.source.lastSignificant? 0 fragment.source.size =
          some last →
        ∀ d, fragment.source.charAt? last = some d → !answersBack d) :
    site.insertion.Seam where
  regular := Source.regular_ofText site.closed
  fragmentRegular := Fragment.regular site.fit.good
  resultRegular := by
    rw [site.result_eq]
    exact Source.regular_ofText site.closed_result
  outside := site.outside
  balanced := site.balanced
  whole := whole
  left := site.left
  right := site.right
  meets := Or.inr { filled := site.filled, ahead := ahead, back := back }

end Site

end PackageLayers.Manifest

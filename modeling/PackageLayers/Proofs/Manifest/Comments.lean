/-
Purpose: A comment does not change what a manifest declares.
Main exports: quiet_of_hidden, declarationAt_hidden, package_hidden,
  package_commented, ofText_commented
-/
import PackageLayers.Proofs.Manifest.Arrays
import PackageLayers.Proofs.Manifest.Growth
import PackageLayers.Proofs.Source.Comments

namespace PackageLayers.Manifest

open Source (Span Insertion Quoted Matched CodeAt isWord isName findSome_congr
  mem_occurrences positions)

/-!
An insertion of which nothing counts leaves all that an outline is made from where
it is, requirements of packages included: every search passes over it.  The one
reader that asks for more than what counts is that of products.  It trims white
space of any kind from the text of an element, and what it then reads may be the
comment.  So a comment leaves a package as it is if every element of its products
starts with something visible.
-/

section

variable {insertion : Insertion}

/-! ### Words -/

/-- A word has something that counts, so the fragment has no word. -/
theorem lacks_of_hidden (hidden : insertion.IsHidden) {word : List Char}
    {first : Char} (head : word.head? = some first)
    (visible : Source.isSpace first = false) (index : Nat) :
    ¬CodeAt insertion.fragment word index := by
  intro code
  have here := code 0 first (by rw [← head, List.head?_eq_getElem?])
  rw [Nat.add_zero] at here
  have clear := hidden index (Source.lt_size_of_codeAt here)
  rw [Source.isSignificant_of_codeAt here visible] at clear
  cases clear

theorem isSpace_of_isNameChar {c : Char} (name : Source.isNameChar c) :
    Source.isSpace c = false := by
  cases space : Source.isSpace c with
  | false => rfl
  | true =>
      simp only [Source.isSpace, Bool.or_eq_true, decide_eq_true_eq] at space
      rcases space with (((rfl | rfl) | rfl) | rfl) | rfl <;> cases name

theorem lacks_word (hidden : insertion.IsHidden) {word : List Char}
    (good : isWord word) (index : Nat) : ¬CodeAt insertion.fragment word index := by
  cases word with
  | nil => cases good
  | cons first rest =>
      refine lacks_of_hidden hidden rfl ?_ index
      simp only [isWord, Bool.and_eq_true, Bool.or_eq_true] at good
      rcases good.1.1 with name | ⟨⟨dot, -⟩, -⟩
      · exact isSpace_of_isNameChar name
      · rw [of_decide_eq_true dot]
        rfl

theorem lacks_label (hidden : insertion.IsHidden) {label : String}
    (name : isName label) (span : Span) : insertion.Keeps span label := by
  obtain ⟨names, filled⟩ := Source.names_of_isName name
  obtain ⟨first, rest, same⟩ := List.exists_cons_of_ne_nil filled
  rw [List.all_eq_true] at names
  refine Or.inr (lacks_of_hidden hidden (by rw [same]; rfl)
    (isSpace_of_isNameChar (names first ?_)))
  rw [same]
  exact List.mem_cons_self

theorem occurrences_of_hidden (hidden : insertion.IsHidden) {text : String}
    (good : isWord text.toList) :
    insertion.fragment.occurrences text insertion.fragment.whole = [] := by
  rw [List.eq_nil_iff_forall_not_mem]
  intro position member
  exact lacks_word hidden good position ((mem_occurrences good).mp member).2.2

/-- An insertion of which nothing counts, behind a separator, adds nothing that an
outline is made from. -/
theorem quiet_of_hidden (seam : insertion.Seam) (hidden : insertion.IsHidden)
    (space : FollowsSpace insertion)
    (visibly : ∀ call brackets, packageCall? insertion.source = some call →
      labelArray? insertion.source call "products" = some brackets →
        StartsVisibly insertion.source brackets) : Quiet insertion where
  toSeam := seam
  calls := fun _ sought => occurrences_of_hidden hidden (isWord_of_sought sought)
  package := occurrences_of_hidden hidden (by decide)
  labels := fun span _ _ _ sought => lacks_label hidden (isName_of_sought sought) span
  arrays := fun _ _ _ _ _ _ => Or.inr hidden
  products := fun call brackets found _ array =>
    Or.inr ⟨visibly call brackets found array, space⟩

/-! ### Requirements -/

/-- The occurrences of a word between two brackets move. -/
theorem occurrences_pair (seam : insertion.Seam) (hidden : insertion.IsHidden)
    {text : String} (good : isWord text.toList) (span : Span) :
    insertion.result.occurrences text (insertion.pair span) =
      (insertion.source.occurrences text span).map insertion.shift := by
  have run := Source.Words.isRun good
  have filled := Source.Words.filled good
  have length := List.length_pos_of_ne_nil filled
  refine List.Pairwise.eq_of_mem_iff (r := (· < ·))
    (Source.occurrences_ascend good _) ?_ fun position => ?_
  · exact List.Pairwise.map _ (fun _ _ => insertion.shift_lt_iff.mpr)
      (Source.occurrences_ascend good _)
  have bounds {old : Nat} (code : CodeAt insertion.source text.toList old) :
      insertion.shift old + text.toList.length ≤ insertion.shift span.stop ↔
        old + text.toList.length ≤ span.stop := by
    rw [Insertion.Seam.shift_end filled (seam.apart_of_stands run
      (Insertion.Seam.standsAt_of_codeAt code)), Nat.succ_le_iff,
      insertion.shift_lt_iff]
    omega
  simp only [mem_occurrences good, Insertion.pair, List.mem_map]
  constructor
  · rintro ⟨lower, upper, code⟩
    rcases insertion.cover position with ⟨old, rfl⟩ | ⟨start, inner, rfl⟩
    · rw [seam.codeAt_shift_iff run] at code
      exact ⟨old, ⟨insertion.shift_le_iff.mp lower, (bounds code).mp upper, code⟩, rfl⟩
    · rw [seam.codeAt_place_iff run inner] at code
      exact absurd code (lacks_word hidden good start)
  · rintro ⟨old, ⟨lower, upper, code⟩, rfl⟩
    exact ⟨insertion.shift_le_iff.mpr lower, (bounds code).mpr upper,
      (seam.codeAt_shift_iff run old).mpr code⟩

theorem nestedRequirement_hidden (seam : insertion.Seam)
    (hidden : insertion.IsHidden) (parens : Span) :
    nestedRequirement? insertion.result (insertion.pair parens) =
      nestedRequirement? insertion.source parens := by
  have good : isWord "from".toList := by decide
  rw [nestedRequirement?, nestedRequirement?, occurrences_pair seam hidden good,
    List.findSome?_map]
  refine findSome_congr fun position member => ?_
  have code := ((mem_occurrences good).mp member).2.2
  have next (start : Nat) := @Insertion.next_shift insertion start parens.stop
      (Or.inl hidden)
  have last : insertion.shift position + "from".length =
      insertion.shift (position + 3) + 1 :=
    Insertion.Seam.shift_end (Source.Words.filled good)
      (seam.apart_of_stands (Source.Words.isRun good)
        (Insertion.Seam.standsAt_of_codeAt code))
  have first : position + "from".length = position + 3 + 1 := rfl
  simp only [Function.comp_apply, Option.bind_eq_bind, Insertion.pair, last, first,
    next]
  cases insertion.source.nextSignificant? (position + 3 + 1) parens.stop with
  | none => rfl
  | some colon =>
      simp only [Option.map_some, Option.bind_some, insertion.charAt_shift, next]
      split
      · rfl
      · cases insertion.source.nextSignificant? (colon + 1) parens.stop with
        | none => rfl
        | some value =>
            simp only [Option.map_some, Option.bind_some, seam.literalAt_shift,
              Option.map_map]
            rfl

/-- Items at which nothing is found may be left out of a search. -/
theorem findSome_filter {α β : Type} {items : List α} {keep : α → Bool}
    {g : α → Option β} (none : ∀ item ∈ items, keep item = false → g item = none) :
    (items.filter keep).findSome? g = items.findSome? g := by
  induction items with
  | nil => rfl
  | cons item items inductionHypothesis =>
      have later := inductionHypothesis fun other member =>
        none other (List.mem_cons_of_mem _ member)
      cases kept : keep item with
      | true =>
          rw [List.filter_cons_of_pos kept, List.findSome?_cons, List.findSome?_cons,
            later]
      | false =>
          rw [List.filter_cons_of_neg (by simp [kept]), List.findSome?_cons,
            none item List.mem_cons_self kept, later]

/-- A search for the first position with something passes over a fragment that has
nothing of the kind. -/
theorem findSome_positions {α : Type} {f g : Nat → Option α}
    (same : ∀ position, g (insertion.shift position) = f position)
    (none : ∀ index, index < insertion.width → g (insertion.place + index) = none)
    (start stop : Nat) :
    (positions (insertion.shift start + 1) (insertion.shift stop)).findSome? g =
      (positions (start + 1) stop).findSome? f := by
  let outside (position : Nat) : Bool :=
    position < insertion.place || insertion.place + insertion.width ≤ position
  have old (position : Nat) : outside (insertion.shift position) = true := by
    simp only [outside, Insertion.shift, Bool.or_eq_true, decide_eq_true_eq]
    split <;> omega
  have kept : (positions (insertion.shift start + 1)
      (insertion.shift stop)).filter outside =
        (positions (start + 1) stop).map insertion.shift := by
    refine List.Pairwise.eq_of_mem_iff (r := (· < ·))
      (List.Pairwise.filter _ List.pairwise_lt_range')
      (List.Pairwise.map _ (fun _ _ => insertion.shift_lt_iff.mpr)
        List.pairwise_lt_range') fun position => ?_
    rw [List.mem_filter, Source.mem_positions, List.mem_map]
    constructor
    · rintro ⟨⟨lower, upper⟩, apart⟩
      rcases insertion.cover position with ⟨before, rfl⟩ | ⟨index, inner, rfl⟩
      · rw [Nat.succ_le_iff, insertion.shift_lt_iff] at lower
        rw [insertion.shift_lt_iff] at upper
        exact ⟨before, Source.mem_positions.mpr ⟨lower, upper⟩, rfl⟩
      · simp only [outside, Bool.or_eq_true, decide_eq_true_eq] at apart
        omega
    · rintro ⟨before, member, rfl⟩
      obtain ⟨lower, upper⟩ := Source.mem_positions.mp member
      exact ⟨⟨insertion.shift_lt_iff.mpr lower, insertion.shift_lt_iff.mpr upper⟩,
        old before⟩
  rw [← @findSome_filter _ _ _ outside, kept, List.findSome?_map]
  · exact findSome_congr fun position _ => same position
  · intro position _ within
    rcases insertion.cover position with ⟨before, rfl⟩ | ⟨index, inner, rfl⟩
    · rw [old before] at within
      cases within
    · exact none index inner

/-- No literal starts in the fragment. -/
theorem literalAt_hidden (seam : insertion.Seam) (hidden : insertion.IsHidden)
    {index : Nat} (inner : index < insertion.width) :
    insertion.result.literalAt? (insertion.place + index) = none := by
  have found := seam.literalAt_place inner
  rw [← Option.map_eq_none_iff, found, Option.map_eq_none_iff, Source.literalAt_eq,
    Option.map_eq_none_iff, List.find?_eq_none]
  intro literal member start
  obtain ⟨c, here, mark⟩ := seam.fragmentRegular.literalStart literal member
  have clear := hidden index inner
  rw [← beq_iff_eq.mp start, Source.isSignificant, here, Option.any_some] at clear
  simp only [Source.isMark, Bool.or_eq_true, decide_eq_true_eq] at mark
  rcases mark with rfl | rfl <;> cases clear

theorem looseLiteral_hidden (seam : insertion.Seam) (hidden : insertion.IsHidden)
    (parens : Span) (taken : List Nat) :
    looseLiteral? insertion.result (insertion.pair parens)
        (taken.map insertion.shift) =
      looseLiteral? insertion.source parens taken := by
  refine findSome_positions (fun position => ?_) (fun index inner => ?_) _ _
  · have known : (taken.map insertion.shift).contains (insertion.shift position) =
        taken.contains position := by
      rw [Bool.eq_iff_iff, List.contains_iff_mem, List.contains_iff_mem,
        List.mem_map]
      simp
    rw [known, seam.literalAt_shift, Option.map_map]
    rfl
  · rw [literalAt_hidden seam hidden inner, Option.map_none, ite_self]

/-- A declaration of a package stays. -/
theorem declarationAt_hidden (seam : insertion.Seam) (hidden : insertion.IsHidden)
    {parens : Span} (order : parens.start < parens.stop) :
    declarationAt insertion.result (insertion.pair parens) =
      declarationAt insertion.source parens := by
  have literal {label : String} (name : isName label) :=
    labelLiteral_shift seam name order (lacks_label hidden name parens)
  have text {label : String} (name : isName label) :=
    labelText_shift seam name order (lacks_label hidden name parens)
  have taken (literals : List (Option Quoted)) :
      (literals.map (Option.map (Quoted.moved insertion))).filterMap
          (Option.map Quoted.start) =
        (literals.filterMap (Option.map Quoted.start)).map insertion.shift := by
    rw [List.filterMap_map, List.map_filterMap]
    refine List.filterMap_congr fun literal _ => ?_
    cases literal <;> rfl
  have labelled : ["from", "exact", "branch", "revision"].findSome?
        (labelText? insertion.result (insertion.pair parens)) =
      ["from", "exact", "branch", "revision"].findSome?
        (labelText? insertion.source parens) := by
    refine findSome_congr fun label member => text ?_
    have all : ∀ label ∈ ["from", "exact", "branch", "revision"], isName label := by
      decide
    exact all label member
  have loose := looseLiteral_hidden seam hidden parens
    (([labelLiteral? insertion.source parens "name",
      labelLiteral? insertion.source parens "url",
      labelLiteral? insertion.source parens "path",
      labelLiteral? insertion.source parens "id"] : List (Option Quoted)).filterMap
        (Option.map Quoted.start))
  rw [← taken] at loose
  simp only [List.map_cons, List.map_nil] at loose
  simp only [declarationAt, literal (show isName "name" by decide),
    literal (show isName "url" by decide), literal (show isName "path" by decide),
    literal (show isName "id" by decide), labelled,
    nestedRequirement_hidden seam hidden parens, Option.map_map]
  congr 1
  exact congrArg _ loose

/-! ### The package -/

/-- The declarations of packages stay. -/
theorem declarations_hidden (seam : insertion.Seam) (hidden : insertion.IsHidden) :
    (declarationsIn insertion.result).map Prod.fst =
      (declarationsIn insertion.source).map Prod.fst := by
  have good : isWord ("." ++ "package").toList := by decide
  rw [declarationsIn, declarationsIn, ← Insertion.Seam.range_whole,
    seam.memberCalls_shift good (occurrences_of_hidden hidden good)
      (whole_order insertion),
    List.filterMap_map, List.map_filterMap, List.map_filterMap]
  refine List.filterMap_congr fun call _ => ?_
  simp only [Function.comp_apply, Source.MemberCall.moved,
    Insertion.partner_shift seam.balanced, Option.map_map]
  cases partner : insertion.source.partner? call.paren with
  | none => rw [Option.map_none, Option.map_none]
  | some stop =>
      have order := (Source.matched_of_partner partner).order
      have same := @declarationAt_hidden _ seam hidden ⟨call.paren, stop⟩ order
      rw [Option.map_some, Option.map_some, Function.comp_apply,
        Function.comp_apply]
      exact congrArg some same

/-- The targets stay. -/
theorem targets_hidden (quiet : Quiet insertion) (hidden : insertion.IsHidden) :
    (blocksOf insertion.result).map Block.target =
      (blocksOf insertion.source).map Block.target := by
  rw [blocks_shift quiet, List.map_map]
  refine List.map_congr_left fun block member => ?_
  have written := written_of_mem member
  exact still_target quiet written (lacks_label hidden (by decide) _)
    fun _ _ => Or.inr hidden

/-- An insertion of which nothing counts leaves the package as it is. -/
theorem package_hidden (quiet : Quiet insertion) (hidden : insertion.IsHidden) :
    (Outline.ofSource insertion.result).package =
      (Outline.ofSource insertion.source).package := by
  have name := packageName_shift quiet
  have targets := targets_hidden quiet hidden
  have declarations := declarations_hidden quiet.toSeam hidden
  have products := congrArg (Option.getD · []) (products_shift quiet)
  rw [← ofSource_name, ← ofSource_name] at name
  rw [← ofSource_targets, ← ofSource_targets] at targets
  rw [← ofSource_declarations, ← ofSource_declarations] at declarations
  rw [← ofSource_products, ← ofSource_products] at products
  generalize (Outline.ofSource insertion.result).package = after at *
  generalize (Outline.ofSource insertion.source).package = before at *
  cases after
  cases before
  cases name
  cases targets
  cases declarations
  cases products
  rfl

end

/-! ### Comments -/

section

variable {text : String} {position : Nat} {c : Char}

/-- A comment behind a separator of code leaves the package of a manifest as it is,
if every element of its products starts with something visible. -/
theorem package_commented (comment : Source.Comment)
    (closed : Source.AllClosed (Source.ofText text))
    (code : (Source.ofText text).codeAt? position = some c) (space : Source.isSpace c)
    (inside : position + 1 < (Source.ofText text).size)
    (visibly : ∀ call brackets, packageCall? (Source.ofText text) = some call →
      labelArray? (Source.ofText text) call "products" = some brackets →
        StartsVisibly (Source.ofText text) brackets) :
    (Outline.ofText (applyEdits text
        [⟨position + 1, String.ofList comment.chars⟩])).package =
      (Outline.ofText text).package := by
  obtain ⟨before, after, margin⟩ :=
    Source.margin_of_space closed code space inside
  have edited : applyEdits text [⟨position + 1, String.ofList comment.chars⟩] =
      Source.commented before after comment := by
    rw [applyEdits_one, margin.cut.parts, ← margin.cut.place, insertAt_append,
      String.toList_ofList]
    rfl
  have quiet : Quiet (margin.insertion comment) :=
    quiet_of_hidden (margin.seam comment) (margin.hidden comment) margin.space visibly
  have same := package_hidden quiet (margin.hidden comment)
  rw [margin.result_eq] at same
  rw [edited]
  exact same

/-- So the manifest is read as it was. -/
theorem ofText_commented (comment : Source.Comment)
    (closed : Source.AllClosed (Source.ofText text))
    (code : (Source.ofText text).codeAt? position = some c) (space : Source.isSpace c)
    (inside : position + 1 < (Source.ofText text).size)
    (visibly : ∀ call brackets, packageCall? (Source.ofText text) = some call →
      labelArray? (Source.ofText text) call "products" = some brackets →
        StartsVisibly (Source.ofText text) brackets) :
    Package.ofText? (applyEdits text
        [⟨position + 1, String.ofList comment.chars⟩]) =
      Package.ofText? text := by
  rw [Package.ofText?, Package.ofText?,
    package_commented comment closed code space inside visibly]

end

/-- A product behind a blank that is not a separator, with a text before its dot. -/
def blankFirst (between : String) : String :=
  "Package(products: [\u00a0 " ++ between ++ ".library(name: \"L\")])"

/-- There the blank is trimmed, and a comment is not. -/
example :
    (Outline.ofText (blankFirst "")).package.products.map (·.name) = ["L"] ∧
      (Outline.ofText (blankFirst "/**/")).package.products = [] := by
  decide +kernel

end PackageLayers.Manifest

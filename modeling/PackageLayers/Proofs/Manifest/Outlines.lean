/-
Purpose: The outline of a manifest after an insertion.
Main exports: Declaration.located, productsIn_shift, declarationsIn_shift,
  outline_shift
-/
import Mathlib.Data.List.TakeWhile
import PackageLayers.Proofs.Manifest.Blocks

namespace PackageLayers.Manifest

open Source (Span MemberCall Insertion isWord Matched CodeAt)

/-!
A product is read from the start of its element, past white space of any kind.
The fragment lies behind a bracket there, or behind something visible and a
separator, so the element starts as it did.
-/

/-! ### Starts of texts -/

/-- Whether a text starts with a word is settled by a character that is not of the
word. -/
theorem afterPrefix_isSome_append {lead known : List Char}
    (left right : List Char) (other : ∃ c ∈ known, c ∉ lead) :
    (Text.afterPrefix? lead (known ++ left)).isSome =
      (Text.afterPrefix? lead (known ++ right)).isSome := by
  induction lead generalizing known with
  | nil => rfl
  | cons first lead inductionHypothesis =>
      cases known with
      | nil =>
          obtain ⟨c, none, -⟩ := other
          cases none
      | cons head known =>
          simp only [List.cons_append, Text.afterPrefix?]
          split
          · rename_i same
            subst same
            obtain ⟨c, member, fresh⟩ := other
            rw [List.mem_cons, not_or] at fresh
            exact inductionHypothesis
              ⟨c, (List.mem_cons.mp member).resolve_left fresh.1, fresh.2⟩
          · rfl

theorem startsWith_trimStart_append {lead : String} {known : List Char}
    (left right : List Char) (visible : ∃ c ∈ known, Text.isBlank c = false)
    (other : ∃ c ∈ known.dropWhile Text.isBlank, c ∉ lead.toList) :
    Text.startsWith lead (Text.trimStart (String.ofList (known ++ left))) =
      Text.startsWith lead
        (Text.trimStart (String.ofList (known ++ right))) := by
  have stays (rest : List Char) : (known ++ rest).dropWhile Text.isBlank =
      known.dropWhile Text.isBlank ++ rest := by
    obtain ⟨c, member, visible⟩ := visible
    rw [List.dropWhile_append, if_neg]
    rw [List.isEmpty_iff, List.dropWhile_eq_nil_iff]
    intro all
    rw [all c member] at visible
    cases visible
  simp only [Text.startsWith, Text.stripPrefix?, Option.isSome_map,
    Text.trimStart, String.toList_ofList, stays]
  exact afterPrefix_isSome_append left right other

/-- What is visible is not trimmed. -/
theorem mem_dropWhile_of_visible {known : List Char} {c : Char} (member : c ∈ known)
    (visible : Text.isBlank c = false) : c ∈ known.dropWhile Text.isBlank := by
  rw [← List.takeWhile_append_dropWhile (p := Text.isBlank) (l := known),
    List.mem_append] at member
  refine member.resolve_left fun early => ?_
  rw [List.mem_takeWhile_imp early] at visible
  cases visible

theorem slice_append {source : Source} {start middle stop : Nat}
    (first : start ≤ middle) (second : middle ≤ stop) :
    source.slice start stop =
      String.ofList ((source.slice start middle).toList ++
        (source.slice middle stop).toList) := by
  have cells : source.cells.extract start stop =
      source.cells.extract start middle ++ source.cells.extract middle stop := by
    rw [Array.extract_append_extract, Nat.min_eq_left first,
      Nat.max_eq_right second]
  simp only [Source.slice, String.toList_ofList]
  rw [← List.filterMap_append, cells, Array.toList_append]

theorem mem_slice {source : Source} {start stop position : Nat} {c : Char}
    (lower : start ≤ position) (upper : position < stop)
    (char : source.charAt? position = some c) :
    c ∈ (source.slice start stop).toList := by
  obtain ⟨cls, here⟩ := Source.cell_of_charAt char
  have inside := (Array.getElem?_eq_some_iff.mp here).1
  rw [Source.slice, String.toList_ofList, List.mem_filterMap]
  refine ⟨⟨some c, cls⟩, List.mem_of_getElem? (i := position - start) ?_, rfl⟩
  rw [Array.getElem?_toList, Array.getElem?_extract, if_pos (by omega),
    Nat.add_sub_cancel' lower]
  exact here

section

variable {insertion : Insertion}

/-! ### Products -/

/-- A fragment inside of an element lies behind a bracket of it. -/
theorem opening_of_element {span range : Span}
    (matched : Matched insertion.source span) (deep : insertion.Deep span)
    (member : range ∈ insertion.source.elements span)
    (before : range.start < insertion.place)
    (behind : insertion.place < range.stop) :
    ∃ position, range.start ≤ position ∧ position < insertion.place ∧
      ∃ c kind, insertion.source.charAt? position = some c ∧
        Bracket.ofChar? c = some (.opening kind) := by
  obtain ⟨slot, here, trimmed⟩ := List.mem_filterMap.mp member
  obtain ⟨left, cut, right, cut', rfl⟩ := Source.mem_slots here
  have bounds := trimmed_eq_some trimmed
  have last := (Insertion.isLevel_of_cut matched cut').2.1
  simp only [Source.trimmed?, Option.bind_eq_bind,
    Option.bind_eq_some_iff] at trimmed
  obtain ⟨first, next, final, -, same⟩ := trimmed
  cases same
  obtain ⟨position, lower, upper, significant, c, kind, code, opens⟩ :=
    Insertion.opening_of_level deep (Insertion.isLevel_of_cut matched cut)
      (by simp only at bounds before; omega)
      (by simp only at bounds behind; omega)
  refine ⟨position, ?_, upper, c, kind, Source.charAt_of_codeAt code, opens⟩
  by_contra early
  have clear := (Source.next_eq_some_iff.mp next).2.2.2 position lower
    (by simpa using early)
  rw [significant] at clear
  cases clear

theorem opening_visible {c : Char} {kind : BracketKind}
    (opens : Bracket.ofChar? c = some (.opening kind)) :
    Text.isBlank c = false ∧ ∀ name ∈ ["library", "executable", "plugin"],
      c ∉ ("." ++ name).toList := by
  unfold Bracket.ofChar? at opens
  repeat' split at opens
  all_goals first
    | (rename_i same; subst same; decide)
    | cases opens

/-- What is before the fragment in an element tells how the element starts. -/
theorem known_start {span range : Span} (matched : Matched insertion.source span)
    (apart : insertion.Deep span ∨
      StartsVisibly insertion.source span ∧ FollowsSpace insertion)
    (member : range ∈ insertion.source.elements span)
    (before : range.start < insertion.place)
    (behind : insertion.place < range.stop) {name : String}
    (kind : name ∈ ["library", "executable", "plugin"]) :
    let known := (insertion.source.slice range.start insertion.place).toList
    (∃ c ∈ known, Text.isBlank c = false) ∧
      ∃ c ∈ known.dropWhile Text.isBlank, c ∉ ("." ++ name).toList := by
  intro known
  rcases apart with deep | ⟨visibly, space, char, separates⟩
  · obtain ⟨position, lower, upper, c, side, char, opens⟩ :=
      opening_of_element matched deep member before behind
    obtain ⟨visible, fresh⟩ := opening_visible opens
    have inside : c ∈ known := mem_slice lower upper char
    exact ⟨⟨c, inside, visible⟩, c, mem_dropWhile_of_visible inside visible,
      fresh name kind⟩
  · have inside : space ∈ known := mem_slice (by omega) (by omega) char
    obtain ⟨first, starts, visible⟩ := visibly range member
    obtain ⟨rest, same⟩ : ∃ rest, known = first :: rest :=
      List.head?_eq_some_iff.mp (slice_head before starts)
    rw [same] at inside ⊢
    rw [List.dropWhile_cons_of_neg (by simpa using visible)]
    refine ⟨⟨first, List.mem_cons_self, visible⟩, space, inside, fun here => ?_⟩
    have all : ∀ name ∈ ["library", "executable", "plugin"],
        ("." ++ name).toList.all fun c => !Source.isSpace c := by decide
    have apart := List.all_eq_true.mp (all name kind) space here
    rw [separates] at apart
    cases apart

/-- Elements start as they did. -/
theorem startsWith_shift {span range : Span}
    (matched : Matched insertion.source span)
    (apart : insertion.Deep span ∨
      StartsVisibly insertion.source span ∧ FollowsSpace insertion)
    (member : range ∈ insertion.source.elements span) {name : String}
    (kind : name ∈ ["library", "executable", "plugin"]) :
    Text.startsWith ("." ++ name) (Text.trimStart
        (insertion.result.slice (insertion.shift range.start)
          (insertion.after range.stop))) =
      Text.startsWith ("." ++ name)
        (Text.trimStart (insertion.source.slice range.start range.stop)) := by
  have order := mem_elements_order member
  by_cases inner : range.start < insertion.place ∧ insertion.place < range.stop
  · obtain ⟨before, behind⟩ := inner
    obtain ⟨visible, fresh⟩ := known_start matched apart member before behind kind
    have late : insertion.place ≤ insertion.after range.stop := by
      rw [Insertion.after, insertion.shift_of_le (by omega)]
      omega
    have same : insertion.result.slice range.start insertion.place =
        insertion.source.slice range.start insertion.place := by
      obtain ⟨gap, place⟩ := Nat.exists_eq_add_of_le (Nat.le_of_lt before)
      rw [place]
      refine Source.slice_congr fun index short => ?_
      rw [← insertion.cells_shift, insertion.shift_of_lt (by omega)]
    rw [insertion.shift_of_lt before,
      @slice_append insertion.result _ _ _ (Nat.le_of_lt before) late,
      @slice_append insertion.source _ _ _ (Nat.le_of_lt before)
          (Nat.le_of_lt behind), same]
    exact startsWith_trimStart_append _ _ visible fresh
  · obtain ⟨gap, stop⟩ := Nat.exists_eq_add_of_lt order
    have apart : range.start + (gap + 1) ≤ insertion.place ∨
        insertion.place ≤ range.start := by omega
    have last : insertion.after range.stop =
        insertion.shift range.start + (gap + 1) := by
      rw [Insertion.after, stop, Nat.add_sub_cancel,
        Insertion.Seam.shift_add apart (by omega)]
      omega
    rw [last, stop, Nat.add_assoc]
    congr 2
    refine Source.slice_congr fun index short => ?_
    rw [← Insertion.Seam.shift_add apart short, insertion.cells_shift]

theorem productIn_eq {source : Source} {range : Span} :
    productIn? source range =
      ((["library", "executable", "plugin"].find? fun kind =>
        Text.startsWith ("." ++ kind) (Text.trimStart
          (source.slice range.start range.stop))).bind fun kind =>
        (source.memberCalls kind range).head?.bind fun call =>
          (source.partner? call.paren).bind fun stop =>
            (labelText? source ⟨call.paren, stop⟩ "name").map fun name =>
              { name := name
                kind := kind
                targets := ((labelArray? source ⟨call.paren, stop⟩
                  "targets").map (textElements source)).getD [] }) := by
  unfold productIn?
  simp only [Option.bind_eq_bind]
  cases ["library", "executable", "plugin"].find? fun kind =>
      Text.startsWith ("." ++ kind) (Text.trimStart
        (source.slice range.start range.stop)) with
  | none => rfl
  | some kind =>
      simp only [Option.bind_some]
      cases (source.memberCalls kind range).head? with
      | none => rfl
      | some call =>
          simp only [Option.bind_some]
          cases source.partner? call.paren with
          | none => rfl
          | some stop =>
              simp only [Option.bind_some]
              cases labelText? source ⟨call.paren, stop⟩ "name" <;> rfl

/-- A product stays. -/
theorem productIn_shift (quiet : Quiet insertion) {span range : Span}
    (matched : Matched insertion.source span)
    (apart : insertion.Deep span ∨
      StartsVisibly insertion.source span ∧ FollowsSpace insertion)
    (member : range ∈ insertion.source.elements span) :
    productIn? insertion.result (insertion.range range) =
      productIn? insertion.source range := by
  have order := mem_elements_order member
  have kinds : ["library", "executable", "plugin"].find? (fun kind =>
        Text.startsWith ("." ++ kind) (Text.trimStart
          (insertion.result.slice (insertion.range range).start
            (insertion.range range).stop))) =
      ["library", "executable", "plugin"].find? fun kind =>
        Text.startsWith ("." ++ kind) (Text.trimStart
          (insertion.source.slice range.start range.stop)) := by
    have start (name : String)
        (kind : name ∈ ["library", "executable", "plugin"]) :=
      startsWith_shift matched apart member kind
    simp only [List.find?_cons, List.find?_nil, Insertion.range,
      start "library" (by simp), start "executable" (by simp),
      start "plugin" (by simp)]
  rw [productIn_eq, productIn_eq, kinds]
  cases found : ["library", "executable", "plugin"].find? fun kind =>
      Text.startsWith ("." ++ kind) (Text.trimStart
        (insertion.source.slice range.start range.stop)) with
  | none => rw [Option.bind_none, Option.bind_none]
  | some kind =>
      have known := List.mem_of_find?_eq_some found
      have sought : kind ∈ soughtCalls := by
        simp only [List.mem_cons, List.not_mem_nil, or_false] at known
        rcases known with rfl | rfl | rfl <;> decide
      have good := isWord_of_sought sought
      rw [Option.bind_some, Option.bind_some, quiet.toSeam.memberCalls_shift good
        (quiet.calls kind sought) order, List.head?_map]
      cases calls : (insertion.source.memberCalls kind range).head? with
      | none => rw [Option.map_none, Option.bind_none, Option.bind_none]
      | some call =>
          have opens : insertion.source.charAt? call.paren = some '(' :=
            (Source.mem_memberCalls good (List.mem_of_mem_head? calls)).2.2
          simp only [Option.map_some, Option.bind_some, MemberCall.moved,
            Insertion.partner_shift quiet.balanced]
          cases partner : insertion.source.partner? call.paren with
          | none => rw [Option.map_none, Option.bind_none, Option.bind_none]
          | some stop =>
              have inner := Source.matched_of_partner partner
              have keeps := quiet.labels ⟨call.paren, stop⟩ inner opens
              have pair : (⟨insertion.shift call.paren, insertion.shift stop⟩ :
                  Span) = insertion.pair ⟨call.paren, stop⟩ := rfl
              simp only [Option.map_some, Option.bind_some, pair,
                labelText_shift quiet.toSeam (by decide) inner.order
                  (keeps "name" (by decide)),
                @labelTexts_shift _ quiet _ "targets" (by decide) inner opens]

/-- The products of an array stay. -/
theorem productsIn_shift (quiet : Quiet insertion) {span : Span}
    (matched : Matched insertion.source span) (spares : insertion.Spares span)
    (apart : insertion.Deep span ∨
      StartsVisibly insertion.source span ∧ FollowsSpace insertion) :
    productsIn insertion.result (insertion.pair span) =
      productsIn insertion.source span := by
  rw [productsIn, productsIn,
    Insertion.elements_shift matched quiet.balanced spares, List.filterMap_map]
  exact List.filterMap_congr fun range member =>
    productIn_shift quiet matched apart member

/-! ### Declarations of packages -/

/-- A declaration without its requirement. -/
def Declaration.located (declaration : Declaration) : Declaration :=
  { declaration with requirement := none }

theorem declarationAt_shift (quiet : Quiet insertion) {parens : Span}
    (matched : Matched insertion.source parens)
    (opens : insertion.source.charAt? parens.start = some '(') :
    (declarationAt insertion.result (insertion.pair parens)).located =
      (declarationAt insertion.source parens).located := by
  have keeps := quiet.labels parens matched opens
  have text (label : String) (sought : label ∈ soughtLabels) :
      (labelLiteral? insertion.result (insertion.pair parens) label).map
          Source.Quoted.value =
        (labelLiteral? insertion.source parens label).map
          Source.Quoted.value :=
    labelText_shift quiet.toSeam (isName_of_sought sought) matched.order
      (keeps label sought)
  simp only [declarationAt, Declaration.located,
    text "name" (by decide), text "url" (by decide), text "path" (by decide),
    text "id" (by decide)]

/-- The declaration of a package whose dot is at a position, without its
requirement. -/
def declaredAt? (source : Source) (dot : Nat) : Option Declaration :=
  (source.callAt? (".package").toList.length dot).bind fun call =>
    (source.partner? call.paren).map fun stop =>
      (declarationAt source ⟨call.paren, stop⟩).located

/-- The declarations of a text without their requirements. -/
theorem located_eq (source : Source) :
    (declarationsIn source).map (fun declaration => declaration.1.located) =
      (source.occurrences ".package" source.whole).filterMap
        (declaredAt? source) := by
  have good : isWord ("." ++ "package").toList := by decide
  have word : "." ++ "package" = ".package" := by decide +kernel
  rw [declarationsIn, Source.memberCalls_eq good, word, List.filterMap_filterMap,
    List.map_filterMap]
  refine List.filterMap_congr fun dot _ => ?_
  rw [declaredAt?, Option.map_bind]
  refine congrArg _ (funext fun call => ?_)
  rw [Function.comp_apply, Option.map_map]
  rfl

/-- A declaration of a package stays, but for its requirement. -/
theorem declaredAt_shift (quiet : Quiet insertion) {dot : Nat}
    (code : CodeAt insertion.source ".package".toList dot) :
    declaredAt? insertion.result (insertion.shift dot) =
      declaredAt? insertion.source dot := by
  rw [declaredAt?, declaredAt?,
    quiet.toSeam.callAt_shift (by decide +kernel) code, Option.bind_map]
  refine Option.bind_congr fun call made => ?_
  have opens := (Source.callAt_eq_some made).2.2.2
  simp only [Function.comp_apply, MemberCall.moved,
    Insertion.partner_shift quiet.balanced]
  cases partner : insertion.source.partner? call.paren with
  | none => rfl
  | some stop =>
      simp only [Option.map_some]
      congr 1
      exact @declarationAt_shift _ quiet ⟨call.paren, stop⟩
          (Source.matched_of_partner partner) opens

/-- The declarations of packages stay, but for their requirements. -/
theorem declarationsIn_shift (quiet : Quiet insertion)
    (declares : insertion.fragment.occurrences ".package"
      insertion.fragment.whole = []) :
    (declarationsIn insertion.result).map
        (fun declaration => declaration.1.located) =
      (declarationsIn insertion.source).map
        fun declaration => declaration.1.located := by
  have good : isWord ".package".toList := by decide +kernel
  rw [located_eq, located_eq, ← Insertion.Seam.range_whole,
    quiet.toSeam.occurrences_shift good declares (whole_order insertion),
    List.filterMap_map]
  refine List.filterMap_congr fun dot member => ?_
  exact declaredAt_shift quiet ((Source.mem_occurrences good).mp member).2.2

/-! ### The outline -/

theorem packageName_shift (quiet : Quiet insertion) :
    ((packageCall? insertion.result).bind
        fun call => labelText? insertion.result call "name") =
      (packageCall? insertion.source).bind
        fun call => labelText? insertion.source call "name" := by
  rw [packageCall_shift quiet]
  cases call : packageCall? insertion.source with
  | none => rfl
  | some parens =>
      obtain ⟨matched, opens⟩ := packageCall_matched call
      rw [Option.map_some, Option.bind_some, Option.bind_some]
      exact labelText_shift quiet.toSeam (by decide) matched.order
        (quiet.labels parens matched opens "name" (by decide))

theorem products_shift (quiet : Quiet insertion) :
    ((packageCall? insertion.result).bind fun call =>
        labelArray? insertion.result call "products").map
          (productsIn insertion.result) =
      ((packageCall? insertion.source).bind fun call =>
        labelArray? insertion.source call "products").map
          (productsIn insertion.source) := by
  rw [packageCall_shift quiet]
  cases call : packageCall? insertion.source with
  | none => simp only [Option.map_none, Option.bind_none]
  | some parens =>
      obtain ⟨matched, opens⟩ := packageCall_matched call
      rw [Option.map_some, Option.bind_some, Option.bind_some,
        labelArray_shift quiet.toSeam (by decide) matched.order
          (quiet.labels parens matched opens "products" (by decide))]
      cases found : labelArray? insertion.source parens "products" with
      | none => simp only [Option.map_none]
      | some brackets =>
          rw [Option.map_some, Option.map_some, Option.map_some,
            productsIn_shift quiet (labelArray_eq_some found).2
              (quiet.arrays parens "products" brackets matched (by decide) found)
              (quiet.products parens brackets call matched found)]

/-- The declarations of targets in a text. -/
def blocksOf (source : Source) : List Block :=
  (findings source 0 (candidates source)).filterMap Finding.block?

theorem blocks_shift (quiet : Quiet insertion) :
    blocksOf insertion.result =
      (blocksOf insertion.source).map (Block.moved insertion) := by
  rw [blocksOf, blocksOf, candidates_shift quiet]
  refine findings_shift quiet (fun candidate member => mem_candidates member)
    fun position => ?_
  simp only [Nat.not_lt_zero]

/-- What an outline says but for the dependencies of targets and the requirements
of packages stays. -/
structure Unmoved (before after : Package) : Prop where
  name : after.name = before.name
  products : after.products = before.products
  declarations : after.declarations.map Declaration.located =
    before.declarations.map Declaration.located

theorem ofSource_name {source : Source} :
    (Outline.ofSource source).package.name =
      (packageCall? source).bind fun call => labelText? source call "name" := rfl

theorem ofSource_products {source : Source} :
    (Outline.ofSource source).package.products =
      (((packageCall? source).bind fun call =>
        labelArray? source call "products").map (productsIn source)).getD [] :=
  rfl

theorem ofSource_declarations {source : Source} :
    (Outline.ofSource source).package.declarations =
      (declarationsIn source).map Prod.fst := rfl

theorem ofSource_blocks {source : Source} :
    (Outline.ofSource source).blocks = blocksOf source := rfl

theorem ofSource_targets {source : Source} :
    (Outline.ofSource source).package.targets =
      (blocksOf source).map Block.target := rfl

theorem ofSource_call {source : Source} :
    (Outline.ofSource source).call = packageCall? source := rfl

theorem ofSource_array {source : Source} :
    (Outline.ofSource source).declarationArray =
      (packageCall? source).bind (labelArray? source · "dependencies") := rfl

theorem ofSource_label {source : Source} :
    (Outline.ofSource source).targetsLabel =
      ((packageCall? source).bind (source.label? · "targets")).bind fun after =>
        lastOccurrence? source "targets" after := rfl

theorem ofSource_skipped {source : Source} :
    (Outline.ofSource source).skipped =
      (findings source 0 (candidates source)).filterMap Finding.skipped? := rfl

theorem ofSource_ranges {source : Source} :
    (Outline.ofSource source).declarationRanges =
      (declarationsIn source).map Prod.snd := rfl

theorem package_shift (quiet : Quiet insertion)
    (declares : insertion.fragment.occurrences ".package"
      insertion.fragment.whole = []) :
    Unmoved (Outline.ofSource insertion.source).package
      (Outline.ofSource insertion.result).package where
  name := by
    rw [ofSource_name, ofSource_name, packageName_shift quiet]
  products := by
    rw [ofSource_products, ofSource_products, products_shift quiet]
  declarations := by
    rw [ofSource_declarations, ofSource_declarations, List.map_map, List.map_map]
    exact declarationsIn_shift quiet declares

end

end PackageLayers.Manifest

/-
Purpose: What a new element at the end of the array of declarations changes.
Main exports: PackageArray, Declares, Appends.declares
-/
import PackageLayers.Proofs.Manifest.Declarations

namespace PackageLayers.Manifest

open Source (Span Insertion Matched CodeAt isWord isName Mode)

/-!
The array of declarations is an argument of the call of the package, and that call
declares no target.  So a declaration at the end of the array leaves all targets
as they are.
-/

/-! ### The parenthesis of a call -/

/-- The names in front of a parenthesis end in the same character. -/
theorem last_of_paren {source : Source} {word word' : List Char}
    (good : isWord word) (good' : isWord word') {dot dot' paren : Nat}
    (code : CodeAt source word dot) (code' : CodeAt source word' dot')
    (next : source.nextSignificant? (dot + word.length) source.size = some paren)
    (next' : source.nextSignificant? (dot' + word'.length) source.size =
      some paren) : word.getLast? = word'.getLast? := by
  have ends {word : List Char} (good : isWord word) {dot : Nat}
      (code : CodeAt source word dot)
      (next : source.nextSignificant? (dot + word.length) source.size =
        some paren) :
      ∃ c, word.getLast? = some c ∧
        source.codeAt? (dot + (word.length - 1)) = some c ∧
        source.isSignificant (dot + (word.length - 1)) ∧
        source.nextSignificant? (dot + (word.length - 1) + 1) source.size =
          some paren := by
    have length := List.length_pos_of_ne_nil (Source.Words.filled good)
    have last := List.getElem?_eq_getElem (Nat.sub_lt length Nat.one_pos)
    have here := code _ _ last
    refine ⟨_, by rw [List.getLast?_eq_getElem?]; exact last, here,
      Source.isSignificant_of_isNameAt here
        (Source.Words.last_isNameChar good last), ?_⟩
    rw [Nat.add_assoc, Nat.sub_add_cancel length]
    exact next
  obtain ⟨c, last, here, visible, next⟩ := ends good code next
  obtain ⟨d, last', here', visible', next'⟩ := ends good' code' next'
  rw [Source.eq_of_next visible visible' next next', here',
    Option.some.injEq] at here
  rw [last, last', here]

/-- The parentheses of the call of the package are those of no target. -/
theorem apart_of_call {source : Source} {parens : Span}
    (call : packageCall? source = some parens) {block : Block}
    (member : block ∈ blocksOf source) :
    block.parens.start ≠ parens.start := by
  intro same
  have word : isWord "Package".toList := by decide +kernel
  obtain ⟨position, inside, here⟩ := List.exists_of_findSome?_eq_some call
  have code := ((Source.mem_occurrences word).mp inside).2.2
  rw [packageCallAt_eq] at here
  split at here
  · cases here
  · obtain ⟨made, found, here⟩ := Option.bind_eq_some_iff.mp here
    obtain ⟨stop, -, rfl⟩ := Option.map_eq_some_iff.mp here
    obtain ⟨candidate, known, stop', partner, read⟩ := constructor_of_mem member
    have parens := (written_of_blockAt (Source.matched_of_partner partner)
      (mem_candidates known) (order_of_candidate known) read).2.2
    obtain ⟨name, kind, code', next', -⟩ := call_of_candidate known
    have good : isWord ("." ++ name).toList :=
      isWord_of_sought (List.mem_append_left _ (List.mem_map_of_mem
        (f := Prod.fst) kind))
    have paren : candidate.paren = made.paren := by rwa [parens] at same
    rw [paren] at next'
    have last := last_of_paren word good code code'
      (Source.callAt_eq_some found).2.2.1 next'
    have different : ∀ constructor ∈ TargetKind.constructors,
        "Package".toList.getLast? ≠ ("." ++ constructor.1).toList.getLast? := by
      decide +kernel
    exact different (name, candidate.kind) kind last

/-! ### The array -/

/-- The array of declarations of the call of a package. -/
structure PackageArray (source : Source) (parens brackets : Span) : Prop where
  call : packageCall? source = some parens
  array : labelArray? source parens "dependencies" = some brackets

theorem packageArray_of_outline {source : Source} {brackets : Span}
    (found : (Outline.ofSource source).declarationArray = some brackets) :
    ∃ parens, PackageArray source parens brackets := by
  obtain ⟨parens, call, array⟩ := Option.bind_eq_some_iff.mp found
  exact ⟨parens, call, array⟩

namespace PackageArray

variable {source : Source} {parens brackets : Span}

theorem matched (array : PackageArray source parens brackets) :
    Matched source brackets := (labelArray_eq_some array.array).2

/-- An insertion at the end of the array. -/
theorem lodge {insertion : Insertion}
    (array : PackageArray insertion.source parens brackets)
    (seam : insertion.Seam) (atEnd : insertion.AtEnd brackets) :
    Lodge insertion parens brackets where
  seam := seam
  matched := (packageCall_matched array.call).1
  array := array.array
  atEnd := atEnd

section

variable {insertion : Insertion}
  (array : PackageArray insertion.source parens brackets)
  (lodge : Lodge insertion parens brackets) (quiet : Quiet insertion)

include array lodge quiet

/-- The targets stay. -/
theorem targets : (Outline.ofSource insertion.result).package.targets =
    (Outline.ofSource insertion.source).package.targets := by
  rw [ofSource_targets, ofSource_targets, blocks_shift quiet, List.map_map]
  exact List.map_congr_left fun block member => lodge.still_other quiet
    (written_of_mem member) (apart_of_call array.call member)

/-- The array moves. -/
theorem moved : PackageArray insertion.result (insertion.pair parens)
    ⟨brackets.start, brackets.stop + insertion.width⟩ where
  call := by rw [packageCall_shift quiet, array.call, Option.map_some]
  array := by
    have opens := (packageCall_matched array.call).2
    rw [labelArray_shift lodge.seam (by decide) lodge.matched.order
      (Or.inl (lodge.deep_parens lodge.matched opens)), array.array,
      Option.map_some, lodge.atEnd.pair_eq]

end

end PackageArray

/-! ### One more declaration -/

/-- Whether a text declares what another one does, and one more package. -/
structure Declares (text text' : String) (declaration : Declaration) : Prop where
  closed : Source.AllClosed (Source.ofText text')
  name : (Outline.ofText text').package.name = (Outline.ofText text).package.name
  products : (Outline.ofText text').package.products =
    (Outline.ofText text).package.products
  targets : (Outline.ofText text').package.targets =
    (Outline.ofText text).package.targets
  declarations : ∃ early late,
    (Outline.ofText text).package.declarations.map Declaration.located =
      early ++ late ∧
    (Outline.ofText text').package.declarations.map Declaration.located =
      early ++ declaration :: late

/-- A text that says the same as another one is passed over. -/
theorem Declares.behind {first second third : String} {declaration : Declaration}
    (unmoved : Unmoved (Outline.ofText first).package
      (Outline.ofText second).package)
    (targets : (Outline.ofText second).package.targets =
      (Outline.ofText first).package.targets)
    (declares : Declares second third declaration) :
    Declares first third declaration where
  closed := declares.closed
  name := declares.name.trans unmoved.name
  products := declares.products.trans unmoved.products
  targets := declares.targets.trans targets
  declarations := by
    obtain ⟨early, late, old, new⟩ := declares.declarations
    exact ⟨early, late, unmoved.declarations.symm.trans old, new⟩

section

variable {text final : String} {parens brackets : Span} {token : Token}
  {declaration : Declaration}

/-- A new element in a slot of the array adds nothing but its declaration. -/
theorem Slot.lodge (introduces : Introduces token declaration)
    {blank tail : List Char} {previous place : Nat} {before after : List Char}
    {middle : Mode}
    (slot : Slot (Source.ofText text) brackets blank previous place)
    (site : Site text (token.fragment blank tail) place before after middle)
    (isBlank : IsBlank blank) (isTail : IsTail tail)
    (array : PackageArray (Source.ofText text) parens brackets) :
    Lodge site.insertion parens brackets ∧ Quiet site.insertion := by
  have good := site.fit.good
  have known : PackageArray site.insertion.source parens brackets := array
  have lodge := known.lodge (slot.seam site) (slot.atEnd site.toSpot)
  exact ⟨lodge, lodge.quiet
    (fun name sought => ((introduces.calls name sought).fragment
      (isWord_of_sought sought) isBlank isTail).occurrences good
        (isWord_of_sought sought))
    ((introduces.package.fragment (by decide) isBlank isTail).occurrences good
      (by decide))⟩

/-- A new element in a slot of the array is the last one of it, and is listed as a
declaration. -/
theorem Slot.lists (introduces : Introduces token declaration)
    {blank tail : List Char} {previous place : Nat} {before after : List Char}
    {middle : Mode}
    (slot : Slot (Source.ofText text) brackets blank previous place)
    (site : Site text (token.fragment blank tail) place before after middle)
    (isBlank : IsBlank blank) (isTail : IsTail tail)
    (array : PackageArray (Source.ofText text) parens brackets) :
    ∃ brackets' range other,
      PackageArray site.insertion.result (site.insertion.pair parens) brackets' ∧
      site.insertion.result.elements brackets' =
        (Source.ofText text).elements brackets ++ [range] ∧
      other.located = declaration ∧
      (other, range) ∈ declarationsIn site.insertion.result := by
  obtain ⟨lodge, quiet⟩ := slot.lodge introduces site isBlank isTail array
  have known : PackageArray site.insertion.source parens brackets := array
  have elements := lodge.atEnd.elements_item
    (Token.isItem introduces.good isBlank isTail) quiet.balanced slot.least
    slot.before slot.cut slot.clear
  obtain ⟨arguments, calls⟩ := introduces.call
  obtain ⟨other, located, member⟩ := calls.mem_declarationsIn site lodge.seam
    (introduces.reads site lodge.seam)
  rw [lodge.atEnd.pair_eq] at elements
  exact ⟨_, _, other, known.moved lodge quiet, elements, located, member⟩

/-- A new element in a slot of the array is one more declaration. -/
theorem Slot.declares (introduces : Introduces token declaration)
    {blank tail : List Char} {previous place : Nat} {before after : List Char}
    {middle : Mode}
    (slot : Slot (Source.ofText text) brackets blank previous place)
    (site : Site text (token.fragment blank tail) place before after middle)
    (isBlank : IsBlank blank) (isTail : IsTail tail)
    (array : PackageArray (Source.ofText text) parens brackets) :
    Declares text (joined before (token.fragment blank tail) after)
      declaration := by
  obtain ⟨lodge, quiet⟩ := slot.lodge introduces site isBlank isTail array
  have known : PackageArray site.insertion.source parens brackets := array
  have name := packageName_shift quiet
  have products := congrArg (Option.getD · []) (products_shift quiet)
  have targets := known.targets lodge quiet
  have declared := declared_between quiet (introduces.single isBlank isTail)
    (introduces.reads site lodge.seam)
  rw [← ofSource_name, ← ofSource_name] at name
  simp only [← ofSource_products] at products
  rw [site.result_eq] at name products targets declared
  refine
    { closed := site.closed_result
      name := name
      products := products
      targets := targets
      declarations := ?_ }
  obtain ⟨early, late, old, new⟩ := declared
  refine ⟨early, late, ?_, ?_⟩
  · rw [Outline.ofText, ofSource_declarations, List.map_map]
    exact old
  · rw [Outline.ofText, ofSource_declarations, List.map_map]
    exact new

/-- An element that is appended to the array is one more declaration. -/
theorem Appends.declares (introduces : Introduces token declaration)
    (appends : Appends token text brackets final)
    (array : PackageArray (Source.ofText text) parens brackets) :
    Declares text final declaration := by
  induction appends generalizing parens with
  | element isBlank isTail slot site =>
      exact slot.declares introduces site isBlank isTail array
  | @comma text final brackets last before after middle element none site later
      inductionHypothesis =>
      -- the comma changes nothing, and the array is one position longer
      have good := site.fit.good
      have seam := comma_seam element none site
      have known : PackageArray site.insertion.source parens brackets := array
      have lodge := known.lodge seam (comma_atEnd element site.toSpot)
      have quiet := lodge.quiet
        (fun name sought => (commaFragment_silent.calls name sought).occurrences
          good (isWord_of_sought sought))
        (commaFragment_silent.package.occurrences good (by decide))
      have unmoved := package_shift quiet
        (commaFragment_silent.declares.occurrences good (by decide +kernel))
      have targets := known.targets lodge quiet
      have moved := known.moved lodge quiet
      have width : site.insertion.width = 1 := commaFragment_size
      rw [width, site.result_eq] at moved
      rw [site.result_eq] at unmoved targets
      exact (inductionHypothesis moved).behind unmoved targets

end

end PackageLayers.Manifest

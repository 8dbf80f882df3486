/-
Purpose: Where the parts of an outline lie in its text.
Main exports: Block.IsPlaced, Declaration.IsPlaced, Outline.IsPlaced,
  Outline.isPlaced_ofText
-/
import PackageLayers.Proofs.Manifest.Targets
import PackageLayers.Proofs.Source.Boundaries

namespace PackageLayers.Manifest

open Source (Span Quoted IsPair Between CodeAt StandsAt isWord)

/-!
Edits are made at the places that an outline names, so the places must be right for
any text, however it is malformed.  They lie between characters, declarations come
one behind the other, and what belongs to a declaration lies inside of it.
-/

/-! ### Places -/

/-- The positions before and behind each of two brackets. -/
def bracketEnds (span : Span) : List Nat :=
  [span.start, span.start + 1, span.stop, span.stop + 1]

/-- The positions before and behind a range. -/
def rangeEnds (range : Span) : List Nat := [range.start, range.stop]

/-- The places that an argument names. -/
def DependencyArgument.places : DependencyArgument → List Nat
  | .array brackets => bracketEnds brackets
  | _ => []

/-- The places that a declaration of a target names. -/
def Block.places (block : Block) : List Nat :=
  block.dot :: (bracketEnds block.parens ++ rangeEnds block.nameLiteral ++
    block.argument.places ++
      block.entries.flatMap fun entry => rangeEnds entry.range)

/-- The places that an outline names. -/
def Outline.places (outline : Outline) : List Nat :=
  outline.call.toList.flatMap bracketEnds ++
    outline.declarationArray.toList.flatMap bracketEnds ++
    outline.targetsLabel.toList ++ outline.blocks.flatMap Block.places ++
    outline.skipped.map Skipped.dot ++
    outline.declarationRanges.flatMap rangeEnds

/-- A declaration of a target is a constructor of its kind with balanced
parentheses.  The literal of the name and the array of dependencies lie inside of
them, and the entries inside of the array. -/
structure Block.IsPlaced (source : Source) (block : Block) : Prop where
  constructor : ∃ name, (name, block.target.kind) ∈ TargetKind.constructors ∧
    CodeAt source ("." ++ name).toList block.dot
  order : block.dot < block.parens.start
  parens : IsPair source .round block.parens
  name : block.parens.start < block.nameLiteral.start ∧
    block.nameLiteral.start < block.nameLiteral.stop ∧
    block.nameLiteral.stop ≤ block.parens.stop
  value : source.literalAt? block.nameLiteral.start =
    some ⟨block.nameLiteral.start, block.nameLiteral.stop, block.target.name⟩
  array : ∀ brackets, block.argument = .array brackets →
    IsPair source .square brackets ∧ block.parens.start < brackets.start ∧
      brackets.stop < block.parens.stop ∧
      block.entries.map Entry.range = source.elements brackets
  entries : ∀ entry ∈ block.entries,
    entry.dependency = dependencyIn? source entry.range ∧
      ∃ brackets, block.argument = .array brackets ∧
        brackets.start < entry.range.start ∧
        entry.range.start < entry.range.stop ∧ entry.range.stop ≤ brackets.stop
  apart : block.entries.Pairwise fun first second =>
    first.range.stop < second.range.start
  dependencies :
    block.target.dependencies = block.entries.filterMap Entry.dependency

/-- A declaration of a package is what a call of `.package` says, from its dot to
behind its closing parenthesis. -/
structure Declaration.IsPlaced (source : Source) (declaration : Declaration)
    (range : Span) : Prop where
  word : CodeAt source ".package".toList range.start
  call : ∃ parens, source.nextSignificant? (range.start + ".package".length)
      source.size = some parens.start ∧
    IsPair source .round parens ∧ range.stop = parens.stop + 1 ∧
    declaration = declarationAt source parens

/-- An outline names places of a text where the text has what the outline says. -/
structure Outline.IsPlaced (text : String) (outline : Outline) : Prop where
  places : ∀ place ∈ outline.places, Between text.toList place
  call : ∀ call ∈ outline.call, IsPair (Source.ofText text) .round call
  array : ∀ brackets ∈ outline.declarationArray,
    IsPair (Source.ofText text) .square brackets ∧
      ∃ call ∈ outline.call, call.start < brackets.start ∧ brackets.stop < call.stop
  label : ∀ label ∈ outline.targetsLabel,
    StandsAt (Source.ofText text) "targets".toList label
  blocks : ∀ block ∈ outline.blocks, block.IsPlaced (Source.ofText text)
  apart : outline.blocks.Pairwise fun first second =>
    first.parens.stop < second.dot
  targets : outline.package.targets = outline.blocks.map Block.target
  declarations : List.Forall₂ (Declaration.IsPlaced (Source.ofText text))
    outline.package.declarations outline.declarationRanges

/-! ### Values of arguments -/

section

variable {source : Source} {parens : Span} {label : String}

/-- The value of an argument lies inside of the parentheses. -/
theorem value_inside (names : label.toList.all Source.isNameChar) {value : Nat}
    (found : value? source parens label = some value) :
    parens.start < value ∧ value < parens.stop := by
  obtain ⟨position, c, colon, member, -, labelled, next⟩ :=
    value_eq_some names found
  have lower := (Source.mem_topLevel.mp member).1
  have behind := (Source.next_eq_some_iff.mp labelled.next).1
  obtain ⟨above, below, -⟩ := Source.next_eq_some_iff.mp next
  omega

theorem isPair_of_arrayAt {position : Nat} {brackets : Span}
    (found : arrayAt? source position = some brackets) :
    IsPair source .square brackets ∧ brackets.start = position := by
  unfold arrayAt? at found
  split at found
  · rename_i char
    obtain ⟨stop, partner, rfl⟩ := Option.map_eq_some_iff.mp found
    exact ⟨Source.isPair_of_partner char partner, rfl⟩
  · cases found

/-- An array argument lies inside of the parentheses. -/
theorem labelArray_inside (names : label.toList.all Source.isNameChar)
    (pair : IsPair source .round parens) {brackets : Span}
    (found : labelArray? source parens label = some brackets) :
    IsPair source .square brackets ∧ parens.start < brackets.start ∧
      brackets.stop < parens.stop := by
  rw [labelArray_eq] at found
  obtain ⟨value, here, array⟩ := Option.bind_eq_some_iff.mp found
  obtain ⟨square, rfl⟩ := isPair_of_arrayAt array
  obtain ⟨lower, upper⟩ := value_inside names here
  exact ⟨square, lower, pair.matched.encloses square.matched lower upper⟩

end

/-! ### What lies between characters -/

section

variable {text : String} {kind : BracketKind} {span : Span}

theorem bracket_between {position : Nat} {side : Bracket}
    (code : (Source.ofText text).codeAt? position = some side.char) :
    Between text.toList position ∧ Between text.toList (position + 1) := by
  have char := Source.charAt_of_codeAt code
  exact ⟨Source.between_of_charAt char, Source.between_of_isBoundary
    (Source.boundary_behind char side.utf8Size_char)⟩

theorem pair_between (pair : IsPair (Source.ofText text) kind span) :
    ∀ place ∈ bracketEnds span, Between text.toList place := by
  obtain ⟨before, behind⟩ := bracket_between pair.opens
  obtain ⟨before', behind'⟩ := bracket_between pair.closes
  simp only [bracketEnds, List.forall_mem_cons]
  exact ⟨before, behind, before', behind', List.forall_mem_nil _⟩

theorem behind_opening (pair : IsPair (Source.ofText text) kind span) :
    Between text.toList (span.start + 1) :=
  pair_between pair _ (by simp [bracketEnds])

theorem closing_between (pair : IsPair (Source.ofText text) kind span) :
    Between text.toList span.stop :=
  pair_between pair _ (by simp [bracketEnds])

/-- Elements start and end between characters. -/
theorem element_between (pair : IsPair (Source.ofText text) kind span)
    {range : Span} (member : range ∈ (Source.ofText text).elements span) :
    ∀ place ∈ rangeEnds range, Between text.toList place := by
  obtain ⟨first, final⟩ := Source.between_of_element pair.matched member
  simp only [rangeEnds, List.forall_mem_cons]
  exact ⟨first, final, List.forall_mem_nil _⟩

/-- Code starts between characters. -/
theorem code_between {word : List Char} (filled : word ≠ []) {position : Nat}
    (code : CodeAt (Source.ofText text) word position) :
    Between text.toList position :=
  Source.between_of_charAt (Source.charAt_of_codeAt
    (code 0 _ (List.getElem?_eq_getElem (List.length_pos_of_ne_nil filled))))

end

/-! ### Declarations of targets -/

section

variable {source : Source} {block : Block}

/-- An array of dependencies lies inside of the parentheses. -/
theorem array_inside (written : Written source block)
    (parens : IsPair source .round block.parens) {brackets : Span}
    (array : block.argument = .array brackets) :
    IsPair source .square brackets ∧ block.parens.start < brackets.start ∧
      brackets.stop < block.parens.stop := by
  rw [written.argument] at array
  exact labelArray_inside (by decide) parens (array_of_argument array)

/-- The entries of a declaration are the elements of its array. -/
theorem mem_entries (written : Written source block) {entry : Entry}
    (member : entry ∈ block.entries) :
    ∃ brackets, block.argument = .array brackets ∧
      entry.range ∈ source.elements brackets ∧
      entry.dependency = dependencyIn? source entry.range := by
  rw [written.entries] at member
  cases argument : block.argument with
  | absent =>
      rw [argument] at member
      cases member
  | expression =>
      rw [argument] at member
      cases member
  | array brackets =>
      rw [argument] at member
      obtain ⟨range, here, rfl⟩ := List.mem_map.mp member
      exact ⟨brackets, rfl, here, rfl⟩

theorem ranges_of_array (written : Written source block) {brackets : Span}
    (array : block.argument = .array brackets) :
    block.entries.map Entry.range = source.elements brackets := by
  rw [written.entries, array, DependencyArgument.entries, entriesIn, List.map_map]
  exact List.map_id _

theorem entries_apart (written : Written source block) :
    block.entries.Pairwise fun first second =>
      first.range.stop < second.range.start := by
  have ranges : (block.entries.map Entry.range).Pairwise fun first second =>
      first.stop < second.start := by
    cases argument : block.argument with
    | array brackets =>
        rw [ranges_of_array written argument]
        exact Source.elements_apart source brackets
    | absent =>
        rw [written.entries, argument]
        exact List.Pairwise.nil
    | expression =>
        rw [written.entries, argument]
        exact List.Pairwise.nil
  exact List.pairwise_map.mp ranges

theorem kind_of_blockAt {candidate : Candidate} {stop : Nat}
    (read : blockAt? source candidate stop = some block) :
    block.target.kind = candidate.kind := by
  obtain ⟨name, -, made⟩ := Option.bind_eq_some_iff.mp read
  split at made
  · cases made
  · cases made
    rfl

end

section

variable {text : String} {block : Block}

/-- The literal of a target's name lies inside of the parentheses. -/
theorem name_inside (written : Written (Source.ofText text) block)
    (parens : IsPair (Source.ofText text) .round block.parens) :
    (block.parens.start < block.nameLiteral.start ∧
      block.nameLiteral.start < block.nameLiteral.stop ∧
      block.nameLiteral.stop ≤ block.parens.stop) ∧
    (Source.ofText text).literalAt? block.nameLiteral.start =
      some ⟨block.nameLiteral.start, block.nameLiteral.stop, block.target.name⟩ ∧
    ∀ place ∈ rangeEnds block.nameLiteral, Between text.toList place := by
  obtain ⟨quoted, found, name, range⟩ := written.name
  obtain ⟨value, there, literal, known, start, stop⟩ :=
    literal_of_labelLiteral found
  obtain ⟨lower, upper⟩ := value_inside (by decide) value
  have order := (Source.literal_inside known).1
  have ends := Source.between_of_literal known
  rw [start, stop] at ends
  rw [range, name]
  refine ⟨⟨lower, by simp only; omega, ?_⟩, there, ?_⟩
  · by_contra beyond
    have none : (Source.ofText text).codeAt? block.parens.stop = none :=
      Source.codeAt_none_of_literal known (by omega)
        (by simp only at beyond; omega)
    rw [parens.closes] at none
    cases none
  · simp only [rangeEnds, List.forall_mem_cons]
    exact ⟨ends.1, ends.2, List.forall_mem_nil _⟩

/-- Every declaration of a target is placed. -/
theorem isPlaced_of_mem (member : block ∈ blocksOf (Source.ofText text)) :
    block.IsPlaced (Source.ofText text) := by
  obtain ⟨candidate, known, stop, partner, read⟩ := constructor_of_mem member
  obtain ⟨name, constructor, code, -, opens⟩ := call_of_candidate known
  obtain ⟨written, dot, parens⟩ := written_of_blockAt
    (Source.matched_of_partner partner) opens (order_of_candidate known) read
  have pair : IsPair (Source.ofText text) .round block.parens := by
    rw [parens]
    exact Source.isPair_of_partner opens partner
  obtain ⟨inside, value, -⟩ := name_inside written pair
  exact
    { constructor :=
        ⟨name, by rw [kind_of_blockAt read]; exact constructor, dot ▸ code⟩
      order := written.order
      parens := pair
      name := inside
      value := value
      array := fun brackets array => by
        obtain ⟨square, lower, upper⟩ := array_inside written pair array
        exact ⟨square, lower, upper, ranges_of_array written array⟩
      entries := fun entry member => by
        obtain ⟨brackets, array, here, same⟩ := mem_entries written member
        have bounds := Source.mem_elementsIn_bounds here
        exact ⟨same, brackets, array, bounds⟩
      apart := entries_apart written
      dependencies := written.dependencies }

/-- The places of a declaration lie between characters. -/
theorem places_of_mem (member : block ∈ blocksOf (Source.ofText text)) :
    ∀ place ∈ block.places, Between text.toList place := by
  have written := written_of_mem member
  have placed := isPlaced_of_mem member
  obtain ⟨name, -, code⟩ := placed.constructor
  simp only [Block.places, List.forall_mem_cons, List.forall_mem_append]
  refine ⟨code_between (by simp) code, ⟨⟨pair_between placed.parens,
    (name_inside written placed.parens).2.2⟩, ?_⟩, ?_⟩
  · cases argument : block.argument with
    | array brackets => exact pair_between (placed.array brackets argument).1
    | absent => exact List.forall_mem_nil _
    | expression => exact List.forall_mem_nil _
  · intro place inside
    obtain ⟨entry, here, ends⟩ := List.mem_flatMap.mp inside
    obtain ⟨brackets, array, range, -⟩ := mem_entries written here
    exact element_between (placed.array brackets array).1 range place ends

end

/-! ### Declarations of packages -/

section

variable {source : Source}

/-- Declarations and their ranges are found together. -/
theorem isPlaced_of_declarationsIn {entry : Declaration × Span}
    (member : entry ∈ declarationsIn source) : entry.1.IsPlaced source entry.2 := by
  have good : isWord ("." ++ "package").toList := by decide
  have word : "." ++ "package" = ".package" := by decide +kernel
  obtain ⟨call, called, here⟩ := List.mem_filterMap.mp member
  obtain ⟨stop, partner, rfl⟩ := Option.map_eq_some_iff.mp here
  obtain ⟨code, next, opens⟩ := Source.mem_memberCalls good called
  rw [word] at code next
  exact ⟨code, ⟨call.paren, stop⟩, next,
    Source.isPair_of_partner opens partner, rfl, rfl⟩

theorem declarations_parallel (source : Source) :
    List.Forall₂ (Declaration.IsPlaced source)
      ((declarationsIn source).map Prod.fst)
      ((declarationsIn source).map Prod.snd) := by
  rw [List.forall₂_map_left_iff, List.forall₂_map_right_iff, List.forall₂_same]
  exact fun entry member => isPlaced_of_declarationsIn member

theorem range_between {text : String} {entry : Declaration × Span}
    (member : entry ∈ declarationsIn (Source.ofText text)) :
    ∀ place ∈ rangeEnds entry.2, Between text.toList place := by
  have placed := isPlaced_of_declarationsIn member
  obtain ⟨parens, -, pair, stop, -⟩ := placed.call
  simp only [rangeEnds, List.forall_mem_cons, stop]
  exact ⟨code_between (by decide +kernel) placed.word,
    (bracket_between pair.closes).2, List.forall_mem_nil _⟩

end

/-! ### Outlines -/

section

variable {source : Source}

theorem pair_of_call {call : Span} (found : packageCall? source = some call) :
    IsPair source .round call := by
  obtain ⟨matched, opens⟩ := packageCall_matched found
  exact Source.isPair_of_partner opens (Source.partner_of_matched matched)

/-- The array of declarations lies inside of the call. -/
theorem array_of_outline {brackets : Span}
    (found : (Outline.ofSource source).declarationArray = some brackets) :
    IsPair source .square brackets ∧ ∃ call, packageCall? source = some call ∧
      call.start < brackets.start ∧ brackets.stop < call.stop := by
  rw [ofSource_array] at found
  obtain ⟨call, here, array⟩ := Option.bind_eq_some_iff.mp found
  obtain ⟨square, inside⟩ := labelArray_inside (by decide) (pair_of_call here) array
  exact ⟨square, call, here, inside⟩

/-- The word `targets` stands at the place of the label. -/
theorem label_of_outline {label : Nat}
    (found : (Outline.ofSource source).targetsLabel = some label) :
    StandsAt source "targets".toList label := by
  rw [ofSource_label] at found
  obtain ⟨after, -, last⟩ := Option.bind_eq_some_iff.mp found
  have here := List.find?_some last
  rwa [Source.footprint_of_names (by decide), Source.matchesAt_iff] at here

end

section

variable {text : String}

theorem skipped_between {skipped : Skipped}
    (member : skipped ∈ (Outline.ofSource (Source.ofText text)).skipped) :
    Between text.toList skipped.dot := by
  rw [ofSource_skipped] at member
  obtain ⟨finding, here, same⟩ := List.mem_filterMap.mp member
  obtain ⟨candidate, known, turns⟩ := mem_findings here
  cases turns with
  | block => cases same
  | skipped =>
      cases same
      obtain ⟨name, -, code, -⟩ := call_of_candidate known
      exact code_between (by simp) code

/-- All places of an outline lie between characters. -/
theorem places_of_outline :
    ∀ place ∈ (Outline.ofSource (Source.ofText text)).places,
      Between text.toList place := by
  simp only [Outline.places, List.forall_mem_append]
  refine ⟨⟨⟨⟨⟨?_, ?_⟩, ?_⟩, ?_⟩, ?_⟩, ?_⟩
  · intro place member
    obtain ⟨call, found, ends⟩ := List.mem_flatMap.mp member
    rw [ofSource_call, Option.mem_toList] at found
    exact pair_between (pair_of_call found) place ends
  · intro place member
    obtain ⟨brackets, found, ends⟩ := List.mem_flatMap.mp member
    rw [Option.mem_toList] at found
    exact pair_between (array_of_outline found).1 place ends
  · intro place found
    rw [Option.mem_toList] at found
    exact Source.between_of_charAt (label_of_outline found 0 't' rfl)
  · intro place member
    obtain ⟨block, found, inside⟩ := List.mem_flatMap.mp member
    rw [ofSource_blocks] at found
    exact places_of_mem found place inside
  · intro place member
    obtain ⟨skipped, found, rfl⟩ := List.mem_map.mp member
    exact skipped_between found
  · intro place member
    obtain ⟨range, found, ends⟩ := List.mem_flatMap.mp member
    rw [ofSource_ranges] at found
    obtain ⟨entry, here, rfl⟩ := List.mem_map.mp found
    exact range_between here place ends

/-- The outline of any text names places between its characters.  Declarations of
targets come one behind the other, each with its name and its entries inside of its
parentheses, and the declarations of packages have their ranges. -/
theorem Outline.isPlaced_ofText (text : String) :
    (Outline.ofText text).IsPlaced text := by
  rw [Outline.ofText]
  exact
    { places := places_of_outline
      call := by
        rw [ofSource_call]
        exact fun call found => pair_of_call found
      array := by
        rw [ofSource_call]
        exact fun brackets found => array_of_outline found
      label := fun label found => label_of_outline found
      blocks := by
        rw [ofSource_blocks]
        exact fun block member => isPlaced_of_mem member
      apart := by
        rw [ofSource_blocks]
        exact (findings_apart fun _ member =>
          ⟨mem_candidates member, order_of_candidate member⟩).2
      targets := by rw [ofSource_targets, ofSource_blocks]
      declarations := by
        rw [ofSource_declarations, ofSource_ranges]
        exact declarations_parallel _ }

end

end PackageLayers.Manifest

/-
Purpose: What the dots of a printed manifest are found to be.
Main exports: Shows.enclosing_item, Printed.container, findings_targets,
  call_of_target, declarations_dots
-/
import PackageLayers.Proofs.Manifest.Readback

namespace PackageLayers.Manifest

open Source (Span CodeAt isName isWord Balanced)

/-!
Every dot of a printed manifest is that of a product, of a declaration, of a target
or of a dependency of a target.  The name behind it tells the declarations from the
others, and the bracket around it the targets.
-/

section

variable {source : Source} {offset : Nat}

/-! ### Brackets around items -/

/-- The bracket around the items of an array. -/
theorem Shows.enclosing_item {α : Type} {print : α → List Piece} {items : List α}
    (shows : Shows source offset (bracketed (items.map print)))
    (balanced : ∀ item ∈ items, Balanced (codeIn (print item)))
    {entry : Nat × α} (member : entry ∈ placed print (offset + 1) items) :
    source.enclosing? entry.1 = some offset := by
  have all : ∀ item ∈ items.map print, Balanced (codeIn item) := by
    intro item here
    obtain ⟨part, inside, rfl⟩ := List.mem_map.mp here
    exact balanced part inside
  have matched := @Shows.matched _ _ .square _ _ _ shows rfl rfl (balanced_listed all)
  obtain ⟨-, lower, upper⟩ := shows.inside.item member
  exact matched.enclosing_of_level (Nat.lt_of_succ_le lower)
    (by simp only; omega) (shows.inside.level_item balanced member)

theorem arrayArgument_pieces (label : String) (items : List (List Piece)) :
    (arrayArgument label items).pieces =
      plainly label.toList ++ .code ':' :: .code ' ' :: bracketed items := by
  rw [Argument.pieces, arrayArgument]

section

variable {arguments before after : List Argument} {label : String}
  {items : List (List Piece)} (printed : Printed source offset arguments)
  (split : arguments = before ++ arrayArgument label items :: after)

include printed split

/-- The word before the colon of an argument is its label. -/
theorem Printed.wordBefore : wordBefore? source
    (labelPlace offset before + label.toList.length) =
      some (labelPlace offset before, label) := by
  have name : isName label :=
    (printed.good (arrayArgument label items) (by rw [split]; simp)).label
  have filled := List.length_pos_of_ne_nil (Source.names_of_isName name).2
  have shows := printed.shows_argument split
  rw [arrayArgument_pieces] at shows
  obtain ⟨length, last⟩ := Nat.exists_eq_succ_of_ne_zero (Nat.ne_of_gt filled)
  have code (index : Nat) (inside : index < label.toList.length) :
      ∃ c, source.codeAt? (labelPlace offset before + index) = some c ∧
        Source.isNameChar c :=
    ⟨_, shows.plain (List.getElem?_eq_getElem inside),
      name_plain name _ (List.getElem_mem inside)⟩
  refine wordBefore_eq_some.mpr ⟨labelPlace offset before + length,
    { found := Source.last_eq_some_iff.mpr ⟨Nat.zero_le _, by omega, ?_,
        fun other lower upper => by omega⟩
      order := Nat.le_add_right _ _
      names := fun position lower upper => ?_
      starts := Or.inr (printed.before_label split) }, ?_⟩
  · obtain ⟨c, here, known⟩ := code length (by omega)
    exact Source.isSignificant_of_isNameAt here known
  · obtain ⟨index, rfl⟩ := Nat.exists_eq_add_of_le lower
    obtain ⟨c, here, known⟩ := code index (by omega)
    exact Source.isNameAt_iff.mpr ⟨c, Source.charAt_of_codeAt here, known⟩
  · have slice := shows.front.slice
    rw [Nat.add_assoc, show length + 1 = label.toList.length from last.symm]
    exact (String.toList_inj.mp slice).symm

/-- Whether targets stand in the array of an argument is told by the label. -/
theorem Printed.container (known : label ≠ "contentsOf") :
    isTargetsContainer source (bracketPlace offset before label) =
      (label == "targets") := by
  have word := printed.wordBefore split
  have shows := printed.shows_argument split
  rw [arrayArgument_pieces] at shows
  have colon := shows.back.code
  have blank := (@Shows.back _ _ _ [.code ':'] shows.back).code
  have bracket := (@Shows.back _ _ _ [.code ':', .code ' '] shows.back).code
  have one : lengthOf [Piece.code ':'] = 1 := rfl
  have two : lengthOf [Piece.code ':', .code ' '] = 2 := rfl
  rw [lengthOf_plainly] at colon blank bracket
  rw [one] at blank
  rw [two, Nat.add_assoc] at bracket
  have char := Source.charAt_of_codeAt bracket
  have last : source.lastSignificant? 0 (bracketPlace offset before label) =
      some (labelPlace offset before + label.toList.length) := by
    refine Source.last_eq_some_iff.mpr ⟨Nat.zero_le _, by rw [bracketPlace]; omega,
      Source.isSignificant_of_codeAt colon rfl, fun other lower upper => ?_⟩
    obtain rfl : other = labelPlace offset before + label.toList.length + 1 := by
      rw [bracketPlace] at upper
      omega
    rw [isSignificant_eq, Source.codeAt_eq_some blank]
    rfl
  have char : source.charAt? (bracketPlace offset before label) = some '[' :=
    Source.charAt_of_codeAt bracket
  rw [isTargetsContainer, char, if_neg (by decide), if_pos rfl,
    isTargetsArray_eq, last]
  simp [Source.charAt_of_codeAt colon, isTargetsLabel, word, known]

end

/-! ### Findings -/

/-- A printed call is a call of its name and of no other. -/
theorem Shows.callOf {dot : Nat} {name : String} {arguments : List Argument}
    (shows : Shows source dot (memberCall name arguments))
    (good : isWord ("." ++ name).toList) {name' : String}
    (good' : isWord ("." ++ name').toList) :
    callOf source name' dot =
      if name = name' then some ⟨dot, parenAt dot name⟩ else none := by
  rw [← List.append_nil (memberCall _ _)] at shows
  have inside := Source.lt_size_of_codeAt shows.paren
  have found := shows.leadingCall good (Nat.le_of_lt inside)
  by_cases same : name = name'
  · rw [if_pos same, ← same, PackageLayers.Manifest.callOf, found]
    rfl
  · rw [if_neg same, PackageLayers.Manifest.callOf, Option.map_eq_none_iff,
      Option.eq_none_iff_forall_ne_some]
    intro paren other
    exact same (leadingCall_unique good good' rfl found other)

theorem constructor_known (kind : TargetKind) :
    (kind.constructor, kind) ∈ TargetKind.constructors := by
  cases kind <;> decide

theorem isWord_constructor {name : String} {kind : TargetKind}
    (known : (name, kind) ∈ TargetKind.constructors) :
    isWord ("." ++ name).toList :=
  isWord_of_sought (List.mem_append_left _ (List.mem_map.mpr ⟨_, known, rfl⟩))

/-- The constructor of a printed target. -/
theorem Shows.candidateOf {dot : Nat} {target : Target}
    (shows : Shows source dot (targetPieces target)) :
    candidateOf? source dot = some ⟨target.kind, dot,
      parenAt dot target.kind.constructor⟩ := by
  have known := constructor_known target.kind
  have word := isWord_constructor known
  have call (made : String × TargetKind)
      (there : made ∈ TargetKind.constructors) :
      PackageLayers.Manifest.callOf source made.1 dot =
        if target.kind.constructor = made.1 then
          some ⟨dot, parenAt dot target.kind.constructor⟩ else none :=
    Shows.callOf shows word (isWord_constructor there)
  have single : ∀ made ∈ TargetKind.constructors,
      target.kind.constructor = made.1 → made.2 = target.kind := by
    cases target.kind <;> decide
  rw [candidateOf?]
  cases found : TargetKind.constructors.findSome? fun made =>
      (PackageLayers.Manifest.callOf source made.1 dot).map
        (PackageLayers.Manifest.candidateOf made.2) with
  | none =>
      have none := List.findSome?_eq_none_iff.mp found _ known
      rw [call _ known, if_pos rfl] at none
      cases none
  | some candidate =>
      obtain ⟨made, there, here⟩ := List.exists_of_findSome?_eq_some found
      rw [call _ there] at here
      split at here
      · rename_i same
        cases here
        rw [PackageLayers.Manifest.candidateOf, single made there same]
      · cases here

/-- Constructors inside of a declaration that was read, or where no targets stand,
are passed over. -/
theorem findings_skip {covered : Nat} {dots : List Nat}
    (skip : ∀ dot ∈ dots, dot < covered ∨
      (source.enclosing? dot).any (isTargetsContainer source) = false)
    (rest : List Nat) :
    findings source covered ((dots ++ rest).filterMap (candidateOf? source)) =
      findings source covered (rest.filterMap (candidateOf? source)) := by
  induction dots with
  | nil => rfl
  | cons dot dots inductionHypothesis =>
      have later := inductionHypothesis fun other member =>
        skip other (List.mem_cons_of_mem dot member)
      rw [List.cons_append, List.filterMap_cons]
      cases found : candidateOf? source dot with
      | none => exact later
      | some candidate =>
          have passed : candidate.dot < covered ||
              !(source.enclosing? candidate.dot).any
                (isTargetsContainer source) := by
            rw [dot_of_candidateOf found]
            rcases skip dot List.mem_cons_self with inside | outside
            · simp [inside]
            · simp [outside]
          simp only [findings, passed, if_true]
          exact later

/-- Targets that are printed where targets stand are read back. -/
theorem findings_targets {entries : List (Nat × Target)} {covered : Nat}
    (each : ∀ entry ∈ entries, Shows source entry.1 (targetPieces entry.2) ∧
      covered ≤ entry.1 ∧
        (source.enclosing? entry.1).any (isTargetsContainer source))
    (apart : entries.Pairwise fun first second =>
      first.1 + lengthOf (targetPieces first.2) < second.1) :
    ((findings source covered ((entries.flatMap fun entry =>
        dotsAt entry.1 (targetPieces entry.2)).filterMap
          (candidateOf? source))).filterMap Finding.block?).map Block.target =
      entries.map Prod.snd := by
  induction entries generalizing covered with
  | nil => rfl
  | cons entry entries inductionHypothesis =>
      obtain ⟨start, target⟩ := entry
      obtain ⟨front, later⟩ := List.pairwise_cons.mp apart
      obtain ⟨shows, free, around⟩ := each (start, target) List.mem_cons_self
      simp only at front shows free around
      obtain ⟨block, made, same⟩ := blockAt_pieces shows
      have printed := shows.call (targetArguments_sound target)
      have partner := Source.partner_of_matched printed.matched
      have opens : (parensAt (parenAt start target.kind.constructor)
          (targetArguments target)).start =
            parenAt start target.kind.constructor := rfl
      rw [opens] at partner
      have stop : start + lengthOf (targetPieces target) = _ := stop_memberCall
      have looked : (decide (start < covered) ||
          !(source.enclosing? start).any (isTargetsContainer source)) = false := by
        simp only [around, Bool.not_true, Bool.or_false, decide_eq_false_iff_not]
        omega
      have dots : dotsAt start (targetPieces target) = start :: _ :=
        dotsAt_call start (isName_constructor target.kind)
          (targetArguments target)
      have rest := @inductionHypothesis ((parensAt
          (parenAt start target.kind.constructor)
            (targetArguments target)).stop + 1) (fun other member => by
        obtain ⟨here, -, container⟩ := each other (List.mem_cons_of_mem _ member)
        have behind := front other member
        exact ⟨here, by omega, container⟩) later
      rw [List.flatMap_cons, List.map_cons]
      simp only [dots, List.cons_append, List.filterMap_cons, shows.candidateOf]
      rw [findings]
      simp only [looked, Bool.false_eq_true, if_false, partner, made]
      rw [findings_skip (fun dot member => Or.inl ?_), List.filterMap_cons]
      · simp only [Finding.block?, List.map_cons, same, rest]
      · have inside : dot ∈ dotsAt start (targetPieces target) := by
          rw [dots]
          exact List.mem_cons_of_mem _ member
        have upper := (shows.mem_dots.mp inside).2.1
        omega

end

/-! ### Dots of parts -/

section

variable {source : Source} {offset : Nat}

/-- The only dot of a call whose arguments have none is its own. -/
theorem dotsAt_single {name : String} (good : isName name)
    {arguments : List Argument}
    (quiet : ∀ argument ∈ arguments, ∀ place, dotsAt place argument.pieces = []) :
    dotsAt offset (memberCall name arguments) = [offset] := by
  rw [dotsAt_call offset good, dotsAt_listed]
  congr 1
  rw [List.flatMap_eq_nil_iff]
  exact fun entry member => quiet entry.2 (mem_of_placed member) entry.1

theorem dotsAt_texts (place : Nat) {label : String} (name : isName label)
    (texts : List String) :
    dotsAt place (arrayArgument label (texts.map textPieces)).pieces = [] := by
  rw [dotsAt_array _ name, dotsAt_listed, List.flatMap_eq_nil_iff]
  exact fun entry _ => dotsAt_of_lacks _ fun member => nomatch member

theorem dotsAt_product {product : Product} (known : product.kind ∈ productKinds) :
    dotsAt offset (productPieces product) = [offset] := by
  refine dotsAt_single (isName_productKind known) fun argument member place => ?_
  simp only [List.mem_cons, List.not_mem_nil, or_false] at member
  rcases member with rfl | rfl
  · exact dotsAt_text _ (by decide) _
  · exact dotsAt_texts _ (by decide) _

theorem dotsAt_declaration (declaration : Declaration) :
    dotsAt offset (declarationPieces declaration) = [offset] := by
  refine dotsAt_single (by decide) fun argument member place => ?_
  have name := (declarationArguments_sound declaration argument member).good.label
  obtain ⟨text, -, same⟩ := field_of_argument member
  rw [same]
  exact dotsAt_text _ name text

/-- The calls that are printed in targets. -/
def targetCalls : List String :=
  TargetKind.constructors.map Prod.fst ++ dependencyCalls

theorem call_of_dependency {dependency : Dependency}
    (shows : Shows source offset (dependencyPieces dependency)) {dot : Nat}
    (member : dot ∈ dotsAt offset (dependencyPieces dependency)) :
    ∃ name ∈ targetCalls, ∃ arguments,
      Shows source dot (memberCall name arguments) := by
  have quiet (label : String) (good : isName label) (text : String)
      (place : Nat) : dotsAt place (textArgument label text).pieces = [] :=
    dotsAt_text place good text
  cases dependency with
  | bare name => cases member
  | target name =>
      have single := @dotsAt_single offset "target" (by decide)
        [textArgument "name" name] (by simpa using quiet "name" (by decide) name)
      rw [dependencyPieces, single, List.mem_singleton] at member
      exact ⟨"target", by decide, _, member ▸ shows⟩
  | byName name =>
      have single := @dotsAt_single offset "byName" (by decide)
        [textArgument "name" name] (by simpa using quiet "name" (by decide) name)
      rw [dependencyPieces, single, List.mem_singleton] at member
      exact ⟨"byName", by decide, _, member ▸ shows⟩
  | product name package =>
      have single := @dotsAt_single offset "product" (by decide)
        [textArgument "name" name, textArgument "package" package] (by
          simpa using ⟨quiet "name" (by decide) name,
            quiet "package" (by decide) package⟩)
      rw [dependencyPieces, single, List.mem_singleton] at member
      exact ⟨"product", by decide, _, member ▸ shows⟩

/-- Every dot of a target is that of its constructor or of a dependency. -/
theorem call_of_target {target : Target}
    (shows : Shows source offset (targetPieces target)) {dot : Nat}
    (member : dot ∈ dotsAt offset (targetPieces target)) :
    ∃ name ∈ targetCalls, ∃ arguments,
      Shows source dot (memberCall name arguments) := by
  rw [targetPieces, dotsAt_call offset (isName_constructor target.kind),
    List.mem_cons, dotsAt_listed, List.mem_flatMap] at member
  rcases member with rfl | ⟨entry, argument, inside⟩
  · exact ⟨target.kind.constructor, List.mem_append_left _
      (List.mem_map.mpr ⟨_, constructor_known target.kind, rfl⟩), _, shows⟩
  · have here := ((shows.call (targetArguments_sound target)).inside.item
      argument).1
    have known := mem_of_placed argument
    generalize entry.2 = written at here known inside
    simp only [targetArguments, List.mem_cons, List.mem_append,
      Option.mem_toList, Option.map_eq_some_iff] at known
    rcases known with rfl | rfl | ⟨path, -, rfl⟩ | ⟨sources, -, rfl⟩
    · rw [dotsAt_text _ (by decide)] at inside
      cases inside
    · rw [dotsAt_array _ (by decide), dotsAt_listed, List.mem_flatMap] at inside
      obtain ⟨item, listed, inside⟩ := inside
      rw [Argument.pieces_eq] at here
      exact call_of_dependency (here.back.inside.item listed).1 inside
    · rw [dotsAt_text _ (by decide)] at inside
      cases inside
    · rw [dotsAt_texts _ (by decide)] at inside
      cases inside

end

/-! ### Declarations -/

/-- The declaration of a package whose dot is at a position. -/
def declarationOf? (source : Source) (dot : Nat) : Option Declaration :=
  (callOf source "package" dot).bind fun call =>
    (source.partner? call.paren).map fun stop =>
      declarationAt source ⟨call.paren, stop⟩

theorem isWord_package : isWord ("." ++ "package").toList := by decide

section

variable {source : Source} {dot : Nat}

/-- The declarations of a printed text, by their dots. -/
theorem declarations_dots {pieces : List Piece} (shows : Shows source 0 pieces)
    (size : source.size = lengthOf pieces) :
    (declarationsIn source).map Prod.fst =
      (dotsAt 0 pieces).filterMap (declarationOf? source) := by
  rw [declarationsIn, memberCalls_dots shows size isWord_package,
    List.map_filterMap, List.filterMap_filterMap]
  refine List.filterMap_congr fun dot _ => ?_
  rw [declarationOf?]
  cases callOf source "package" dot with
  | none => rfl
  | some call => simp [Function.comp_def]

/-- Another call is no declaration. -/
theorem Shows.no_declaration {name : String} {arguments : List Argument}
    (shows : Shows source dot (memberCall name arguments))
    (good : isWord ("." ++ name).toList) (other : name ≠ "package") :
    declarationOf? source dot = none := by
  rw [declarationOf?, Shows.callOf shows good isWord_package, if_neg other,
    Option.bind_none]

/-- A declaration is found at its dot. -/
theorem Shows.declarationOf {declaration : Declaration}
    (shows : Shows source dot (declarationPieces declaration)) :
    declarationOf? source dot = some declaration := by
  have printed := shows.call (declarationArguments_sound declaration)
  have partner := Source.partner_of_matched printed.matched
  have start : (parensAt (parenAt dot "package")
      (declarationArguments declaration)).start = parenAt dot "package" := rfl
  have read := declarationAt_pieces shows
  rw [start] at partner
  rw [declarationOf?, Shows.callOf shows isWord_package isWord_package,
    if_pos rfl, Option.bind_some, partner, Option.map_some]
  exact congrArg some read

end

end PackageLayers.Manifest

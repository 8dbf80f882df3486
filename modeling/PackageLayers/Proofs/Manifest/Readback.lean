/-
Purpose: What is printed of a package is read back, part by part.
Main exports: dependencyIn_pieces, blockAt_pieces, productIn_pieces,
  declarationAt_pieces
-/
import PackageLayers.Proofs.Manifest.Dots

namespace PackageLayers.Manifest

open Source (Span CodeAt isName isWord)

/-!
Every part of a package is printed as a call or as a value.  Wherever a text shows
such a part, the reader of that kind of part finds it there as it was.
-/

section

variable {source : Source} {offset : Nat}

/-! ### Arrays -/

/-- The brackets of an array that is shown at a position. -/
def bracketsAt (offset : Nat) (items : List (List Piece)) : Span :=
  ⟨offset, offset + 1 + lengthOf (listed items)⟩

section

variable {α : Type} {print : α → List Piece} {items : List α}

theorem mem_of_placed {start : Nat} {entry : Nat × α}
    (member : entry ∈ placed print start items) : entry.2 ∈ items := by
  have here := List.mem_map_of_mem (f := Prod.snd) member
  rwa [placed_snd] at here

/-- What is read off each item of an array is read off the array. -/
theorem Shows.filterMap_elements {β : Type} (read : Span → Option β)
    (value : α → Option β)
    (shows : Shows source offset (bracketed (items.map print)))
    (element : ∀ item ∈ items, IsElement (print item))
    (same : ∀ place, ∀ item ∈ items, Shows source place (print item) →
      read ⟨place, place + lengthOf (print item)⟩ = value item) :
    (source.elements (bracketsAt offset (items.map print))).filterMap read =
      items.filterMap value := by
  have elements := shows.inside.elementsIn element (Nat.le_refl _)
    fun position lower upper => by omega
  rw [Source.elements_eq, bracketsAt, elements, List.filterMap_map]
  exact filterMap_placed fun entry member =>
    same entry.1 entry.2 (mem_of_placed member) (shows.inside.item member).1

end

/-- The texts of an array of texts. -/
theorem Shows.textElements {texts : List String}
    (shows : Shows source offset (bracketed (texts.map textPieces))) :
    textElements source (bracketsAt offset (texts.map textPieces)) = texts := by
  have read := shows.filterMap_elements
    (fun range => (source.literalAt? range.start).map Source.Quoted.value)
    some (fun text _ => isElement_value text)
    (fun place text _ here => here.value)
  rw [List.filterMap_some] at read
  exact read

/-- Where the bracket of an argument is that has others in front of it. -/
def bracketPlace (offset : Nat) (before : List Argument) (label : String) : Nat :=
  labelPlace offset before + (label.toList.length + 2)

theorem place_arrayArgument {before : List Argument} {label : String}
    {items : List (List Piece)} :
    labelPlace offset before + lengthOf (arrayArgument label items).lead =
      bracketPlace offset before label := by
  rw [Argument.length_lead, bracketPlace, arrayArgument]

/-- The array that is the first argument with a label. -/
theorem Printed.array {arguments before after : List Argument} {label : String}
    {items : List (List Piece)} (printed : Printed source offset arguments)
    (split : arguments = before ++ arrayArgument label items :: after)
    (first : ∀ other ∈ before, other.label ≠ label) :
    labelArray? source (parensAt offset arguments) label =
        some (bracketsAt (bracketPlace offset before label) items) ∧
      Shows source (bracketPlace offset before label) (bracketed items) := by
  have value : (arrayArgument label items).value =
      .code '[' :: (listed items ++ [.code ']']) := by
    rw [arrayArgument, bracketed]
  have found := printed.labelArray split first value
  rwa [place_arrayArgument] at found

/-! ### Dependencies -/

theorem isElement_dependency (dependency : Dependency) :
    IsElement (dependencyPieces dependency) := by
  cases dependency with
  | bare name => exact isElement_value name
  | target name =>
      exact isElement_of_sound (by decide) (nameArgument_sound name)
  | byName name =>
      exact isElement_of_sound (by decide) (nameArgument_sound name)
  | product name package =>
      exact isElement_of_sound (by decide) (ownedArguments_sound name package)

section

variable {name : String} {arguments : List Argument}

/-- The parentheses of a call that is shown. -/
theorem Shows.call (shows : Shows source offset (memberCall name arguments))
    (sound : ∀ argument ∈ arguments, argument.Sound) :
    Printed source (parenAt offset name) arguments := by
  rw [← List.append_nil (memberCall name arguments)] at shows
  exact shows.printed fun argument member => (sound argument member).good

theorem lengthOf_memberCall : lengthOf (memberCall name arguments) =
    ("." ++ name).toList.length + lengthOf (parenthesized arguments) := by
  rw [memberCall, lengthOf_append, lengthOf_plainly]

/-- A call behind its name ends with its parentheses. -/
theorem stop_memberCall : offset + lengthOf (memberCall name arguments) =
    (parensAt (parenAt offset name) arguments).stop + 1 := by
  simp only [lengthOf_memberCall, parenthesized, parensAt, parenAt,
    lengthOf_cons_code, lengthOf_append, lengthOf_nil]
  omega

/-- A call that is an element writes a dependency with its arguments. -/
theorem Shows.dependencyIn (shows : Shows source offset
    (memberCall name arguments)) (known : name ∈ dependencyCalls)
    (sound : ∀ argument ∈ arguments, argument.Sound) :
    dependencyIn? source ⟨offset, offset + lengthOf (memberCall name arguments)⟩ =
      (Argument.textOf arguments "name").bind fun named =>
        match name with
        | "target" => some (.target named)
        | "byName" => some (.byName named)
        | _ => (Argument.textOf arguments "package").map fun package =>
            .product named package := by
  have printed := shows.call sound
  have inside : parenAt offset name ≤
      offset + lengthOf (memberCall name arguments) := by
    rw [lengthOf_memberCall, parenAt]
    omega
  rw [← List.append_nil (memberCall name arguments)] at shows
  have read := shows.dependency known inside
  rw [printed.calledDependency] at read
  exact read

end

/-- An entry of the dependencies of a target is read back. -/
theorem dependencyIn_pieces {dependency : Dependency}
    (shows : Shows source offset (dependencyPieces dependency)) :
    dependencyIn? source
      ⟨offset, offset + lengthOf (dependencyPieces dependency)⟩ =
        some dependency := by
  cases dependency with
  | bare name =>
      obtain ⟨literal, found, rfl⟩ := Option.map_eq_some_iff.mp shows.value
      simp only [dependencyIn?, found]
  | target name => exact shows.dependencyIn (by decide) (nameArgument_sound name)
  | byName name => exact shows.dependencyIn (by decide) (nameArgument_sound name)
  | product name package =>
      exact shows.dependencyIn (by decide) (ownedArguments_sound name package)

/-- The entries of an array of dependencies are read back. -/
theorem Shows.entries {dependencies : List Dependency}
    (shows : Shows source offset
      (bracketed (dependencies.map dependencyPieces))) :
    (entriesIn source (bracketsAt offset
      (dependencies.map dependencyPieces))).filterMap Entry.dependency =
        dependencies := by
  have read := shows.filterMap_elements (dependencyIn? source) some
    (fun dependency _ => isElement_dependency dependency)
    (fun place dependency _ here => dependencyIn_pieces here)
  rw [List.filterMap_some] at read
  rw [entriesIn, List.filterMap_map]
  exact read

/-! ### Targets -/

section

variable {target : Target}

theorem textOf_target : Argument.textOf (targetArguments target) "name" =
    some target.name := by
  simp [Argument.textOf, targetArguments, textArgument, Argument.text?]

theorem pathOf_target : Argument.textOf (targetArguments target) "path" =
    target.path := by
  obtain ⟨name, kind, path, sources, dependencies⟩ := target
  cases path <;> cases sources <;>
    simp [Argument.textOf, targetArguments, textArgument, arrayArgument,
      Argument.text?, bracketed]

theorem label_of_target {argument : Argument}
    (member : argument ∈ targetArguments target) :
    argument.label ∈ ["name", "dependencies", "path"] ∨
      argument.label = "sources" ∧ target.sources.isSome := by
  simp only [targetArguments, List.mem_cons, List.mem_append,
    Option.mem_toList, Option.map_eq_some_iff] at member
  rcases member with rfl | rfl | ⟨path, -, rfl⟩ | ⟨sources, some, rfl⟩
  · simp [textArgument]
  · simp [arrayArgument]
  · simp [textArgument]
  · simp [arrayArgument, some]

/-- The sources of a target are read back. -/
theorem Printed.sources (printed : Printed source offset (targetArguments target)) :
    (labelArray? source (parensAt offset (targetArguments target))
      "sources").map (textElements source) = target.sources := by
  cases sources : target.sources with
  | none =>
      have absent : ∀ argument ∈ targetArguments target,
          argument.label ≠ "sources" := by
        intro argument member same
        rcases label_of_target member with other | ⟨-, some⟩
        · rw [same] at other
          revert other
          decide
        · rw [sources] at some
          cases some
      rw [printed.labelArray_eq_none (by decide) absent, Option.map_none]
  | some texts =>
      have split : targetArguments target =
          (textArgument "name" target.name ::
            arrayArgument "dependencies"
              (target.dependencies.map dependencyPieces) ::
            (target.path.map (textArgument "path")).toList) ++
          [arrayArgument "sources" (texts.map textPieces)] := by
        rw [targetArguments, sources]
        rfl
      obtain ⟨found, shows⟩ := printed.array split (by
        cases target.path <;> simp [textArgument, arrayArgument])
      rw [found, Option.map_some, shows.textElements]

/-- The dependencies of a target are read back. -/
theorem Printed.dependencies
    (printed : Printed source offset (targetArguments target)) :
    (((dependencyArgument source (parensAt offset
      (targetArguments target))).entries source).filterMap Entry.dependency) =
        target.dependencies := by
  have split : targetArguments target = [textArgument "name" target.name] ++
      arrayArgument "dependencies" (target.dependencies.map dependencyPieces) ::
        ((target.path.map (textArgument "path")).toList ++
          (target.sources.map fun sources =>
            arrayArgument "sources" (sources.map textPieces)).toList) := rfl
  obtain ⟨found, shows⟩ := printed.array split (by simp [textArgument])
  rw [dependencyArgument_eq, found]
  exact shows.entries

/-- No target is taken for a product. -/
theorem Printed.noProduct (printed : Printed source offset (targetArguments target))
    (kind : TargetKind) :
    isPluginProduct source kind (parensAt offset (targetArguments target)) =
      false := by
  have absent : ∀ argument ∈ targetArguments target,
      argument.label ≠ "targets" := by
    intro argument member same
    rcases label_of_target member with other | ⟨other, -⟩ <;>
      · rw [same] at other
        revert other
        decide
  rw [isPluginProduct, printed.label_eq_none (by decide) absent]
  simp

/-- A target is read back. -/
theorem blockAt_pieces (shows : Shows source offset (targetPieces target)) :
    ∃ block, blockAt? source ⟨target.kind, offset,
        parenAt offset target.kind.constructor⟩
          (parensAt (parenAt offset target.kind.constructor)
            (targetArguments target)).stop = some block ∧
      block.target = target := by
  have printed := shows.call (targetArguments_sound target)
  have named := printed.labelText_eq (by decide : isName "name")
  have path := printed.labelText_eq (by decide : isName "path")
  have sources := printed.sources
  have dependencies := printed.dependencies
  have target' := printed.noProduct target.kind
  rw [textOf_target] at named
  rw [pathOf_target] at path
  obtain ⟨quoted, literal, value⟩ := Option.map_eq_some_iff.mp named
  rw [parensAt] at path sources dependencies target' literal
  unfold blockAt?
  simp only [parensAt, literal, target', Option.bind_eq_bind, Option.bind_some,
    Bool.false_eq_true, if_false]
  refine ⟨_, rfl, ?_⟩
  simp only [path, sources, dependencies, value]

end

/-! ### Products -/

/-- What is shown as code is in a slice. -/
theorem Shows.slice {text : List Char} (shows : Shows source offset (plainly text)) :
    (source.slice offset (offset + text.length)).toList = text := by
  have cells : (source.cells.extract offset (offset + text.length)).toList =
      text.map codeCell := by
    refine List.ext_getElem? fun index => ?_
    rw [Array.getElem?_toList, Array.getElem?_extract]
    rcases Nat.lt_or_ge index text.length with inside | outside
    · have here := shows.cells index (by rwa [lengthOf_plainly])
      rw [cellsOf_plainly, List.getElem?_eq_getElem (by simpa using inside)] at here
      have bound := (Array.getElem?_eq_some_iff.mp here).1
      rw [if_pos (by omega), here, ← List.getElem?_eq_getElem]
    · rw [if_neg (by omega), List.getElem?_eq_none (by simpa using outside)]
  have chars : Cell.char? ∘ codeCell = some := rfl
  rw [Source.slice, String.toList_ofList, cells, List.filterMap_map, chars,
    List.filterMap_some]

theorem Shows.slice_start {text : List Char} {rest : List Piece}
    (shows : Shows source offset (plainly text ++ rest)) {stop : Nat}
    (inside : offset + text.length ≤ stop) :
    ∃ tail, (source.slice offset stop).toList = text ++ tail := by
  refine ⟨(source.slice (offset + text.length) stop).toList, ?_⟩
  rw [slice_append (Nat.le_add_right _ _) inside, String.toList_ofList,
    shows.front.slice]

/-- The kind of a product is read off its start. -/
theorem kind_of_start {kind : String} (known : kind ∈ productKinds)
    {body : String} {tail : List Char}
    (starts : body.toList = ("." ++ kind).toList ++ tail) :
    (["library", "executable", "plugin"].find? fun kind =>
      Text.startsWith ("." ++ kind) (Text.trimStart body)) = some kind := by
  have trimmed : (Text.trimStart body).toList = ("." ++ kind).toList ++ tail := by
    rw [Text.trimStart, String.toList_ofList, starts, dotted, List.cons_append,
      List.dropWhile_cons_of_neg (by decide)]
  have reads (name : String) : Text.startsWith ("." ++ name) (Text.trimStart body) =
      (Text.afterPrefix? ("." ++ name).toList
        (("." ++ kind).toList ++ tail)).isSome := by
    rw [Text.startsWith, Text.stripPrefix?, Option.isSome_map, trimmed]
  simp only [productKinds, List.mem_cons, List.not_mem_nil, or_false] at known
  rcases known with rfl | rfl | rfl <;>
    simp [reads, Text.afterPrefix?]

/-- The first call in a range that starts with a call. -/
theorem head_of_leadingCall {name : String} {range : Span} {paren : Nat}
    (found : leadingCall? source name range = some paren) :
    (source.memberCalls name range).head? = some ⟨range.start, paren⟩ := by
  rw [leadingCall?] at found
  cases calls : source.memberCalls name range with
  | nil =>
      rw [calls] at found
      cases found
  | cons call rest =>
      simp only [calls] at found
      split at found
      · rename_i start
        cases found
        rw [List.head?_cons, ← start]
      · cases found

theorem isWord_of_productKind {kind : String} (known : kind ∈ productKinds) :
    isWord ("." ++ kind).toList := by
  have all : ∀ kind ∈ productKinds, isWord ("." ++ kind).toList := by decide
  exact all kind known

/-- A product is read back. -/
theorem productIn_pieces {product : Product}
    (known : product.kind ∈ productKinds)
    (shows : Shows source offset (productPieces product)) :
    productIn? source ⟨offset, offset + lengthOf (productPieces product)⟩ =
      some product := by
  have printed := shows.call (productArguments_sound product)
  have inside : parenAt offset product.kind ≤
      offset + lengthOf (productPieces product) := by
    rw [productPieces, lengthOf_memberCall, parenAt]
    omega
  obtain ⟨tail, starts⟩ := shows.slice_start inside
  have kind := kind_of_start known starts
  have named := printed.labelText_eq (by decide : isName "name")
  have split : [textArgument "name" product.name,
      arrayArgument "targets" (product.targets.map textPieces)] =
        [textArgument "name" product.name] ++
          arrayArgument "targets" (product.targets.map textPieces) :: [] := rfl
  obtain ⟨found, array⟩ := printed.array split (by simp [textArgument])
  have partner := Source.partner_of_matched printed.matched
  rw [productPieces, ← List.append_nil (memberCall _ _)] at shows
  have call := head_of_leadingCall
    (shows.leadingCall (isWord_of_productKind known) inside)
  rw [parensAt] at named found partner
  simp only [productIn_eq, kind, Option.bind_some, call, partner, named, found,
    Option.map_some, array.textElements]
  simp [Argument.textOf, textArgument, Argument.text?]

/-! ### Declarations -/

section

variable {fields : List (String × Option String)} {label : String}

theorem textOf_cons {name : String} {value : Option String} :
    Argument.textOf (fieldArguments ((name, value) :: fields)) label =
      if name = label ∧ value.isSome then value
      else Argument.textOf (fieldArguments fields) label := by
  cases value with
  | none =>
      rw [if_neg fun both => nomatch both.2]
      rfl
  | some text =>
      by_cases same : name = label
      · subst same
        simp [Argument.textOf, fieldArguments, textArgument, Argument.text?]
      · simp [Argument.textOf, fieldArguments, textArgument, same]

theorem textOf_absent (absent : label ∉ fields.map Prod.fst) :
    Argument.textOf (fieldArguments fields) label = none := by
  induction fields with
  | nil => rfl
  | cons field fields inductionHypothesis =>
      rw [List.map_cons, List.mem_cons, not_or] at absent
      rw [textOf_cons, if_neg fun both => absent.1 both.1.symm]
      exact inductionHypothesis absent.2

/-- The text of a field. -/
theorem textOf_fields (distinct : (fields.map Prod.fst).Nodup)
    {value : Option String} (member : (label, value) ∈ fields) :
    Argument.textOf (fieldArguments fields) label = value := by
  induction fields with
  | nil => cases member
  | cons field fields inductionHypothesis =>
      obtain ⟨fresh, later⟩ := List.nodup_cons.mp distinct
      rw [textOf_cons]
      rcases List.mem_cons.mp member with rfl | inside
      · cases value with
        | none =>
            rw [if_neg fun both => nomatch both.2]
            exact textOf_absent fresh
        | some text => rw [if_pos ⟨rfl, rfl⟩]
      · have other : field.1 ≠ label := fun same =>
          fresh (same ▸ List.mem_map_of_mem inside)
        rw [if_neg fun both => other both.1]
        exact inductionHypothesis later inside

/-- The arguments for fields have the labels of the fields. -/
theorem labels_sublist : ((fieldArguments fields).map Argument.label).Sublist
    (fields.map Prod.fst) := by
  induction fields with
  | nil => exact .slnil
  | cons field fields inductionHypothesis =>
      obtain ⟨name, value⟩ := field
      cases value with
      | none => exact inductionHypothesis.cons name
      | some text => exact inductionHypothesis.cons_cons name

end

/-- A value in a list is one in an item. -/
theorem value_of_listed {items : List (List Piece)} {early late : List Piece}
    {value : String} (split : listed items = early ++ .value value :: late) :
    ∃ before inner rest after,
      items = before ++ (inner ++ .value value :: rest) :: after ∧
        early = leading before ++ inner := by
  induction items generalizing early with
  | nil =>
      have none := congrArg List.length split
      simp [listed] at none
  | cons first items inductionHypothesis =>
      cases items with
      | nil =>
          rw [listed_singleton] at split
          exact ⟨[], early, late, [], by rw [split]; rfl, rfl⟩
      | cons second items =>
          rw [listed_cons_cons] at split
          rcases List.append_eq_append_iff.mp split with
            ⟨extra, rfl, behind⟩ | ⟨extra, rfl, inside⟩
          · -- the value stands behind the comma
            obtain ⟨extra, rfl, later⟩ : ∃ extra',
                extra = .code ',' :: .code ' ' :: extra' ∧
                  listed (second :: items) = extra' ++ .value value :: late := by
              cases extra with
              | nil => cases behind
              | cons mark extra =>
                  obtain ⟨comma, behind⟩ := List.cons_eq_cons.mp behind
                  cases extra with
                  | nil => cases behind
                  | cons blank extra =>
                      obtain ⟨space, behind⟩ := List.cons_eq_cons.mp behind
                      exact ⟨extra, by rw [comma, space], behind⟩
            obtain ⟨before, inner, rest, after, here, rfl⟩ :=
              inductionHypothesis later
            refine ⟨first :: before, inner, rest, after, by rw [here]; rfl, ?_⟩
            rw [leading_cons, List.append_assoc]
            rfl
          · cases extra with
            | nil => cases inside
            | cons piece extra =>
                rw [List.cons_append, List.cons.injEq] at inside
                obtain ⟨rfl, -⟩ := inside
                exact ⟨[], early, extra, second :: items, rfl, rfl⟩

/-- The code of a list is that of its items and of what is between them. -/
theorem mem_codeIn_listed {items : List (List Piece)} {c : Char}
    (member : c ∈ codeIn (listed items)) :
    c = ',' ∨ c = ' ' ∨ ∃ item ∈ items, c ∈ codeIn item := by
  induction items with
  | nil => cases member
  | cons first items inductionHypothesis =>
      cases items with
      | nil =>
          rw [listed_singleton] at member
          exact Or.inr (Or.inr ⟨first, List.mem_cons_self, member⟩)
      | cons second items =>
          rw [listed_cons_cons, codeIn_append, List.mem_append] at member
          rcases member with here | later
          · exact Or.inr (Or.inr ⟨first, List.mem_cons_self, here⟩)
          · rw [codeIn_cons_code, codeIn_cons_code, List.mem_cons,
              List.mem_cons] at later
            rcases later with rfl | rfl | later
            · exact Or.inl rfl
            · exact Or.inr (Or.inl rfl)
            · rcases inductionHypothesis later with
                rfl | rfl | ⟨item, inside, code⟩
              · exact Or.inl rfl
              · exact Or.inr (Or.inl rfl)
              · exact Or.inr
                  (Or.inr ⟨item, List.mem_cons_of_mem first inside, code⟩)

theorem lead_of_value {label text value : String} {inner rest : List Piece}
    (split : (textArgument label text).pieces = inner ++ .value value :: rest) :
    inner = (textArgument label text).lead := by
  have pieces : (textArgument label text).pieces =
      (Fragment.mk (label.toList ++ [':', ' ']) [(text, [])]).pieces := by
    rw [Argument.pieces_eq]
    rfl
  rw [pieces] at split
  obtain ⟨left, behind, right, parts, rfl⟩ := Fragment.split_of_pieces split
  cases left with
  | nil => simp [Fragment.pieces, Argument.lead, textArgument]
  | cons part left => simp at parts

theorem start_of_literalAt {position : Nat} {quoted : Source.Quoted}
    (found : source.literalAt? position = some quoted) :
    quoted.start = position := by
  obtain ⟨literal, here, rfl⟩ := Option.map_eq_some_iff.mp found
  simpa using List.find?_some here

/-- Where labels are distinct, none stands in front of an argument with it. -/
theorem first_of_distinct {arguments before after : List Argument}
    {argument : Argument} (distinct : (arguments.map Argument.label).Nodup)
    (split : arguments = before ++ argument :: after) :
    ∀ other ∈ before, other.label ≠ argument.label := by
  rw [split, List.map_append, List.nodup_append] at distinct
  exact fun other inside => distinct.2.2 _ (List.mem_map_of_mem inside) _
    (by simp)

/-- A literal among quoted arguments is the value of one. -/
theorem Printed.literal {fields : List (String × Option String)}
    (printed : Printed source offset (fieldArguments fields))
    (distinct : (fields.map Prod.fst).Nodup) {position : Nat}
    (lower : offset < position)
    (upper : position < (parensAt offset (fieldArguments fields)).stop)
    (literal : (source.literalAt? position).isSome) :
    ∃ label ∈ (fieldArguments fields).map Argument.label,
      (labelLiteral? source (parensAt offset (fieldArguments fields)) label).map
        Source.Quoted.start = some position := by
  obtain ⟨index, rfl⟩ := Nat.exists_eq_add_of_le (show offset + 1 ≤ position from lower)
  rw [parensAt] at upper
  obtain ⟨early, value, late, split, rfl⟩ :=
    printed.inside.starts index (by simp only at upper; omega) literal
  obtain ⟨before, inner, rest, after, items, rfl⟩ := value_of_listed split
  obtain ⟨front, back, arguments, rfl, behind⟩ := List.map_eq_append_iff.mp items
  obtain ⟨argument, back, rfl, pieces, rfl⟩ := List.map_eq_cons_iff.mp behind
  have member : argument ∈ fieldArguments fields := by simp [arguments]
  have first := first_of_distinct (labels_sublist.nodup distinct) arguments
  refine ⟨argument.label, List.mem_map_of_mem member, ?_⟩
  obtain ⟨found, -⟩ := printed.value_eq_some arguments first
  obtain ⟨field, -, made⟩ := List.mem_filterMap.mp member
  obtain ⟨text, -, rfl⟩ := Option.map_eq_some_iff.mp made
  rw [lead_of_value pieces, lengthOf_append, ← Nat.add_assoc] at literal ⊢
  obtain ⟨quoted, here⟩ := Option.isSome_iff_exists.mp literal
  rw [labelLiteral_eq, found, Option.bind_some, labelPlace, here, Option.map_some,
    start_of_literalAt here]

/-- An argument for a field has its label and its text. -/
theorem field_of_argument {fields : List (String × Option String)}
    {argument : Argument} (member : argument ∈ fieldArguments fields) :
    ∃ text, (argument.label, some text) ∈ fields ∧
      argument = textArgument argument.label text := by
  obtain ⟨⟨label, value⟩, here, made⟩ := List.mem_filterMap.mp member
  obtain ⟨text, some, rfl⟩ := Option.map_eq_some_iff.mp made
  simp only at some
  subst some
  exact ⟨text, here, rfl⟩

section

variable {declaration : Declaration}

theorem declarationFields_distinct :
    ((declarationFields declaration).map Prod.fst).Nodup := by
  simp [declarationFields]

/-- Without a requirement, the arguments are what says where a package is. -/
theorem label_of_declaration (free : declaration.requirement = none)
    {argument : Argument} (member : argument ∈ declarationArguments declaration) :
    argument.label ∈ ["name", "url", "path", "id"] := by
  obtain ⟨text, field, -⟩ := field_of_argument member
  simp only [declarationFields, free, List.mem_cons, Prod.mk.injEq,
    List.not_mem_nil, or_false, reduceCtorEq, and_false] at field ⊢
  tauto

variable (printed : Printed source offset (declarationArguments declaration))

include printed

theorem Printed.field {label : String} (name : isName label)
    (value : Option String)
    (member : (label, value) ∈ declarationFields declaration) :
    labelText? source (parensAt offset (declarationArguments declaration)) label =
      value := by
  rw [printed.labelText_eq name]
  exact textOf_fields declarationFields_distinct member

/-- No requirement is found in nested calls. -/
theorem Printed.nested (free : declaration.requirement = none) :
    nestedRequirement? source
      (parensAt offset (declarationArguments declaration)) = none := by
  have lacks : 'f' ∉ codeIn (listed
      ((declarationArguments declaration).map Argument.pieces)) := by
    intro member
    rcases mem_codeIn_listed member with same | same | ⟨item, here, code⟩
    · cases same
    · cases same
    · obtain ⟨argument, known, rfl⟩ := List.mem_map.mp here
      have label := label_of_declaration free known
      obtain ⟨text, -, same⟩ := field_of_argument known
      have flat : ∀ label ∈ ["name", "url", "path", "id"],
          'f' ∉ label.toList ++ [':', ' '] := by decide
      refine flat _ label ?_
      rw [same] at code
      simpa [Argument.pieces_eq, Argument.lead, textArgument] using code
  rw [nestedRequirement?, List.findSome?_eq_none_iff]
  intro position member
  exfalso
  have word : Source.isWord "from".toList := by decide
  obtain ⟨lower, upper, code⟩ := (Source.mem_occurrences word).mp member
  have first := code 0 'f' (by decide)
  rw [Nat.add_zero] at first
  rcases Nat.eq_or_lt_of_le lower with same | inside
  · have paren := printed.shows.code
    have start : offset = position := same
    rw [start, first] at paren
    cases paren
  · have length : "from".toList.length = 4 := by decide
    rw [parensAt] at inside upper
    exact printed.inside.not_code lacks inside (by
      simp only at inside upper
      omega) first

/-- Every literal has a label. -/
theorem Printed.loose (free : declaration.requirement = none)
    (taken : List Nat) (all : ∀ label ∈ ["name", "url", "path", "id"],
      ∀ position, (labelLiteral? source
        (parensAt offset (declarationArguments declaration)) label).map
          Source.Quoted.start = some position → position ∈ taken) :
    looseLiteral? source (parensAt offset (declarationArguments declaration))
      taken = none := by
  rw [looseLiteral?, List.findSome?_eq_none_iff]
  intro position member
  obtain ⟨lower, upper⟩ := Source.mem_positions.mp member
  split
  · rfl
  · rename_i fresh
    rw [Option.map_eq_none_iff, ← Option.not_isSome_iff_eq_none]
    intro literal
    obtain ⟨label, here, found⟩ := printed.literal declarationFields_distinct
      lower upper literal
    obtain ⟨argument, inside, rfl⟩ := List.mem_map.mp here
    exact fresh (by
      simpa using all _ (label_of_declaration free inside) position found)

/-- The requirement of a declaration is read back. -/
theorem Printed.requirement :
    (declarationAt source (parensAt offset
      (declarationArguments declaration))).requirement =
        declaration.requirement := by
  have version := printed.field (by decide : isName "from")
    declaration.requirement (by simp [declarationFields])
  have absent (label : String) (name : isName label)
      (other : label ∉ (declarationFields declaration).map Prod.fst) :
      labelText? source (parensAt offset (declarationArguments declaration))
        label = none := by
    rw [printed.labelText_eq name]
    exact textOf_absent other
  have labelled : ["from", "exact", "branch", "revision"].findSome?
      (labelText? source (parensAt offset (declarationArguments declaration))) =
        declaration.requirement := by
    simp only [List.findSome?_cons, List.findSome?_nil, version,
      absent "exact" (by decide) (by simp [declarationFields]),
      absent "branch" (by decide) (by simp [declarationFields]),
      absent "revision" (by decide) (by simp [declarationFields])]
    cases declaration.requirement <;> rfl
  cases free : declaration.requirement with
  | some text =>
      simp only [declarationAt, labelled, free, Option.some_or]
  | none =>
      have loose := printed.loose free ([
          labelLiteral? source (parensAt offset
            (declarationArguments declaration)) "name",
          labelLiteral? source (parensAt offset
            (declarationArguments declaration)) "url",
          labelLiteral? source (parensAt offset
            (declarationArguments declaration)) "path",
          labelLiteral? source (parensAt offset
            (declarationArguments declaration)) "id"].filterMap fun literal =>
            literal.map Source.Quoted.start) (by
        intro label known position found
        simp only [List.mem_cons, List.not_mem_nil, or_false] at known
        rw [List.mem_filterMap]
        refine ⟨_, ?_, found⟩
        rcases known with rfl | rfl | rfl | rfl <;> simp)
      simp only [declarationAt, labelled, free, printed.nested free, loose,
        Option.or_none]

end

/-- A declaration of a package is read back. -/
theorem declarationAt_pieces {declaration : Declaration}
    (shows : Shows source offset (declarationPieces declaration)) :
    declarationAt source (parensAt (parenAt offset "package")
      (declarationArguments declaration)) = declaration := by
  have printed := shows.call (declarationArguments_sound declaration)
  have name := printed.field (by decide : isName "name")
    declaration.name (by simp [declarationFields])
  have url := printed.field (by decide : isName "url")
    declaration.url (by simp [declarationFields])
  have path := printed.field (by decide : isName "path")
    declaration.path (by simp [declarationFields])
  have id := printed.field (by decide : isName "id")
    declaration.id (by simp [declarationFields])
  have requirement := printed.requirement
  rw [labelText?] at name url path id
  obtain ⟨_, _, _, _, _⟩ := declaration
  simp only [declarationAt, Declaration.mk.injEq] at requirement ⊢
  exact ⟨name, url, path, id, requirement⟩

end

end PackageLayers.Manifest

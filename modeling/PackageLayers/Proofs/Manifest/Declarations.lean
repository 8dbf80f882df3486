/-
Purpose: What declaring one more package changes.
Main exports: declared_between, Declares, Appends.declares
-/
import PackageLayers.Proofs.Manifest.CallTokens

namespace PackageLayers.Manifest

open Source (Span Insertion Matched CodeAt isWord isName)

/-!
Declarations of packages are listed by the places of their dots.  One that is put
at the end of the array of the package call is one more entry of that list; as it
may stand inside of another declaration, it need not be the last one.
-/

/-! ### Places of a word -/

/-- The places of a word in a text with a fragment: those before the fragment,
those in it, and those behind it. -/
theorem occurrences_around {insertion : Insertion} (seam : insertion.Seam)
    {text : String} (good : isWord text.toList) :
    ∃ early late,
      insertion.source.occurrences text insertion.source.whole = early ++ late ∧
      insertion.result.occurrences text insertion.result.whole =
        early.map insertion.shift ++
          ((insertion.fragment.occurrences text insertion.fragment.whole).map
              (insertion.place + ·) ++ late.map insertion.shift) := by
  have ascends := @Source.occurrences_ascend insertion.source _ good
    insertion.source.whole
  have inner := @Source.occurrences_ascend insertion.fragment _ good
    insertion.fragment.whole
  have outer := @Source.occurrences_ascend insertion.result _ good
    insertion.result.whole
  have within : ∀ start ∈ insertion.fragment.occurrences text
      insertion.fragment.whole, start < insertion.width := by
    intro start member
    obtain ⟨-, upper, -⟩ := (Source.mem_occurrences good).mp member
    have length := List.length_pos_of_ne_nil (Source.Words.filled good)
    simp only [Source.whole] at upper
    rw [Insertion.width]
    omega
  have moves {items : List Nat} (order : items.Pairwise (· < ·)) :
      (items.map insertion.shift).Pairwise (· < ·) :=
    List.Pairwise.map _ (fun _ _ => insertion.shift_lt_iff.mpr) order
  refine ⟨(insertion.source.occurrences text insertion.source.whole).filter
      fun position => position < insertion.place,
    (insertion.source.occurrences text insertion.source.whole).filter
      fun position => insertion.place ≤ position, ?_, ?_⟩
  · refine List.Pairwise.eq_of_mem_iff ascends ?_ fun position => ?_
    · refine List.pairwise_append.mpr ⟨ascends.filter _, ascends.filter _,
        fun first before second behind => ?_⟩
      simp only [List.mem_filter, decide_eq_true_eq] at before behind
      exact Nat.lt_of_lt_of_le before.2 behind.2
    · simp only [List.mem_append, List.mem_filter, decide_eq_true_eq,
        ← and_or_left, Nat.lt_or_ge, and_true]
  · refine List.Pairwise.eq_of_mem_iff outer ?_ fun position => ?_
    · refine List.pairwise_append.mpr ⟨moves (ascends.filter _),
        List.pairwise_append.mpr ⟨List.Pairwise.map _
          (fun _ _ less => Nat.add_lt_add_left less _) inner,
          moves (ascends.filter _), ?_⟩, ?_⟩
      · intro first here second there
        obtain ⟨start, member, rfl⟩ := List.mem_map.mp here
        obtain ⟨old, later, rfl⟩ := List.mem_map.mp there
        simp only [List.mem_filter, decide_eq_true_eq] at later
        have width := within start member
        rw [insertion.shift_of_le later.2]
        omega
      · intro first here second there
        obtain ⟨old, earlier, rfl⟩ := List.mem_map.mp here
        simp only [List.mem_filter, decide_eq_true_eq] at earlier
        rw [insertion.shift_of_lt earlier.2]
        rcases List.mem_append.mp there with inside | behind
        · obtain ⟨start, -, rfl⟩ := List.mem_map.mp inside
          omega
        · obtain ⟨other, later, rfl⟩ := List.mem_map.mp behind
          simp only [List.mem_filter, decide_eq_true_eq] at later
          rw [insertion.shift_of_le later.2]
          omega
    · have start : insertion.source.whole.start < insertion.place :=
        insertion.positive
      have stop : insertion.place < insertion.source.whole.stop :=
        insertion.inside
      rw [← Insertion.Seam.range_whole,
        seam.mem_occurrences_range good (whole_order insertion)]
      simp only [start, stop, true_and, List.mem_append, List.mem_map,
        List.mem_filter, decide_eq_true_eq]
      constructor
      · rintro (⟨old, member, rfl⟩ | ⟨first, member, rfl⟩)
        · rcases Nat.lt_or_ge old insertion.place with before | behind
          · exact Or.inl ⟨old, ⟨member, before⟩, rfl⟩
          · exact Or.inr (Or.inr ⟨old, ⟨member, behind⟩, rfl⟩)
        · exact Or.inr (Or.inl ⟨first, member, rfl⟩)
      · rintro (⟨old, ⟨member, -⟩, rfl⟩ | ⟨first, member, rfl⟩ |
          ⟨old, ⟨member, -⟩, rfl⟩)
        · exact Or.inl ⟨old, member, rfl⟩
        · exact Or.inr ⟨first, member, rfl⟩
        · exact Or.inl ⟨old, member, rfl⟩

/-- The declarations of a text with a fragment in it, if the fragment has one. -/
theorem declared_between {insertion : Insertion} (quiet : Quiet insertion)
    {start : Nat} {declaration : Declaration}
    (single : insertion.fragment.occurrences ".package"
      insertion.fragment.whole = [start])
    (reads : declaredAt? insertion.result (insertion.place + start) =
      some declaration) :
    ∃ early late,
      (declarationsIn insertion.source).map
          (fun declaration => declaration.1.located) = early ++ late ∧
      (declarationsIn insertion.result).map
          (fun declaration => declaration.1.located) =
        early ++ declaration :: late := by
  have good : isWord ".package".toList := by decide +kernel
  obtain ⟨early, late, before, after⟩ := occurrences_around quiet.toSeam good
  have moves {part : List Nat} (inside : ∀ dot ∈ part,
      dot ∈ insertion.source.occurrences ".package" insertion.source.whole) :
      (part.map insertion.shift).filterMap (declaredAt? insertion.result) =
        part.filterMap (declaredAt? insertion.source) := by
    rw [List.filterMap_map]
    exact List.filterMap_congr fun dot member => declaredAt_shift quiet
      ((Source.mem_occurrences good).mp (inside dot member)).2.2
  refine ⟨early.filterMap (declaredAt? insertion.source),
    late.filterMap (declaredAt? insertion.source), ?_, ?_⟩
  · rw [located_eq, before, List.filterMap_append]
  · rw [located_eq, after, single, List.filterMap_append, List.filterMap_append,
      moves fun dot member => by
        rw [before]
        exact List.mem_append_left _ member,
      moves fun dot member => by
        rw [before]
        exact List.mem_append_right _ member,
      List.map_singleton, List.filterMap_cons, reads]
    rfl

/-- A call with a parenthesis that is closed is listed as a declaration. -/
theorem mem_declarationsIn {source : Source} {dot paren stop : Nat}
    (code : CodeAt source ".package".toList dot)
    (call : source.callAt? ".package".toList.length dot = some ⟨dot, paren⟩)
    (partner : source.partner? paren = some stop) :
    (declarationAt source ⟨paren, stop⟩, ⟨dot, stop + 1⟩) ∈
      declarationsIn source := by
  have good : isWord ("." ++ "package").toList := by decide
  have word : "." ++ "package" = ".package" := by decide +kernel
  have length : ".package".toList.length = 8 := by decide +kernel
  have bound := Source.lt_size_of_codeAt
    (code 7 'e' (by decide +kernel : ".package".toList[7]? = some 'e'))
  rw [declarationsIn, Source.memberCalls_eq good, word, List.filterMap_filterMap,
    List.mem_filterMap]
  refine ⟨dot, (Source.mem_occurrences (by decide +kernel)).mpr
    ⟨Nat.zero_le _, ?_, code⟩, ?_⟩
  · rw [length]
    simp only [Source.whole]
    omega
  · rw [call, Option.bind_some, partner]
    rfl

/-! ### Declarations as elements -/

section

variable {source : Source} {offset : Nat} {arguments : List Argument}

/-- The declaration of a package that a printed call is. -/
theorem Printed.declaration (printed : Printed source offset arguments) :
    (declarationAt source (parensAt offset arguments)).located =
      { name := Argument.textOf arguments "name"
        url := Argument.textOf arguments "url"
        path := Argument.textOf arguments "path"
        id := Argument.textOf arguments "id" } := by
  rw [← printed.labelText_eq (by decide : isName "name"),
    ← printed.labelText_eq (by decide : isName "url"),
    ← printed.labelText_eq (by decide : isName "path"),
    ← printed.labelText_eq (by decide : isName "id")]
  rfl

/-- A printed declaration is found at its dot. -/
theorem Shows.declared {rest : List Piece} (shows : Shows source offset
    (memberCall "package" arguments ++ rest))
    (good : ∀ argument ∈ arguments, argument.Good) :
    declaredAt? source offset = some
      { name := Argument.textOf arguments "name"
        url := Argument.textOf arguments "url"
        path := Argument.textOf arguments "path"
        id := Argument.textOf arguments "id" } := by
  have word : "." ++ "package" = ".package" := by decide +kernel
  have printed := shows.printed good
  have call := shows.callAt
  have partner := Source.partner_of_matched printed.matched
  have start : (parensAt (parenAt offset "package") arguments).start =
      parenAt offset "package" := rfl
  rw [word] at call
  rw [start] at partner
  rw [declaredAt?, call, Option.bind_some, partner, Option.map_some,
    ← printed.declaration]
  rfl

end

/-- A token that is a call is listed as a declaration from its first character to
its last. -/
theorem Token.Calls.mem_declarationsIn {token : Token}
    {arguments : List Argument} (calls : token.Calls "package" arguments)
    {text : String} {blank tail : List Char} {place : Nat}
    {before after : List Char} {middle : Source.Mode}
    (site : Site text (token.fragment blank tail) place before after middle)
    (seam : site.insertion.Seam) {declaration : Declaration}
    (reads : declaredAt? site.insertion.result (place + blank.length) =
      some declaration) :
    ∃ other, other.located = declaration ∧
      (other, ⟨place + blank.length,
        place + (blank.length + token.cells.length)⟩) ∈
          declarationsIn site.insertion.result := by
  have word : "." ++ "package" = ".package" := by decide +kernel
  have shows := calls.shows site seam
  have length := calls.lengthOf
  rw [memberCall, lengthOf_append, lengthOf_plainly, parenthesized,
    lengthOf_cons_code, lengthOf_append, lengthOf_cons_code, lengthOf_nil]
    at length
  have code := shows.member
  have call := shows.callAt
  have partner := Source.partner_of_matched (shows.printed calls.known).matched
  have stop : place + (blank.length + token.cells.length) =
      (parensAt (parenAt (place + blank.length) "package") arguments).stop + 1 := by
    simp only [parensAt, parenAt]
    omega
  have start : (parensAt (parenAt (place + blank.length) "package")
      arguments).start = parenAt (place + blank.length) "package" := rfl
  rw [word] at code call
  rw [start] at partner
  rw [declaredAt?, call, Option.bind_some, partner, Option.map_some,
    Option.some.injEq] at reads
  rw [stop]
  exact ⟨_, reads, PackageLayers.Manifest.mem_declarationsIn code call partner⟩

/-- The only declaration in the text of a call is the call. -/
theorem Token.Calls.single {token : Token} {arguments : List Argument}
    (calls : token.Calls "package" arguments)
    (plain : '.' ∉ codeIn (parenthesized arguments)) {blank tail : List Char}
    (isBlank : IsBlank blank) (isTail : IsTail tail) :
    (token.fragment blank tail).source.occurrences ".package"
      (token.fragment blank tail).source.whole = [blank.length] := by
  have good : isWord ".package".toList := by decide +kernel
  have word : "." ++ "package" = ".package" := by decide +kernel
  have fits := Token.good_fragment calls.good isBlank isTail
  have shows := Fragment.shows fits
  have length := Fragment.lengthOf_pieces (token.fragment blank tail)
  rw [← Fragment.source_size fits] at length
  rw [calls.pieces] at shows length
  have call := shows.back
  rw [lengthOf_plainly, Nat.zero_add] at call
  obtain ⟨name, starts, single⟩ : ∃ name : List Char,
      ("." ++ "package").toList = '.' :: name ∧ '.' ∉ name :=
    ⟨"package".toList, by decide +kernel, by decide +kernel⟩
  refine List.Pairwise.eq_of_mem_iff (Source.occurrences_ascend good _)
    (List.pairwise_singleton _ _) fun position => ?_
  rw [Source.mem_occurrences good, List.mem_singleton]
  constructor
  · rintro ⟨-, -, code⟩
    have dot : (token.fragment blank tail).source.codeAt? position = some '.' :=
      code 0 '.' (by decide +kernel)
    have upper := Source.lt_size_of_codeAt dot
    rcases Nat.lt_trichotomy position blank.length with before | same | behind
    · refine absurd dot (shows.front.not_code (fun member => ?_)
        (Nat.zero_le _) (by rw [lengthOf_plainly]; omega))
      rw [codeIn_plainly] at member
      rcases isBlank '.' member with none | none | none <;> cases none
    · exact same
    · -- behind the dot of the call there is no other one
      have dotted : memberCall "package" arguments ++ plainly tail =
          [.code '.'] ++ (plainly name ++ parenthesized arguments ++
            plainly tail) := by
        rw [memberCall, starts]
        rfl
      rw [dotted] at call length
      have behind' := call.back
      refine absurd dot (behind'.not_code (fun member => ?_) (by
        rw [lengthOf_cons_code, lengthOf_nil]
        omega) ?_)
      · simp only [codeIn_append, codeIn_plainly, List.mem_append] at member
        rcases member with (inside | inside) | last
        · exact single inside
        · exact plain inside
        · rcases isTail with rfl | rfl
          · cases last
          · cases List.mem_singleton.mp last
      · rw [lengthOf_append, lengthOf_plainly, lengthOf_append] at length
        omega
  · rintro rfl
    have code := call.member
    rw [word] at code
    refine ⟨Nat.zero_le _, ?_, code⟩
    rw [memberCall, word, lengthOf_append, lengthOf_append, lengthOf_append,
      lengthOf_plainly, lengthOf_plainly] at length
    simp only [Source.whole]
    omega

/-- Whether a token, written as an element of an array, is read as a declaration
of a package and as nothing else. -/
structure Introduces (token : Token) (declaration : Declaration) : Prop where
  good : token.Good
  call : ∃ arguments, token.Calls "package" arguments
  calls : ∀ name ∈ soughtCalls, token.Lacks ("." ++ name).toList
  package : token.Lacks "Package".toList
  single : ∀ {blank tail : List Char}, IsBlank blank → IsTail tail →
    (token.fragment blank tail).source.occurrences ".package"
      (token.fragment blank tail).source.whole = [blank.length]
  reads : ∀ {text : String} {blank tail : List Char} {place : Nat}
    {before after : List Char} {middle : Source.Mode}
    (site : Site text (token.fragment blank tail) place before after middle),
    site.insertion.Seam →
      declaredAt? site.insertion.result (place + blank.length) =
        some declaration

/-- A declaration by path is read as that declaration. -/
theorem introduces_path (path : String) :
    Introduces (callToken "package" "path" path) { path := some path } where
  good := (calls_path path).good
  call := ⟨_, calls_path path⟩
  calls := by
    have lead : ∀ name ∈ soughtCalls, ¬("." ++ name).toList <:+:
        ("." ++ "package").toList ++ '(' :: ("path".toList ++ [':', ' ']) := by
      decide +kernel
    have close : ∀ name ∈ soughtCalls, ¬("." ++ name).toList <:+: [')'] := by
      decide +kernel
    exact fun name sought =>
      callToken_lacks (lead name sought) (close name sought) path
  package := by
    have lead : ¬"Package".toList <:+:
        ("." ++ "package").toList ++ '(' :: ("path".toList ++ [':', ' ']) := by
      decide +kernel
    have close : ¬"Package".toList <:+: [')'] := by decide +kernel
    exact callToken_lacks lead close path
  single := (calls_path path).single (by
    simp only [parenthesized, listed, textArgument, Argument.pieces, List.map_cons,
      List.map_nil, List.flatMap_nil, List.append_nil, codeIn_append,
      codeIn_cons_code, codeIn_plainly, codeIn_cons_value, codeIn_nil]
    decide +kernel)
  reads := by
    intro text blank tail place before after middle site seam
    have calls := calls_path path
    rw [(calls.shows site seam).declared calls.known]
    simp [textArgument, Argument.textOf, Argument.text?]

/-- A declaration by URL is read as that declaration. -/
theorem introduces_url (url version : String) :
    Introduces (pairToken "package" "url" url "from" version)
      { url := some url } where
  good := (calls_pair (by decide) url version).good
  call := ⟨_, calls_pair (by decide) url version⟩
  calls := by
    have lead : ∀ name ∈ soughtCalls, ¬("." ++ name).toList <:+:
        ("." ++ "package").toList ++ '(' :: ("url".toList ++ [':', ' ']) := by
      decide +kernel
    have middle : ∀ name ∈ soughtCalls, ¬("." ++ name).toList <:+:
        ',' :: ' ' :: ("from".toList ++ [':', ' ']) := by decide +kernel
    have close : ∀ name ∈ soughtCalls, ¬("." ++ name).toList <:+: [')'] := by
      decide +kernel
    exact fun name sought => pairToken_lacks (lead name sought)
      (middle name sought) (close name sought) url version
  package := by
    have lead : ¬"Package".toList <:+:
        ("." ++ "package").toList ++ '(' :: ("url".toList ++ [':', ' ']) := by
      decide +kernel
    have middle : ¬"Package".toList <:+:
        ',' :: ' ' :: ("from".toList ++ [':', ' ']) := by decide +kernel
    have close : ¬"Package".toList <:+: [')'] := by decide +kernel
    exact pairToken_lacks lead middle close url version
  single := (calls_pair (by decide) url version).single (by
    simp only [parenthesized, listed, textArgument, Argument.pieces, List.map_cons,
      List.map_nil, List.flatMap_cons, List.flatMap_nil, List.append_nil,
      codeIn_append, codeIn_cons_code, codeIn_plainly, codeIn_cons_value,
      codeIn_nil]
    decide +kernel)
  reads := by
    intro text blank tail place before after middle site seam
    have calls := calls_pair (by decide : ("package", "url", "from") ∈ pairCalls)
      url version
    rw [(calls.shows site seam).declared calls.known]
    simp [textArgument, Argument.textOf, Argument.text?]

end PackageLayers.Manifest

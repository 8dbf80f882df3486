/-
Purpose: Printed calls of members, and the dependencies that they write.
Main exports: memberCall, Shows.callAt, leadingCall_unique, Shows.dependency
-/
import PackageLayers.Proofs.Manifest.Calls
import PackageLayers.Proofs.Manifest.Entries

namespace PackageLayers.Manifest

open Source (Span Matched CodeAt isName isWord isNameChar)

/-!
A printed call of a member is its dot, its name, and its arguments right behind the
name.  An element of an array that starts with such a call is an entry with the
texts of the arguments.
-/

/-- A call of a member with its arguments. -/
def memberCall (name : String) (arguments : List Argument) : List Piece :=
  plainly ("." ++ name).toList ++ parenthesized arguments

/-- Where the parenthesis of a call with its dot at a position is. -/
def parenAt (offset : Nat) (name : String) : Nat :=
  offset + ("." ++ name).toList.length

/-- An argument with a quoted value. -/
def textArgument (label value : String) : Argument := ⟨label, [.value value]⟩

theorem textArgument_good {label : String} (name : isName label)
    (value : String) : (textArgument label value).Good :=
  ⟨name, IsValue.text value⟩

section

variable {source : Source} {offset : Nat} {name : String}
  {arguments : List Argument} {rest : List Piece}

theorem Shows.member (shows : Shows source offset
    (memberCall name arguments ++ rest)) :
    CodeAt source ("." ++ name).toList offset := by
  rw [memberCall, List.append_assoc] at shows
  exact fun _ _ here => shows.plain here

theorem Shows.parenthesized (shows : Shows source offset
    (memberCall name arguments ++ rest)) :
    Shows source (parenAt offset name)
      (PackageLayers.Manifest.parenthesized arguments ++ rest) := by
  rw [memberCall, List.append_assoc] at shows
  have behind := shows.back
  rwa [lengthOf_plainly] at behind

theorem Shows.paren (shows : Shows source offset
    (memberCall name arguments ++ rest)) :
    source.codeAt? (parenAt offset name) = some '(' :=
  shows.parenthesized.code

/-- The arguments of a call that is shown are printed behind its name. -/
theorem Shows.printed (shows : Shows source offset
    (memberCall name arguments ++ rest))
    (good : ∀ argument ∈ arguments, argument.Good) :
    Printed source (parenAt offset name) arguments :=
  ⟨good, shows.parenthesized.front⟩

/-- A word with a parenthesis right behind it is called. -/
theorem callAt_of_paren {length : Nat}
    (code : source.codeAt? (offset + length) = some '(') :
    source.callAt? length offset = some ⟨offset, offset + length⟩ := by
  have char := Source.charAt_of_codeAt code
  have behind : source.isNameAt (offset + length) = false := by
    rw [Source.isNameAt, char]
    rfl
  have next : source.nextSignificant? (offset + length) source.size =
      some (offset + length) :=
    Source.next_eq_some_iff.mpr ⟨Nat.le_refl _, Source.lt_size_of_codeAt code,
      Source.isSignificant_of_codeAt code rfl, fun other lower upper => by omega⟩
  simp only [Source.callAt?, behind, next, char, Bool.false_eq_true, if_false,
    if_true, Option.bind_eq_bind, Option.bind_some, pure]

theorem Shows.callAt (shows : Shows source offset
    (memberCall name arguments ++ rest)) :
    source.callAt? ("." ++ name).toList.length offset =
      some ⟨offset, parenAt offset name⟩ :=
  callAt_of_paren shows.paren

theorem Shows.leadingCall (shows : Shows source offset
    (memberCall name arguments ++ rest)) (good : isWord ("." ++ name).toList)
    {stop : Nat} (inside : parenAt offset name ≤ stop) :
    leadingCall? source name ⟨offset, stop⟩ = some (parenAt offset name) :=
  (leadingCall_eq_some good).mpr ⟨shows.member, inside, shows.callAt⟩

/-- A range starts with one call. -/
theorem leadingCall_unique {name' : String} {range range' : Span}
    {paren paren' : Nat} (good : isWord ("." ++ name).toList)
    (good' : isWord ("." ++ name').toList) (same : range.start = range'.start)
    (found : leadingCall? source name range = some paren)
    (found' : leadingCall? source name' range' = some paren') : name = name' := by
  obtain ⟨code, -, made⟩ := (leadingCall_eq_some good).mp found
  obtain ⟨code', -, made'⟩ := (leadingCall_eq_some good').mp found'
  rw [same] at code made
  have ends := (Source.callAt_eq_some made).2.1
  have ends' := (Source.callAt_eq_some made').2.1
  have within {word other : List Char} (goodWord : isWord word)
      (goodOther : isWord other) (here : CodeAt source other range'.start)
      (stops : source.isNameAt (range'.start + word.length) = false) :
      other.length ≤ word.length := by
    by_contra longer
    have filled := List.length_pos_of_ne_nil (Source.Words.filled goodWord)
    have inside := List.getElem?_eq_getElem (Nat.lt_of_not_le longer)
    have name : isNameChar other[word.length] := by
      cases other with
      | nil => cases goodOther
      | cons first tail =>
          simp only [isWord, Bool.and_eq_true] at goodOther
          have all := List.all_eq_true.mp goodOther.1.2
          obtain ⟨width, size⟩ := Nat.exists_eq_succ_of_ne_zero
            (Nat.ne_of_gt filled)
          refine all _ ?_
          simp only [size, List.getElem_cons_succ]
          exact List.getElem_mem _
    have char := Source.charAt_of_codeAt (here _ _ inside)
    rw [Source.isNameAt, char, Option.any_some, name] at stops
    cases stops
  have length := Nat.le_antisymm (within good' good code ends')
    (within good good' code' ends)
  have word : ("." ++ name).toList = ("." ++ name').toList := by
    refine List.ext_getElem length fun index bound bound' => ?_
    have left := code _ _ (List.getElem?_eq_getElem bound)
    rw [code' _ _ (List.getElem?_eq_getElem bound')] at left
    exact (Option.some.inj left).symm
  simpa [String.toList_append, String.toList_inj] using word

/-- The members that write dependencies. -/
def dependencyCalls : List String := ["target", "byName", "product"]

/-- An element that starts with a printed call is an entry with its arguments. -/
theorem Shows.dependency (shows : Shows source offset
    (memberCall name arguments ++ rest)) (known : name ∈ dependencyCalls)
    {stop : Nat} (inside : parenAt offset name ≤ stop) :
    dependencyIn? source ⟨offset, stop⟩ =
      calledDependency? source name (parenAt offset name) := by
  have good : ∀ name ∈ dependencyCalls, isWord ("." ++ name).toList := by decide
  have call := shows.leadingCall (good name known) inside
  have other (name' : String) (sought : name' ∈ dependencyCalls)
      (different : name' ≠ name) :
      leadingCall? source name' ⟨offset, stop⟩ = none := by
    rw [Option.eq_none_iff_forall_ne_some]
    intro paren found
    exact different (leadingCall_unique (good name' sought) (good name known) rfl
      found call)
  have dot : source.codeAt? offset = some '.' :=
    shows.member 0 '.' (by simp [String.toList_append])
  rw [dependencyIn_eq]
  simp only [Source.literalAt_of_codeAt shows.regular dot]
  simp only [dependencyCalls, List.mem_cons, List.not_mem_nil, or_false] at known
  rcases known with rfl | rfl | rfl
  · simp [call]
  · simp [call, other "target" (by decide) (by decide)]
  · simp [call, other "target" (by decide) (by decide),
      other "byName" (by decide) (by decide)]

/-- What a printed call writes. -/
theorem Printed.calledDependency (printed : Printed source offset arguments)
    (name : String) :
    calledDependency? source name offset =
      (Argument.textOf arguments "name").bind fun named =>
        match name with
        | "target" => some (.target named)
        | "byName" => some (.byName named)
        | _ => (Argument.textOf arguments "package").map fun package =>
            .product named package := by
  have partner := Source.partner_of_matched printed.matched
  have start : (parensAt offset arguments).start = offset := rfl
  rw [start] at partner
  have text := printed.labelText_eq (by decide : isName "name")
  have owner := printed.labelText_eq (by decide : isName "package")
  rw [parensAt] at partner text owner
  simp only [calledDependency?, Option.bind_eq_bind, partner, Option.bind_some,
    text, owner]
  rfl

end

end PackageLayers.Manifest

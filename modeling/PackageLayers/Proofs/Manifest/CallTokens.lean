/-
Purpose: Elements of arrays that are calls: products and declarations of packages.
Main exports: callToken, pairToken, Token.Calls, writes_product,
  Token.Calls.occurrences
-/
import PackageLayers.Proofs.Manifest.Arrays
import PackageLayers.Proofs.Manifest.MemberCalls

namespace PackageLayers.Manifest

open Source (Span Balanced isName isWord CodeAt)

/-!
A product is added to a target as a call with two quoted values, and a package is
declared by a call with one or two.  Whatever the values are, the call is one
element, and is read as the call that it is.
-/

/-- A call with one quoted value. -/
def callToken (name label value : String) : Token where
  lead := ("." ++ name).toList ++ '(' :: (label.toList ++ [':', ' '])
  inner := []
  last := value
  close := [')']

/-- A call with two quoted values. -/
def pairToken (name label value label' value' : String) : Token where
  lead := ("." ++ name).toList ++ '(' :: (label.toList ++ [':', ' '])
  inner := [(value, ',' :: ' ' :: (label'.toList ++ [':', ' ']))]
  last := value'
  close := [')']

/-- Whether a token is the text of a call with arguments. -/
structure Token.Calls (token : Token) (name : String)
    (arguments : List Argument) : Prop where
  good : token.Good
  word : isWord ("." ++ name).toList
  known : ∀ argument ∈ arguments, argument.Good
  pieces : ∀ blank tail, (token.fragment blank tail).pieces =
    plainly blank ++ (memberCall name arguments ++ plainly tail)

theorem balanced_call {front inner : List Char}
    (before : ∀ c ∈ front, Bracket.ofChar? c = none)
    (inside : ∀ c ∈ inner, Bracket.ofChar? c = none) :
    Balanced (front ++ '(' :: (inner ++ [')'])) :=
  (Balanced.of_plain before).append
    (.nested rfl rfl (Balanced.of_plain inside) .nil)

/-! ### Calls with one value -/

/-- The code of a call with one value. -/
def callCode (name label : String) : List Char :=
  ("." ++ name).toList ++ '(' :: ((label.toList ++ [':', ' ']) ++ [')'])

theorem callToken_code (name label value : String) :
    (callToken name label value).code = callCode name label := by
  simp [callToken, Token.code, callCode]

theorem callToken_pieces (name label value : String) (blank tail : List Char) :
    ((callToken name label value).fragment blank tail).pieces =
      plainly blank ++
        (memberCall name [textArgument label value] ++ plainly tail) := by
  simp [Token.fragment, Fragment.pieces, callToken, memberCall, parenthesized,
    listed, textArgument, Argument.pieces, plainly]

/-- A declaration of a package by its path. -/
theorem calls_path (path : String) :
    (callToken "package" "path" path).Calls "package"
      [textArgument "path" path] where
  good :=
    { plain := by
        rw [callToken_code]
        exact List.all_iff_forall_prop.mp (by decide +kernel)
      between := fun _ member => nomatch member
      starts := fun c member => by
        have dot : c = '.' := by simpa [callToken] using member.symm
        subst dot
        decide
      ends := fun c member => by
        have paren : c = ')' := by simpa [callToken] using member.symm
        subst paren
        decide
      balanced := by
        rw [callToken_code]
        exact balanced_call (List.all_iff_forall_prop.mp (by decide +kernel))
          (List.all_iff_forall_prop.mp (by decide +kernel))
      single := by
        rw [callToken_code]
        decide +kernel }
  word := by decide
  known := fun argument member => by
    rw [List.mem_singleton.mp member]
    exact textArgument_good (by decide) path
  pieces := callToken_pieces "package" "path" path

/-! ### Calls with two values -/

/-- The code of a call with two values. -/
def pairCode (name label label' : String) : List Char :=
  ("." ++ name).toList ++ '(' ::
    ((label.toList ++ [':', ' '] ++ ',' :: ' ' :: (label'.toList ++ [':', ' '])) ++
      [')'])

theorem pairToken_code (name label value label' value' : String) :
    (pairToken name label value label' value').code =
      pairCode name label label' := by
  simp [pairToken, Token.code, pairCode]

theorem pairToken_pieces (name label value label' value' : String)
    (blank tail : List Char) :
    ((pairToken name label value label' value').fragment blank tail).pieces =
      plainly blank ++ (memberCall name
        [textArgument label value, textArgument label' value'] ++
          plainly tail) := by
  simp [Token.fragment, Fragment.pieces, pairToken, memberCall, parenthesized,
    listed, textArgument, Argument.pieces, plainly]

/-- The calls with two values that are written: their names and labels. -/
def pairCalls : List (String × String × String) :=
  [("product", "name", "package"), ("package", "url", "from")]

theorem calls_pair {name label label' : String}
    (known : (name, label, label') ∈ pairCalls) (value value' : String) :
    (pairToken name label value label' value').Calls name
      [textArgument label value, textArgument label' value'] := by
  have plain : ∀ call ∈ pairCalls,
      (pairCode call.1 call.2.1 call.2.2).all isPlain := by decide +kernel
  have front : ∀ call ∈ pairCalls, ("." ++ call.1).toList.all fun c =>
      Bracket.ofChar? c = none := by decide +kernel
  have inner : ∀ call ∈ pairCalls, (call.2.1.toList ++ [':', ' '] ++
      ',' :: ' ' :: (call.2.2.toList ++ [':', ' '])).all fun c =>
      Bracket.ofChar? c = none := by decide +kernel
  have single : ∀ call ∈ pairCalls,
      Token.levelCommas (pairCode call.1 call.2.1 call.2.2) = 0 := by
    decide +kernel
  have names : ∀ call ∈ pairCalls, isWord ("." ++ call.1).toList ∧
      isName call.2.1 ∧ isName call.2.2 := by decide +kernel
  have code := pairToken_code name label value label' value'
  refine
    { good :=
        { plain := ?_
          between := fun part member => ?_
          starts := fun c member => ?_
          ends := fun c member => ?_
          balanced := ?_
          single := ?_ }
      word := (names (name, label, label') known).1
      known := fun argument member => ?_
      pieces := pairToken_pieces name label value label' value' }
  · rw [code]
    exact List.all_eq_true.mp (plain (name, label, label') known)
  · rw [List.mem_singleton.mp member]
    exact List.cons_ne_nil _ _
  · have dot : c = '.' := by simpa [pairToken] using member.symm
    subst dot
    decide
  · have paren : c = ')' := by simpa [pairToken] using member.symm
    subst paren
    decide
  · rw [code]
    exact balanced_call
      (List.all_iff_forall_prop.mp (front (name, label, label') known))
      (List.all_iff_forall_prop.mp (inner (name, label, label') known))
  · rw [code]
    exact single (name, label, label') known
  · rcases List.mem_cons.mp member with rfl | later
    · exact textArgument_good (names (name, label, label') known).2.1 value
    · rw [List.mem_singleton.mp later]
      exact textArgument_good (names (name, label, label') known).2.2 value'

/-! ### Calls in a text -/

namespace Token.Calls

variable {token : Token} {name : String} {arguments : List Argument}

/-- The positions of a call are those of its text. -/
theorem lengthOf (calls : token.Calls name arguments) :
    PackageLayers.Manifest.lengthOf (memberCall name arguments) =
      token.cells.length := by
  have same := Fragment.lengthOf_pieces (token.fragment [] [])
  rw [calls.pieces, Token.cells_fragment] at same
  simpa using same

section

variable {text : String} {blank tail : List Char} {place : Nat}
  {before after : List Char} {middle : Source.Mode}

/-- A call that is put into a text is shown there. -/
theorem shows (calls : token.Calls name arguments)
    (site : Site text (token.fragment blank tail) place before after middle)
    (seam : site.insertion.Seam) :
    Shows site.insertion.result (place + blank.length)
      (memberCall name arguments ++ plainly tail) := by
  have alone := Fragment.shows site.fit.good
  have length := Fragment.lengthOf_pieces (token.fragment blank tail)
  rw [calls.pieces, lengthOf_append, lengthOf_plainly] at length
  rw [calls.pieces] at alone
  have call := alone.back
  rw [lengthOf_plainly, Nat.zero_add] at call
  exact Shows.inserted seam call (by rw [site.width_eq, ← length])

end

end Token.Calls

/-! ### A product as element -/

/-- A product with its package as a token. -/
def productToken (product package : String) : Token :=
  pairToken "product" "name" product "package" package

theorem productToken_calls (product package : String) :
    (productToken product package).Calls "product"
      [textArgument "name" product, textArgument "package" package] :=
  calls_pair (by decide) product package

theorem callToken_lacks {name label : String} {word : List Char}
    (lead : ¬word <:+: ("." ++ name).toList ++
      '(' :: (label.toList ++ [':', ' ']))
    (close : ¬word <:+: [')']) (value : String) :
    (callToken name label value).Lacks word :=
  ⟨lead, (fun _ member => nomatch member), close⟩

theorem pairToken_lacks {name label label' : String} {word : List Char}
    (lead : ¬word <:+: ("." ++ name).toList ++
      '(' :: (label.toList ++ [':', ' ']))
    (middle : ¬word <:+: ',' :: ' ' :: (label'.toList ++ [':', ' ']))
    (close : ¬word <:+: [')']) (value value' : String) :
    (pairToken name label value label' value').Lacks word :=
  ⟨lead, fun part member => by rwa [List.mem_singleton.mp member], close⟩

theorem productToken_lacks (product package : String) {word : List Char}
    (known : word ∈ ["Package".toList, ".package".toList] ++
      soughtCalls.map fun name => ("." ++ name).toList) :
    (productToken product package).Lacks word := by
  have lead : ∀ word ∈ ["Package".toList, ".package".toList] ++
      (soughtCalls.map fun name => ("." ++ name).toList),
      ¬word <:+: ("." ++ "product").toList ++
        '(' :: ("name".toList ++ [':', ' ']) := by decide +kernel
  have middle : ∀ word ∈ ["Package".toList, ".package".toList] ++
      (soughtCalls.map fun name => ("." ++ name).toList),
      ¬word <:+: ',' :: ' ' :: ("package".toList ++ [':', ' ']) := by
    decide +kernel
  have close : ∀ word ∈ ["Package".toList, ".package".toList] ++
      (soughtCalls.map fun name => ("." ++ name).toList),
      ¬word <:+: [')'] := by decide +kernel
  exact pairToken_lacks (lead word known) (middle word known)
    (close word known) product package

/-- A product with its package is read as that product. -/
theorem writes_product (product package : String) :
    Writes (productToken product package) (.product product package) where
  good := (productToken_calls product package).good
  calls := fun name sought => productToken_lacks product package
    (List.mem_append_right _ (List.mem_map_of_mem sought))
  declares := productToken_lacks product package (by simp)
  package := productToken_lacks product package (by simp)
  reads := by
    intro text blank tail place before after middle site seam _ _
    have calls := productToken_calls product package
    have shows := calls.shows site seam
    have length := calls.lengthOf
    have printed := shows.printed calls.known
    rw [memberCall, lengthOf_append, lengthOf_plainly] at length
    rw [shows.dependency (by decide) (by rw [parenAt]; omega),
      printed.calledDependency]
    simp [textArgument, Argument.textOf, Argument.text?]

end PackageLayers.Manifest

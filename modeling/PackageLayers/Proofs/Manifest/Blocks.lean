/-
Purpose: The declarations of targets after an insertion.
Main exports: packageCall_shift, blockAt_shift, findings_shift
-/
import PackageLayers.Proofs.Manifest.Containers
import PackageLayers.Proofs.Manifest.Entries

namespace PackageLayers.Manifest

open Source (Span MemberCall Quoted Insertion isName isWord Matched CodeAt)

/-!
A declaration of a target moves with its arguments.  Only its dependencies may
change, and they are what the text with the fragment says.
-/

section

variable {insertion : Insertion}

/-! ### The call of the package -/

theorem packageCallAt_eq {source : Source} {position : Nat} :
    packageCallAt? source position =
      if 0 < position ∧ (source.isNameAt (position - 1) ∨
          source.charAt? (position - 1) = some '.') then none
      else (source.callAt? "Package".toList.length position).bind fun call =>
        (source.partner? call.paren).map fun stop => ⟨call.paren, stop⟩ := by
  simp only [packageCallAt?, Source.callAt?, Option.bind_eq_bind]
  split
  · rfl
  · have length : "Package".length = "Package".toList.length := rfl
    rw [length]
    split
    · rfl
    · cases source.nextSignificant? (position + "Package".toList.length)
        source.size with
      | none => rfl
      | some paren =>
          simp only [Option.bind_some]
          split <;> rfl

/-- Whether a dot is before a name. -/
theorem dotBefore_shift (seam : insertion.Seam) {position : Nat} {c : Char}
    (positive : 0 < position)
    (char : insertion.source.charAt? position = some c)
    (joined : Source.joins '.' c) :
    insertion.result.charAt? (insertion.shift position - 1) = some '.' ↔
      insertion.source.charAt? (position - 1) = some '.' := by
  by_cases first : position = insertion.place
  · constructor
    · intro dot
      have here := insertion.charAt_shift position
      have place : insertion.shift position =
          insertion.place + insertion.width := by
        rw [insertion.shift_of_le (by omega), first]
      rw [char, place] at here
      rw [place] at dot
      exact absurd ⟨'.', c, by omega, dot, here, joined⟩ seam.right
    · intro dot
      rw [first] at dot char positive
      exact absurd ⟨'.', c, positive, dot, char, joined⟩ seam.whole
  · have before : insertion.shift position - 1 =
        insertion.shift (position - 1) := by
      unfold Insertion.shift
      split <;> split <;> omega
    rw [before, insertion.charAt_shift]

theorem packageCallAt_shift (seam : insertion.Seam) {position : Nat}
    (code : CodeAt insertion.source "Package".toList position) :
    packageCallAt? insertion.result (insertion.shift position) =
      (packageCallAt? insertion.source position).map insertion.pair := by
  have char := Source.charAt_of_codeAt (code 0 'P' rfl)
  rw [Nat.add_zero] at char
  have same : (0 < insertion.shift position ∧
      (insertion.result.isNameAt (insertion.shift position - 1) ∨
        insertion.result.charAt? (insertion.shift position - 1) = some '.')) ↔
      (0 < position ∧ (insertion.source.isNameAt (position - 1) ∨
        insertion.source.charAt? (position - 1) = some '.')) := by
    have positive : 0 < insertion.shift position ↔ 0 < position := by
      conv_lhs => rw [← insertion.shift_zero, insertion.shift_lt_iff]
    rw [positive]
    refine and_congr_right fun positive => ?_
    rw [dotBefore_shift seam positive char (by decide),
      seam.isNameAt_before positive (Source.isNameAt_iff.mpr ⟨'P', char, by decide⟩)]
  rw [packageCallAt_eq, packageCallAt_eq,
    seam.callAt_shift (by decide) code]
  simp only [same]
  split
  · rfl
  · cases insertion.source.callAt? "Package".toList.length position with
    | none => rfl
    | some call =>
        simp only [Option.map_some, Option.bind_some, MemberCall.moved,
          Insertion.partner_shift seam.balanced, Option.map_map]
        rfl

theorem whole_order (insertion : Insertion) :
    insertion.source.whole.start < insertion.source.whole.stop :=
  Nat.lt_of_le_of_lt (Nat.zero_le _) insertion.inside

/-- The call of the package moves. -/
theorem packageCall_shift (quiet : Quiet insertion) :
    packageCall? insertion.result =
      (packageCall? insertion.source).map insertion.pair := by
  rw [packageCall?, packageCall?, ← Insertion.Seam.range_whole,
    quiet.toSeam.occurrences_shift (by decide) quiet.package
      (whole_order insertion), List.findSome?_map, List.map_findSome?]
  refine Source.findSome_congr fun position member => ?_
  exact packageCallAt_shift quiet.toSeam
    ((Source.mem_occurrences (by decide)).mp member).2.2

/-- The call of the package has parentheses. -/
theorem packageCall_matched {source : Source} {call : Span}
    (found : packageCall? source = some call) :
    Matched source call ∧ source.charAt? call.start = some '(' := by
  obtain ⟨position, -, here⟩ := List.exists_of_findSome?_eq_some found
  rw [packageCallAt_eq] at here
  split at here
  · cases here
  · obtain ⟨made, member, here⟩ := Option.bind_eq_some_iff.mp here
    obtain ⟨stop, partner, same⟩ := Option.map_eq_some_iff.mp here
    subst same
    exact ⟨Source.matched_of_partner partner,
      (Source.callAt_eq_some member).2.2.2⟩

/-! ### Declarations of targets -/

theorem isPluginProduct_shift (quiet : Quiet insertion) (kind : TargetKind)
    {parens : Span} (matched : Matched insertion.source parens)
    (opens : insertion.source.charAt? parens.start = some '(') :
    isPluginProduct insertion.result kind (insertion.pair parens) =
      isPluginProduct insertion.source kind parens := by
  have keeps := quiet.labels parens matched opens
  rw [isPluginProduct, isPluginProduct,
    quiet.toSeam.label_shift (by decide) matched.order
      (keeps "targets" (by decide)),
    quiet.toSeam.label_shift (by decide) matched.order
      (keeps "capability" (by decide)),
    Option.isSome_map, Option.isNone_map]

/-- A declaration after an insertion, with the dependencies that are written
there then. -/
def Block.moved (insertion : Insertion) (block : Block) : Block :=
  let argument :=
    dependencyArgument insertion.result (insertion.pair block.parens)
  let entries := argument.entries insertion.result
  { target :=
      { block.target with dependencies := entries.filterMap Entry.dependency }
    dot := insertion.shift block.dot
    parens := insertion.pair block.parens
    nameLiteral :=
      ⟨insertion.shift block.nameLiteral.start,
        insertion.after block.nameLiteral.stop⟩
    argument := argument
    entries := entries }

/-- A constructor after an insertion. -/
def Candidate.moved (insertion : Insertion) (candidate : Candidate) :
    Candidate :=
  { candidate with
    dot := insertion.shift candidate.dot
    paren := insertion.shift candidate.paren }

/-- The texts of an array argument other than the dependencies. -/
theorem labelTexts_shift (quiet : Quiet insertion) {parens : Span}
    {label : String} (sought : label ∈ soughtLabels)
    (matched : Matched insertion.source parens)
    (opens : insertion.source.charAt? parens.start = some '(') :
    (labelArray? insertion.result (insertion.pair parens) label).map
        (textElements insertion.result) =
      (labelArray? insertion.source parens label).map
        (textElements insertion.source) := by
  rw [labelArray_shift quiet.toSeam (isName_of_sought sought) matched.order
    (quiet.labels parens matched opens label sought), Option.map_map]
  cases found : labelArray? insertion.source parens label with
  | none => rfl
  | some brackets =>
      have spares := quiet.arrays parens label brackets matched sought found
      rw [Option.map_some, Option.map_some, Function.comp_apply,
        textElements_shift quiet.toSeam (labelArray_eq_some found).2 spares]

/-- A declaration moves. -/
theorem blockAt_shift (quiet : Quiet insertion) {candidate : Candidate}
    {stop : Nat} (matched : Matched insertion.source ⟨candidate.paren, stop⟩)
    (opens : insertion.source.charAt? candidate.paren = some '(') :
    blockAt? insertion.result (candidate.moved insertion)
        (insertion.shift stop) =
      (blockAt? insertion.source candidate stop).map (Block.moved insertion) := by
  have keeps := quiet.labels ⟨candidate.paren, stop⟩ matched opens
  have pair : (⟨(candidate.moved insertion).paren, insertion.shift stop⟩ : Span) =
      insertion.pair ⟨candidate.paren, stop⟩ := rfl
  have kind : (candidate.moved insertion).kind = candidate.kind := rfl
  simp only [blockAt?, Option.bind_eq_bind, pair, kind,
    labelLiteral_shift quiet.toSeam (by decide) matched.order
      (keeps "name" (by decide)),
    isPluginProduct_shift quiet candidate.kind matched opens,
    labelText_shift quiet.toSeam (by decide) matched.order
      (keeps "path" (by decide)),
    @labelTexts_shift _ quiet _ "sources" (by decide) matched opens]
  cases labelLiteral? insertion.source ⟨candidate.paren, stop⟩ "name" with
  | none => rfl
  | some name =>
      simp only [Option.map_some, Option.bind_some]
      split <;> rfl

/-! ### All constructors -/

theorem insertBy_map {α β : Type} {precedes : α → α → Bool}
    {precedes' : β → β → Bool} {move : α → β}
    (same : ∀ first second,
      precedes' (move first) (move second) = precedes first second)
    (item : α) (items : List α) :
    insertBy precedes' (move item) (items.map move) =
      (insertBy precedes item items).map move := by
  induction items with
  | nil => rfl
  | cons head rest inductionHypothesis =>
      simp only [List.map_cons, insertBy, same, inductionHypothesis]
      split <;> rfl

/-- Sorting commutes with a change of the items that keeps their order. -/
theorem sortBy_map {α β : Type} {precedes : α → α → Bool}
    {precedes' : β → β → Bool} {move : α → β}
    (same : ∀ first second,
      precedes' (move first) (move second) = precedes first second)
    (items : List α) :
    sortBy precedes' (items.map move) = (sortBy precedes items).map move := by
  induction items with
  | nil => rfl
  | cons item items inductionHypothesis =>
      rw [List.map_cons, sortBy, sortBy, inductionHypothesis,
        insertBy_map same]

theorem isWord_of_sought {name : String} (sought : name ∈ soughtCalls) :
    isWord ("." ++ name).toList := by
  have all : ∀ name ∈ soughtCalls, isWord ("." ++ name).toList := by decide
  exact all name sought

/-- The constructor that a call is. -/
def candidateOf (kind : TargetKind) (call : MemberCall) : Candidate :=
  ⟨kind, call.dot, call.paren⟩

/-- Whether a constructor may come before another one. -/
def precedes (first second : Candidate) : Bool :=
  first.dot ≤ second.dot

theorem candidates_eq {source : Source} : candidates source =
    sortBy precedes (TargetKind.constructors.flatMap fun made =>
      (source.memberCalls made.1 source.whole).map (candidateOf made.2)) := rfl

/-- The constructors of targets move. -/
theorem candidates_shift (quiet : Quiet insertion) :
    candidates insertion.result =
      (candidates insertion.source).map (Candidate.moved insertion) := by
  have calls (made : String × TargetKind)
      (member : made ∈ TargetKind.constructors) :
      (insertion.result.memberCalls made.1 insertion.result.whole).map
          (candidateOf made.2) =
        ((insertion.source.memberCalls made.1 insertion.source.whole).map
          (candidateOf made.2)).map (Candidate.moved insertion) := by
    have sought : made.1 ∈ soughtCalls :=
      List.mem_append_left _ (List.mem_map_of_mem member)
    rw [← Insertion.Seam.range_whole, quiet.toSeam.memberCalls_shift
      (isWord_of_sought sought) (quiet.calls _ sought) (whole_order insertion),
      List.map_map, List.map_map]
    rfl
  rw [candidates_eq, candidates_eq, ← @sortBy_map _ _ _ precedes,
    List.map_flatMap, List.flatMap_congr calls]
  intro first second
  simp only [precedes, Candidate.moved, insertion.shift_le_iff]

/-- A constructor of a target is a call of its name. -/
theorem call_of_candidate {source : Source} {candidate : Candidate}
    (member : candidate ∈ candidates source) :
    ∃ name, (name, candidate.kind) ∈ TargetKind.constructors ∧
      CodeAt source ("." ++ name).toList candidate.dot ∧
      source.nextSignificant? (candidate.dot + ("." ++ name).toList.length)
        source.size = some candidate.paren ∧
      source.charAt? candidate.paren = some '(' := by
  rw [candidates_eq, mem_sortBy, List.mem_flatMap] at member
  obtain ⟨made, here, member⟩ := member
  obtain ⟨call, called, rfl⟩ := List.mem_map.mp member
  have sought : made.1 ∈ soughtCalls :=
    List.mem_append_left _ (List.mem_map_of_mem here)
  exact ⟨made.1, here, Source.mem_memberCalls (isWord_of_sought sought) called⟩

theorem mem_candidates {source : Source} {candidate : Candidate}
    (member : candidate ∈ candidates source) :
    source.charAt? candidate.paren = some '(' := by
  obtain ⟨name, -, -, -, opens⟩ := call_of_candidate member
  exact opens

/-- The declarations of targets move. -/
theorem findings_shift (quiet : Quiet insertion) {found : List Candidate}
    (opens : ∀ candidate ∈ found,
      insertion.source.charAt? candidate.paren = some '(')
    {covered covered' : Nat}
    (agree : ∀ position, insertion.shift position < covered' ↔
      position < covered) :
    (findings insertion.result covered'
        (found.map (Candidate.moved insertion))).filterMap Finding.block? =
      ((findings insertion.source covered found).filterMap
        Finding.block?).map (Block.moved insertion) := by
  induction found generalizing covered covered' with
  | nil => rfl
  | cons candidate found inductionHypothesis =>
      have later := fun other member =>
        opens other (List.mem_cons_of_mem candidate member)
      have container : (insertion.result.enclosing?
          (insertion.shift candidate.dot)).any
            (isTargetsContainer insertion.result) =
          (insertion.source.enclosing? candidate.dot).any
            (isTargetsContainer insertion.source) := by
        rw [Insertion.enclosing_shift quiet.balanced]
        cases around : insertion.source.enclosing? candidate.dot with
        | none => rfl
        | some bracket =>
            obtain ⟨c, code⟩ := code_of_enclosing around
            exact isTargetsContainer_shift quiet.toSeam code
      have dot : (candidate.moved insertion).dot =
          insertion.shift candidate.dot := rfl
      have paren : (candidate.moved insertion).paren =
          insertion.shift candidate.paren := rfl
      have early : decide (insertion.shift candidate.dot < covered') =
          decide (candidate.dot < covered) :=
        decide_eq_decide.mpr (agree candidate.dot)
      rw [List.map_cons, findings, findings, dot, paren, container, early,
        Insertion.partner_shift quiet.balanced]
      split
      · exact inductionHypothesis later agree
      · cases partner : insertion.source.partner? candidate.paren with
        | none =>
            simp only [Option.map_none, List.filterMap_cons, Finding.block?]
            exact inductionHypothesis later agree
        | some stop =>
            simp only [Option.map_some]
            rw [blockAt_shift quiet (Source.matched_of_partner partner)
              (opens candidate List.mem_cons_self)]
            cases blockAt? insertion.source candidate stop with
            | none => exact inductionHypothesis later agree
            | some block =>
                simp only [Option.map_some, List.filterMap_cons, Finding.block?,
                  List.map_cons]
                rw [inductionHypothesis later fun position => by
                  rw [Nat.lt_succ_iff, Nat.lt_succ_iff, insertion.shift_le_iff]]

end

end PackageLayers.Manifest

/-
Purpose: Brackets around balanced pieces of code.
Main exports: Balanced, closingPosition_balanced, depthThrough,
  balanced_of_partner
-/
import Mathlib.Data.List.Sort
import PackageLayers.Proofs.Source.Insertion

namespace PackageLayers.Source

/-!
The three walks over brackets pass over a balanced piece of code as if it were
not there.  What stands between two brackets that are partners is balanced.
-/

/-- The positions at which no bracket is open, closing brackets left out. -/
def depthZero : (depth : Nat) → List (Nat × Char) → List Nat
  | _, [] => []
  | depth, (position, c) :: rest =>
      let later := depthZero (depthAfter depth c) rest
      if depth = 0 ∧ !isClosing c then position :: later else later

/-- The positions of code characters directly inside a pair of brackets. -/
def topLevel (source : Source) (span : Span) : List Nat :=
  depthZero 0 (source.codeChars (span.start + 1) span.stop)

/-- Code characters whose brackets match. -/
inductive Balanced : List Char → Prop
  | nil : Balanced []
  | other {c : Char} {rest : List Char} (plain : Bracket.ofChar? c = none)
      (later : Balanced rest) : Balanced (c :: rest)
  | nested {kind : BracketKind} {left right : Char} {inner rest : List Char}
      (opens : Bracket.ofChar? left = some (.opening kind))
      (closes : Bracket.ofChar? right = some (.closing kind))
      (within : Balanced inner) (later : Balanced rest) :
      Balanced (left :: (inner ++ right :: rest))

/-- Characters with their positions. -/
abbrev Marked := List (Nat × Char)

/-- The characters alone. -/
def Marked.chars (code : Marked) : List Char := code.map Prod.snd

/-- The same characters at other positions. -/
def Marked.moved (move : Nat → Nat) (code : Marked) : Marked :=
  code.map fun entry => (move entry.1, entry.2)

@[simp] theorem Marked.chars_moved (move : Nat → Nat) (code : Marked) :
    Marked.chars (Marked.moved move code) = Marked.chars code := by
  simp only [Marked.chars, Marked.moved, List.map_map, Function.comp_def]

theorem Marked.chars_append (left right : Marked) :
    Marked.chars (left ++ right) = Marked.chars left ++ Marked.chars right :=
  List.map_append

namespace Balanced

theorem append {left right : List Char} (first : Balanced left)
    (second : Balanced right) : Balanced (left ++ right) := by
  induction first with
  | nil => exact second
  | other plain later inductionHypothesis =>
      exact .other plain inductionHypothesis
  | nested opens closes within later insideHypothesis inductionHypothesis =>
      rw [List.cons_append, List.append_assoc, List.cons_append]
      exact .nested opens closes within inductionHypothesis

/-- Characters that are no brackets are balanced. -/
theorem of_plain {chars : List Char}
    (plain : ∀ c ∈ chars, Bracket.ofChar? c = none) : Balanced chars := by
  induction chars with
  | nil => exact .nil
  | cons c chars inductionHypothesis =>
      exact .other (plain c (by simp))
        (inductionHypothesis fun d member => plain d (by simp [member]))

end Balanced

/-! ### Walks move with the positions -/

theorem closingPosition_moved (move : Nat → Nat) (pending : List BracketKind)
    (code : Marked) :
    closingPosition? pending (Marked.moved move code) =
      (closingPosition? pending code).map move := by
  induction code generalizing pending with
  | nil => rfl
  | cons entry code inductionHypothesis =>
      obtain ⟨position, c⟩ := entry
      simp only [Marked.moved, List.map_cons]
      unfold closingPosition?
      simp only [Marked.moved] at inductionHypothesis
      split
      · exact inductionHypothesis _
      · exact inductionHypothesis _
      · rfl
      · split
        · split
          · rfl
          · exact inductionHypothesis _
        · rfl

theorem depthZero_moved (move : Nat → Nat) (depth : Nat) (code : Marked) :
    depthZero depth (Marked.moved move code) =
      (depthZero depth code).map move := by
  induction code generalizing depth with
  | nil => rfl
  | cons entry code inductionHypothesis =>
      simp only [Marked.moved] at inductionHypothesis
      simp only [Marked.moved, List.map_cons, depthZero, inductionHypothesis]
      split <;> rfl

theorem commas_moved (move : Nat → Nat) (depth : Nat) (code : Marked) :
    commas depth (Marked.moved move code) = (commas depth code).map move := by
  induction code generalizing depth with
  | nil => rfl
  | cons entry code inductionHypothesis =>
      simp only [Marked.moved] at inductionHypothesis
      simp only [Marked.moved, List.map_cons, commas, inductionHypothesis]
      split <;> rfl

theorem openBefore_moved (move : Nat → Nat) (pending : List Nat)
    (code : Marked) :
    openBefore (pending.map move) (Marked.moved move code) =
      (openBefore pending code).map move := by
  induction code generalizing pending with
  | nil => rfl
  | cons entry code inductionHypothesis =>
      obtain ⟨position, c⟩ := entry
      simp only [Marked.moved] at inductionHypothesis
      simp only [Marked.moved, List.map_cons, openBefore]
      split
      · exact inductionHypothesis (position :: pending)
      · rw [← List.map_tail]
        exact inductionHypothesis pending.tail
      · exact inductionHypothesis pending

/-! ### Walks one after the other -/

/-- The number of open brackets after some characters. -/
def depthThrough (depth : Nat) (chars : List Char) : Nat :=
  chars.foldl depthAfter depth

theorem depthThrough_append (depth : Nat) (left right : List Char) :
    depthThrough depth (left ++ right) =
      depthThrough (depthThrough depth left) right :=
  List.foldl_append

theorem depthZero_append (depth : Nat) (left right : Marked) :
    depthZero depth (left ++ right) =
      depthZero depth left ++
        depthZero (depthThrough depth left.chars) right := by
  induction left generalizing depth with
  | nil => rfl
  | cons entry left inductionHypothesis =>
      simp only [List.cons_append, depthZero, inductionHypothesis]
      split <;> rfl

theorem commas_append (depth : Nat) (left right : Marked) :
    commas depth (left ++ right) =
      commas depth left ++ commas (depthThrough depth left.chars) right := by
  induction left generalizing depth with
  | nil => rfl
  | cons entry left inductionHypothesis =>
      simp only [List.cons_append, commas, inductionHypothesis]
      split <;> rfl

theorem openBefore_append (pending : List Nat) (left right : Marked) :
    openBefore pending (left ++ right) =
      openBefore (openBefore pending left) right := by
  induction left generalizing pending with
  | nil => rfl
  | cons entry left inductionHypothesis =>
      simp only [List.cons_append, openBefore]
      split <;> exact inductionHypothesis _

/-! ### Walks over balanced code -/

theorem Marked.chars_eq_cons {code : Marked} {c : Char} {chars : List Char}
    (same : c :: chars = code.chars) :
    ∃ position rest, code = (position, c) :: rest ∧
      chars = Marked.chars rest := by
  obtain ⟨⟨position, d⟩, rest, rfl, rfl, rfl⟩ := List.map_eq_cons_iff.mp same.symm
  exact ⟨position, rest, rfl, rfl⟩

theorem Marked.chars_eq_append {code : Marked} {left right : List Char}
    (same : left ++ right = code.chars) :
    ∃ first second, code = first ++ second ∧ left = Marked.chars first ∧
      right = Marked.chars second := by
  obtain ⟨first, second, rfl, rfl, rfl⟩ := List.map_eq_append_iff.mp same.symm
  exact ⟨first, second, rfl, rfl, rfl⟩

theorem depthAfter_plain {depth : Nat} {c : Char}
    (plain : Bracket.ofChar? c = none) : depthAfter depth c = depth := by
  simp only [depthAfter, plain]

theorem depthAfter_opening {depth : Nat} {c : Char} {kind : BracketKind}
    (opens : Bracket.ofChar? c = some (.opening kind)) :
    depthAfter depth c = depth + 1 := by
  simp only [depthAfter, opens]

theorem depthAfter_closing {depth : Nat} {c : Char} {kind : BracketKind}
    (closes : Bracket.ofChar? c = some (.closing kind)) :
    depthAfter depth c = depth - 1 := by
  simp only [depthAfter, closes]

/-- A balanced piece leaves the depth as it was. -/
theorem Balanced.depth {chars : List Char} (balanced : Balanced chars)
    (depth : Nat) : depthThrough depth chars = depth := by
  induction balanced generalizing depth with
  | nil => rfl
  | other plain later inductionHypothesis =>
      rw [depthThrough, List.foldl_cons, depthAfter_plain plain]
      exact inductionHypothesis depth
  | nested opens closes within later insideHypothesis inductionHypothesis =>
      rw [depthThrough, List.foldl_cons, depthAfter_opening opens,
        ← depthThrough, depthThrough_append, insideHypothesis, depthThrough,
        List.foldl_cons, depthAfter_closing closes, Nat.add_sub_cancel]
      exact inductionHypothesis depth

/-- Inside of brackets nothing of a balanced piece is at depth zero. -/
theorem Balanced.depthZero {chars : List Char} (balanced : Balanced chars)
    {code : Marked} (same : chars = code.chars) {depth : Nat}
    (inside : 0 < depth) : depthZero depth code = [] := by
  induction balanced generalizing code depth with
  | nil =>
      obtain rfl : code = [] := List.map_eq_nil_iff.mp same.symm
      rfl
  | other plain later inductionHypothesis =>
      obtain ⟨position, rest, rfl, tail⟩ := Marked.chars_eq_cons same
      rw [Source.depthZero, if_neg fun zero => by omega, depthAfter_plain plain]
      exact inductionHypothesis tail inside
  | nested opens closes within later insideHypothesis inductionHypothesis =>
      obtain ⟨position, rest, rfl, tail⟩ := Marked.chars_eq_cons same
      obtain ⟨first, second, rfl, inner, behind⟩ := Marked.chars_eq_append tail
      obtain ⟨position', rest, rfl, last⟩ := Marked.chars_eq_cons behind
      rw [Source.depthZero, if_neg fun zero => by omega,
        depthAfter_opening opens, depthZero_append,
        insideHypothesis inner (Nat.succ_pos depth), ← inner, within.depth,
        List.nil_append, Source.depthZero, if_neg fun zero => by omega,
        depthAfter_closing closes, Nat.add_sub_cancel]
      exact inductionHypothesis last inside

/-- Inside of brackets no comma of a balanced piece is at depth zero. -/
theorem Balanced.commas {chars : List Char} (balanced : Balanced chars)
    {code : Marked} (same : chars = code.chars) {depth : Nat}
    (inside : 0 < depth) : commas depth code = [] := by
  induction balanced generalizing code depth with
  | nil =>
      obtain rfl : code = [] := List.map_eq_nil_iff.mp same.symm
      rfl
  | other plain later inductionHypothesis =>
      obtain ⟨position, rest, rfl, tail⟩ := Marked.chars_eq_cons same
      rw [Source.commas, if_neg fun zero => by omega, depthAfter_plain plain]
      exact inductionHypothesis tail inside
  | nested opens closes within later insideHypothesis inductionHypothesis =>
      obtain ⟨position, rest, rfl, tail⟩ := Marked.chars_eq_cons same
      obtain ⟨first, second, rfl, inner, behind⟩ := Marked.chars_eq_append tail
      obtain ⟨position', rest, rfl, last⟩ := Marked.chars_eq_cons behind
      rw [Source.commas, if_neg fun zero => by omega,
        depthAfter_opening opens, commas_append,
        insideHypothesis inner (Nat.succ_pos depth), ← inner, within.depth,
        List.nil_append, Source.commas, if_neg fun zero => by omega,
        depthAfter_closing closes, Nat.add_sub_cancel]
      exact inductionHypothesis last inside

/-- A balanced piece closes no bracket that is open before it. -/
theorem Balanced.openBefore {chars : List Char} (balanced : Balanced chars)
    {code : Marked} (same : chars = code.chars) (pending : List Nat) :
    openBefore pending code = pending := by
  induction balanced generalizing code pending with
  | nil =>
      obtain rfl : code = [] := List.map_eq_nil_iff.mp same.symm
      rfl
  | other plain later inductionHypothesis =>
      obtain ⟨position, rest, rfl, tail⟩ := Marked.chars_eq_cons same
      simp only [Source.openBefore, plain]
      exact inductionHypothesis tail pending
  | nested opens closes within later insideHypothesis inductionHypothesis =>
      obtain ⟨position, rest, rfl, tail⟩ := Marked.chars_eq_cons same
      obtain ⟨first, second, rfl, inner, behind⟩ := Marked.chars_eq_append tail
      obtain ⟨position', rest, rfl, last⟩ := Marked.chars_eq_cons behind
      simp only [Source.openBefore, opens, openBefore_append,
        insideHypothesis inner, closes, List.tail_cons]
      exact inductionHypothesis last pending

/-- A balanced piece does not close the brackets that are pending. -/
theorem Balanced.closingPosition {chars : List Char}
    (balanced : Balanced chars) {code : Marked} (same : chars = code.chars)
    {pending : List BracketKind} (opened : pending ≠ []) (rest : Marked) :
    closingPosition? pending (code ++ rest) = closingPosition? pending rest := by
  induction balanced generalizing code pending rest with
  | nil =>
      obtain rfl : code = [] := List.map_eq_nil_iff.mp same.symm
      rfl
  | other plain later inductionHypothesis =>
      obtain ⟨position, code, rfl, tail⟩ := Marked.chars_eq_cons same
      simp only [List.cons_append, closingPosition?, plain]
      exact inductionHypothesis tail opened rest
  | @nested kind left right _ _ opens closes within later
      insideHypothesis inductionHypothesis =>
      obtain ⟨position, code, rfl, tail⟩ := Marked.chars_eq_cons same
      obtain ⟨first, second, rfl, inner, behind⟩ := Marked.chars_eq_append tail
      obtain ⟨position', second, rfl, last⟩ := Marked.chars_eq_cons behind
      simp only [List.cons_append, closingPosition?, opens, List.append_assoc]
      rw [insideHypothesis inner (List.cons_ne_nil _ _)]
      simp only [closingPosition?, closes]
      cases pending with
      | nil => exact absurd rfl opened
      | cons innermost outer =>
          simp only [if_true]
          exact inductionHypothesis last opened rest

/-! ### Partners -/

/-- The walk to the bracket that closes the innermost one passes over a balanced
piece. -/
theorem balanced_of_closing {kind : BracketKind} {outer : List BracketKind}
    {stop : Nat} (code : Marked)
    (found : closingPosition? (kind :: outer) code = some stop) :
    ∃ inner position c rest, code = inner ++ (position, c) :: rest ∧
      Balanced (Marked.chars inner) ∧
      Bracket.ofChar? c = some (.closing kind) ∧
      (outer = [] ∧ position = stop ∨
        outer ≠ [] ∧ closingPosition? outer rest = some stop) := by
  induction size : code.length using Nat.strong_induction_on
    generalizing code kind outer with
  | _ count inductionHypothesis =>
  subst size
  cases code with
  | nil => cases found
  | cons entry code =>
      obtain ⟨position, c⟩ := entry
      cases bracket : Bracket.ofChar? c with
      | none =>
          simp only [closingPosition?, bracket] at found
          obtain ⟨inner, place, d, rest, rfl, balanced, closes, last⟩ :=
            inductionHypothesis _ (Nat.lt_succ_self _) code found rfl
          exact ⟨(position, c) :: inner, place, d, rest, rfl,
            .other bracket balanced, closes, last⟩
      | some side =>
          cases side with
          | opening kind' =>
              simp only [closingPosition?, bracket] at found
              obtain ⟨first, place, d, rest, split, within, closes, last⟩ :=
                inductionHypothesis _ (Nat.lt_succ_self _) code found rfl
              have shorter : rest.length < ((position, c) :: code).length := by
                rw [split, List.length_cons, List.length_append, List.length_cons]
                omega
              obtain ⟨inner, place', d', rest', rfl, balanced, closes', last'⟩ :=
                inductionHypothesis _ shorter rest
                  (last.resolve_left fun none => List.cons_ne_nil _ _ none.1).2
                  rfl
              refine ⟨(position, c) :: (first ++ (place, d) :: inner), place', d',
                rest', by simp [split], ?_, closes', last'⟩
              simp only [Marked.chars, List.map_cons, List.map_append]
              exact .nested bracket closes within balanced
          | closing kind' =>
              simp only [closingPosition?, bracket] at found
              split at found
              · rename_i same
                refine ⟨[], position, c, code, rfl, .nil, by rw [bracket, same],
                  ?_⟩
                cases outer with
                | nil => exact Or.inl ⟨rfl, Option.some.inj found⟩
                | cons => exact Or.inr ⟨List.cons_ne_nil _ _, found⟩
              · cases found

/-! ### The code of a range -/

/-- Whether positions ascend. -/
def Marked.Ascends (code : Marked) : Prop :=
  code.Pairwise fun first second => first.1 < second.1

/-- Code with ascending positions is known by its entries. -/
theorem Marked.Ascends.ext {left right : Marked} (first : Marked.Ascends left)
    (second : Marked.Ascends right)
    (same : ∀ position c, (position, c) ∈ left ↔ (position, c) ∈ right) :
    left = right := by
  have irreflexive : Std.Irrefl fun first second : Nat × Char =>
      first.1 < second.1 := ⟨fun _ => Nat.lt_irrefl _⟩
  have antisymmetric : Std.Antisymm fun first second : Nat × Char =>
      first.1 < second.1 := ⟨fun _ _ less greater => absurd less (by omega)⟩
  exact List.Pairwise.eq_of_mem_iff first second fun entry => same entry.1 entry.2

variable {source : Source}

theorem lt_size_of_codeAt {position : Nat} {c : Char}
    (code : source.codeAt? position = some c) : position < source.size := by
  by_contra outside
  have none : source.cells[position]? = none :=
    Array.getElem?_eq_none (Nat.le_of_not_lt outside)
  rw [codeAt?, none] at code
  cases code

theorem mem_codeChars {start stop position : Nat} {c : Char} :
    (position, c) ∈ source.codeChars start stop ↔
      start ≤ position ∧ position < stop ∧ source.codeAt? position = some c := by
  simp only [codeChars, List.mem_filterMap, mem_positions, Option.map_eq_some_iff,
    Prod.mk.injEq]
  constructor
  · rintro ⟨other, ⟨lower, upper⟩, d, code, rfl, rfl⟩
    exact ⟨lower, by omega, code⟩
  · rintro ⟨lower, upper, code⟩
    have inside := lt_size_of_codeAt code
    exact ⟨position, ⟨lower, by omega⟩, c, code, rfl, rfl⟩

theorem codeChars_ascends (start stop : Nat) :
    Marked.Ascends (source.codeChars start stop) := by
  rw [Marked.Ascends, codeChars, List.pairwise_filterMap]
  refine List.Pairwise.imp ?_ List.pairwise_lt_range'
  intro first second less entry here entry' there
  rw [Option.map_eq_some_iff] at here there
  obtain ⟨c, -, rfl⟩ := here
  obtain ⟨d, -, rfl⟩ := there
  exact less

theorem codeChars_of_le {start stop : Nat} (order : stop ≤ start) :
    source.codeChars start stop = [] := by
  refine List.eq_nil_iff_forall_not_mem.mpr fun entry inside => ?_
  have bound := mem_codeChars.mp inside
  omega

theorem codeChars_append {start middle stop : Nat} (first : start ≤ middle)
    (second : middle ≤ stop) :
    source.codeChars start stop =
      source.codeChars start middle ++ source.codeChars middle stop := by
  refine (codeChars_ascends start stop).ext ?_ fun position c => ?_
  · refine List.pairwise_append.mpr
      ⟨codeChars_ascends _ _, codeChars_ascends _ _, ?_⟩
    rintro ⟨position, c⟩ here ⟨other, d⟩ there
    have left := mem_codeChars.mp here
    have right := mem_codeChars.mp there
    simp only
    omega
  · rw [List.mem_append, mem_codeChars, mem_codeChars, mem_codeChars]
    constructor
    · rintro ⟨lower, upper, code⟩
      by_cases early : position < middle
      · exact Or.inl ⟨lower, early, code⟩
      · exact Or.inr ⟨by omega, upper, code⟩
    · rintro (⟨lower, upper, code⟩ | ⟨lower, upper, code⟩)
      · exact ⟨lower, by omega, code⟩
      · exact ⟨by omega, upper, code⟩

theorem codeChars_cons {start stop : Nat} {c : Char} (inside : start < stop)
    (code : source.codeAt? start = some c) :
    source.codeChars start stop =
      (start, c) :: source.codeChars (start + 1) stop := by
  refine (codeChars_ascends start stop).ext ?_ fun position d => ?_
  · refine List.pairwise_cons.mpr ⟨?_, codeChars_ascends _ _⟩
    rintro ⟨position, d⟩ member
    have bound := (mem_codeChars.mp member).1
    simp only
    omega
  · rw [List.mem_cons, mem_codeChars, mem_codeChars, Prod.mk.injEq]
    constructor
    · rintro ⟨lower, upper, here⟩
      by_cases first : position = start
      · subst first
        rw [here] at code
        exact Or.inl ⟨rfl, Option.some.inj code⟩
      · exact Or.inr ⟨by omega, upper, here⟩
    · rintro (⟨rfl, rfl⟩ | ⟨lower, upper, here⟩)
      · exact ⟨Nat.le_refl _, inside, code⟩
      · exact ⟨by omega, upper, here⟩

/-- The part of ascending code before one of its entries is the code of the range
before it. -/
theorem codeChars_split {start stop position : Nat} {c : Char}
    {before behind : Marked}
    (split : source.codeChars start stop = before ++ (position, c) :: behind) :
    before = source.codeChars start position ∧
      behind = source.codeChars (position + 1) stop := by
  have ascends := @codeChars_ascends source start stop
  rw [split] at ascends
  obtain ⟨first, second, across⟩ := List.pairwise_append.mp ascends
  obtain ⟨above, second⟩ := List.pairwise_cons.mp second
  have member (place : Nat) (d : Char) : (place, d) ∈ before ++
      (position, c) :: behind ↔
        start ≤ place ∧ place < stop ∧ source.codeAt? place = some d := by
    rw [← split, mem_codeChars]
  have here := (member position c).mp (by simp)
  constructor
  · refine Marked.Ascends.ext first (codeChars_ascends _ _) fun place d => ?_
    rw [mem_codeChars]
    constructor
    · intro early
      have bound := across _ early (position, c) (by simp)
      have inside := (member place d).mp (by simp [early])
      exact ⟨inside.1, bound, inside.2.2⟩
    · rintro ⟨lower, upper, code⟩
      have inside := (member place d).mpr ⟨lower, by omega, code⟩
      rw [List.mem_append, List.mem_cons, Prod.mk.injEq] at inside
      rcases inside with early | ⟨rfl, rfl⟩ | late
      · exact early
      · omega
      · have bound := above _ late
        simp only at bound
        omega
  · refine Marked.Ascends.ext second (codeChars_ascends _ _) fun place d => ?_
    rw [mem_codeChars]
    constructor
    · intro late
      have bound := above _ late
      have inside := (member place d).mp (by simp [late])
      exact ⟨bound, inside.2.1, inside.2.2⟩
    · rintro ⟨lower, upper, code⟩
      have inside := (member place d).mpr ⟨by omega, upper, code⟩
      rw [List.mem_append, List.mem_cons, Prod.mk.injEq] at inside
      rcases inside with early | ⟨rfl, rfl⟩ | late
      · have bound := across _ early (position, c) (by simp)
        simp only at bound
        omega
      · omega
      · exact late

/-- A pair of brackets: both are code and of one kind, and what is between them
is balanced. -/
structure Matched (source : Source) (span : Span) : Prop where
  order : span.start < span.stop
  kinds : ∃ kind left right, source.codeAt? span.start = some left ∧
    source.codeAt? span.stop = some right ∧
    Bracket.ofChar? left = some (.opening kind) ∧
    Bracket.ofChar? right = some (.closing kind)
  balanced : Balanced
    (Marked.chars (source.codeChars (span.start + 1) span.stop))

/-- Partners are pairs of brackets. -/
theorem matched_of_partner {start stop : Nat}
    (partner : source.partner? start = some stop) :
    Matched source ⟨start, stop⟩ := by
  unfold partner? at partner
  split at partner
  · rename_i kind opens
    obtain ⟨left, code, opens⟩ := Option.bind_eq_some_iff.mp opens
    have inside := lt_size_of_codeAt code
    rw [codeChars_cons inside code] at partner
    simp only [closingPosition?, opens] at partner
    obtain ⟨inner, position, right, rest, split, balanced, closes, last⟩ :=
      balanced_of_closing _ partner
    obtain ⟨-, rfl⟩ := last.resolve_right fun more => more.1 rfl
    obtain ⟨before, -⟩ := codeChars_split split
    have member : (position, right) ∈
        source.codeChars (start + 1) source.size := by
      rw [split]
      simp
    obtain ⟨lower, -, code'⟩ := mem_codeChars.mp member
    rw [before] at balanced
    exact ⟨lower, ⟨kind, left, right, code, code', opens, closes⟩, balanced⟩
  · cases partner

/-- Pairs of brackets are partners. -/
theorem partner_of_matched {span : Span} (matched : Matched source span) :
    source.partner? span.start = some span.stop := by
  obtain ⟨kind, left, right, here, there, opens, closes⟩ := matched.kinds
  have inside := lt_size_of_codeAt there
  have walk : source.codeChars span.start source.size =
      (span.start, left) ::
        (source.codeChars (span.start + 1) span.stop ++
          (span.stop, right) :: source.codeChars (span.stop + 1) source.size) := by
    rw [codeChars_cons (Nat.lt_trans matched.order inside) here,
      codeChars_append matched.order (Nat.le_of_lt inside),
      codeChars_cons inside there]
  rw [partner?, here, Option.bind_some, opens, walk]
  simp only [closingPosition?, opens]
  rw [matched.balanced.closingPosition rfl (List.cons_ne_nil kind [])]
  simp only [closingPosition?, closes, if_true]

end PackageLayers.Source

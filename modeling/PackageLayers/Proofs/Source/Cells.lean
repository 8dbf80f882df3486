/-
Purpose: The positions and literals of lexemes.
Main exports: cellsOf, carried, literalsFrom_append, Source.insert,
  ofText_insert
-/
import Mathlib.Tactic.Common
import PackageLayers.Manifest.Edit
import PackageLayers.Proofs.Source.Locality
import PackageLayers.Source.Basic

namespace PackageLayers.Source

/-!
A classified text is made of its lexemes one by one: their positions stand one
after the other, and the literals of the first ones are found without the last
ones if no literal is open between them.  So a fragment that may be inserted adds
its positions and its literals to those of the text, and moves what is behind.
-/

/-! ### Positions -/

theorem byteLength_append (left right : List Char) :
    byteLength (left ++ right) = byteLength left + byteLength right := by
  induction left with
  | nil => simp [byteLength]
  | cons c left inductionHypothesis =>
      simp only [List.cons_append, byteLength, inductionHypothesis, Nat.add_assoc]

theorem utf8Size_pos (c : Char) : 0 < c.utf8Size := Char.utf8Size_pos c

theorem byteLength_pos {chars : List Char} (filled : chars ≠ []) :
    0 < byteLength chars := by
  cases chars with
  | nil => exact absurd rfl filled
  | cons c chars =>
      have width := utf8Size_pos c
      rw [byteLength]
      omega

theorem byteLength_of_single {chars : List Char}
    (single : ∀ c ∈ chars, c.utf8Size = 1) : byteLength chars = chars.length := by
  induction chars with
  | nil => rfl
  | cons c chars inductionHypothesis =>
      rw [byteLength, single c List.mem_cons_self,
        inductionHypothesis fun d member => single d (List.mem_cons_of_mem c member),
        List.length_cons, Nat.add_comm]

theorem length_ofChar (c : Char) (cls : CharClass) :
    (Cell.ofChar c cls).length = c.utf8Size := by
  have positive := utf8Size_pos c
  simp only [Cell.ofChar, List.length_cons, List.length_replicate]
  omega

/-- The positions of one lexeme. -/
def Lexeme.cells (lexeme : Lexeme) : List Cell :=
  lexeme.chars.flatMap fun c => Cell.ofChar c lexeme.cls

/-- The number of positions of one lexeme. -/
def Lexeme.size (lexeme : Lexeme) : Nat := byteLength lexeme.chars

/-- The positions of some lexemes. -/
def cellsOf (found : List Lexeme) : List Cell := found.flatMap Lexeme.cells

/-- The number of positions of some lexemes. -/
def sizeOf (found : List Lexeme) : Nat := byteLength (found.flatMap Lexeme.chars)

theorem Lexeme.length_cells (lexeme : Lexeme) :
    lexeme.cells.length = lexeme.size := by
  unfold Lexeme.cells Lexeme.size
  induction lexeme.chars with
  | nil => rfl
  | cons c chars inductionHypothesis =>
      rw [List.flatMap_cons, List.length_append, length_ofChar,
        inductionHypothesis, byteLength]

@[simp] theorem sizeOf_nil : sizeOf [] = 0 := rfl

@[simp] theorem sizeOf_cons (lexeme : Lexeme) (rest : List Lexeme) :
    sizeOf (lexeme :: rest) = lexeme.size + sizeOf rest := by
  simp only [sizeOf, List.flatMap_cons, byteLength_append, Lexeme.size]

@[simp] theorem sizeOf_append (left right : List Lexeme) :
    sizeOf (left ++ right) = sizeOf left + sizeOf right := by
  simp only [sizeOf, List.flatMap_append, byteLength_append]

@[simp] theorem length_cellsOf (found : List Lexeme) :
    (cellsOf found).length = sizeOf found := by
  induction found with
  | nil => rfl
  | cons lexeme found inductionHypothesis =>
      rw [cellsOf, List.flatMap_cons, List.length_append, Lexeme.length_cells,
        sizeOf_cons, ← inductionHypothesis, cellsOf]

theorem cellsOf_append (left right : List Lexeme) :
    cellsOf (left ++ right) = cellsOf left ++ cellsOf right :=
  List.flatMap_append

/-- The positions of a text are those of its lexemes. -/
theorem ofText_cells (text : String) :
    (ofText text).cells = (cellsOf (lexemes text.toList)).toArray := by
  simp only [ofText, classified, cellsOf, List.flatMap_assoc, List.flatMap_map]
  rfl

theorem codeAt_eq_some {source : Source} {position : Nat} {c : Char}
    (code : source.codeAt? position = some c) :
    source.cells[position]? = some ⟨some c, .code⟩ := by
  unfold codeAt? at code
  cases here : source.cells[position]? with
  | none =>
      rw [here] at code
      cases code
  | some cell =>
      obtain ⟨char, cls⟩ := cell
      rw [here] at code
      simp only [Option.bind_some] at code
      split at code
      · rename_i same
        rw [same, code]
      · cases code

/-! ### Literals -/

/-- What a lexeme between two positions does to the literal that is open before
it: the literals that it ends, and what is open after it. -/
def turn (position after : Nat) (role : Role)
    (current : Option (Nat × Delimiter)) :
    List Literal × Option (Nat × Delimiter) :=
  match role, current with
  | .opening delimiter, _ => ([], some (position, delimiter))
  | .closing, some (start, delimiter) => ([⟨start, after, delimiter, true⟩], none)
  | .breaking, some (start, delimiter) =>
      ([⟨start, position, delimiter, false⟩], none)
  | _, current => ([], current)

/-- The literal that is open after some lexemes. -/
def carried (position : Nat) :
    Option (Nat × Delimiter) → List Lexeme → Option (Nat × Delimiter)
  | current, [] => current
  | current, lexeme :: rest =>
      let after := position + lexeme.size
      carried after (turn position after lexeme.role current).2 rest

theorem carried_append (position : Nat) (current : Option (Nat × Delimiter))
    (left right : List Lexeme) :
    carried position current (left ++ right) =
      carried (position + sizeOf left) (carried position current left) right := by
  induction left generalizing position current with
  | nil => rfl
  | cons lexeme left inductionHypothesis =>
      rw [List.cons_append, carried, carried, inductionHypothesis, sizeOf_cons,
        Nat.add_assoc]

theorem literalsFrom_cons (position : Nat) (current : Option (Nat × Delimiter))
    (lexeme : Lexeme) (rest : List Lexeme) :
    literalsFrom position current (lexeme :: rest) =
      (turn position (position + lexeme.size) lexeme.role current).1 ++
        literalsFrom (position + lexeme.size)
          (turn position (position + lexeme.size) lexeme.role current).2 rest := by
  cases current <;> cases role : lexeme.role <;>
    simp only [literalsFrom, role, turn, Lexeme.size, List.nil_append,
      List.singleton_append]

/-- Where no literal is open, literals before and behind are found apart. -/
theorem literalsFrom_append {position : Nat} {left : List Lexeme}
    (right : List Lexeme) {current : Option (Nat × Delimiter)}
    (calm : carried position current left = none) :
    literalsFrom position current (left ++ right) =
      literalsFrom position current left ++
        literalsFrom (position + sizeOf left) none right := by
  induction left generalizing position current with
  | nil =>
      simp only [carried] at calm
      subst calm
      simp [literalsFrom]
  | cons lexeme left inductionHypothesis =>
      simp only [carried] at calm
      rw [List.cons_append, literalsFrom_cons, literalsFrom_cons,
        inductionHypothesis calm, List.append_assoc, sizeOf_cons, Nat.add_assoc]

/-- A literal at a later place. -/
def Literal.moved (offset : Nat) (literal : Literal) : Literal :=
  { literal with start := literal.start + offset, stop := literal.stop + offset }

/-- An open literal at a later place. -/
def movedStart (offset : Nat) (current : Option (Nat × Delimiter)) :
    Option (Nat × Delimiter) :=
  current.map fun entry => (entry.1 + offset, entry.2)

theorem turn_moved (offset position after : Nat) (role : Role)
    (current : Option (Nat × Delimiter)) :
    turn (position + offset) (after + offset) role (movedStart offset current) =
      ((turn position after role current).1.map (Literal.moved offset),
        movedStart offset (turn position after role current).2) := by
  cases current <;> cases role <;> rfl

/-- Literals move with their lexemes. -/
theorem literalsFrom_moved (offset position : Nat) (found : List Lexeme)
    (current : Option (Nat × Delimiter)) :
    literalsFrom (position + offset) (movedStart offset current) found =
      (literalsFrom position current found).map (Literal.moved offset) := by
  induction found generalizing position current with
  | nil => cases current <;> rfl
  | cons lexeme found inductionHypothesis =>
      have shuffle : position + offset + lexeme.size =
          position + lexeme.size + offset := by omega
      rw [literalsFrom_cons, literalsFrom_cons, shuffle, turn_moved,
        inductionHypothesis, List.map_append]

/-! ### Steps and their roles -/

/-- Whether a text is inside of a literal. -/
def Mode.isLiteral : Mode → Bool
  | .literal _ _ => true
  | _ => false

/-- What a step does to literals is what its role says. -/
def RoleAgrees (mode : Mode) (now : Step) : Prop :=
  match now.role with
  | .plain => now.next.isLiteral = mode.isLiteral
  | .opening _ => now.next.isLiteral = true
  | .closing => mode.isLiteral = true ∧ now.next = .code
  | .breaking => mode.isLiteral = true ∧ now.next = .code

theorem Steps.role_agrees {mode : Mode} {first : Char} {rest : List Char}
    {now : Step} (steps : Steps mode first rest now) : RoleAgrees mode now := by
  cases steps with
  | closing => exact ⟨rfl, rfl⟩
  | breaking => exact ⟨rfl, rfl⟩
  | _ => rfl

/-- A step of code takes one character, ends in code, and starts there too
unless it is the line break after a comment or after an unclosed literal. -/
theorem Steps.of_code {mode : Mode} {first : Char} {rest : List Char}
    {now : Step} (steps : Steps mode first rest now) (cls : now.cls = .code) :
    now.more = 0 ∧ now.next = .code ∧
      (mode = .code ∨ mode = .lineComment ∧ first = '\n' ∨
        now.role = .breaking ∧ first = '\n') := by
  cases steps with
  | code => exact ⟨rfl, rfl, Or.inl rfl⟩
  | endLine => exact ⟨rfl, rfl, Or.inr (Or.inl ⟨rfl, rfl⟩)⟩
  | breaking => exact ⟨rfl, rfl, Or.inr (Or.inr ⟨rfl, rfl⟩)⟩
  | _ => cases cls

/-- Where a literal is open, the text is inside of a literal. -/
def Tracks (mode : Mode) (current : Option (Nat × Delimiter)) : Prop :=
  current.isSome = mode.isLiteral

theorem Tracks.step {mode : Mode} {current : Option (Nat × Delimiter)}
    (tracks : Tracks mode current) {first : Char} {rest : List Char} {now : Step}
    (steps : Steps mode first rest now) (position after : Nat) :
    Tracks now.next (turn position after now.role current).2 := by
  have agrees := steps.role_agrees
  unfold Tracks at tracks ⊢
  unfold RoleAgrees at agrees
  cases current <;> cases role : now.role <;> simp only [role] at agrees <;>
    simp_all [turn, Mode.isLiteral]

/-- After a piece that was read, a literal is open where the text is inside of
one. -/
theorem Reads.tracks {mode last : Mode} {chars after : List Char}
    {found : List Lexeme} (reads : Reads mode chars after found last)
    {current : Option (Nat × Delimiter)} (tracks : Tracks mode current)
    (position : Nat) : Tracks last (carried position current found) := by
  induction reads generalizing position current with
  | done => exact tracks
  | more here fits later inductionHypothesis =>
      subst here
      exact inductionHypothesis (tracks.step (steps_step _ _ _) _ _) _

/-- No literal is open where the text is not inside of one. -/
theorem Reads.carried_eq_none {last : Mode} {chars after : List Char}
    {found : List Lexeme} (reads : Reads .code chars after found last)
    (outside : last.isLiteral = false) (position : Nat) :
    carried position none found = none := by
  have tracks := @Reads.tracks _ _ _ _ _ reads none rfl position
  unfold Tracks at tracks
  rw [outside] at tracks
  exact Option.isSome_eq_false_iff.mp tracks |> Option.isNone_iff_eq_none.mp

/-! ### Where literals lie -/

/-- Whether an open literal starts before a position, and not before another. -/
def StartsWithin (least position : Nat) (current : Option (Nat × Delimiter)) :
    Prop :=
  ∀ start delimiter, current = some (start, delimiter) →
    least ≤ start ∧ start < position

theorem literal_mem_turn {position after : Nat} {role : Role}
    {current : Option (Nat × Delimiter)} {literal : Literal}
    (member : literal ∈ (turn position after role current).1) :
    current = some (literal.start, literal.delimiter) ∧
      (literal.stop = position ∨ literal.stop = after) := by
  cases current <;> cases role <;> simp_all [turn]

theorem StartsWithin.turn {least position after : Nat} {role : Role}
    {current : Option (Nat × Delimiter)}
    (within : StartsWithin least position current) (lower : least ≤ position)
    (grows : position < after) :
    StartsWithin least after (turn position after role current).2 := by
  intro start delimiter same
  cases current with
  | none => cases role <;> simp_all [Source.turn]
  | some current =>
      have bound := within current.1 current.2 rfl
      cases role <;> simp_all [Source.turn]
      omega

theorem Lexeme.size_pos {lexeme : Lexeme} (filled : lexeme.chars ≠ []) :
    0 < lexeme.size := byteLength_pos filled

theorem Reads.filled {mode last : Mode} {chars after : List Char}
    {found : List Lexeme} (reads : Reads mode chars after found last) :
    ∀ lexeme ∈ found, lexeme.chars ≠ [] := by
  induction reads with
  | done => simp
  | more here fits later inductionHypothesis =>
      simp only [List.mem_cons, forall_eq_or_imp]
      exact ⟨List.cons_ne_nil _ _, inductionHypothesis⟩

/-- A literal lies among the lexemes in which it is found and is not empty. -/
theorem literal_bounds {least position : Nat} {found : List Lexeme}
    {current : Option (Nat × Delimiter)}
    (within : StartsWithin least position current) (lower : least ≤ position)
    (filled : ∀ lexeme ∈ found, lexeme.chars ≠ []) :
    ∀ literal ∈ literalsFrom position current found, least ≤ literal.start ∧
      literal.start < literal.stop ∧ literal.stop ≤ position + sizeOf found := by
  induction found generalizing position current with
  | nil =>
      intro literal member
      cases current with
      | none => simp [literalsFrom] at member
      | some current =>
          have bound := within current.1 current.2 rfl
          simp only [literalsFrom, List.mem_singleton] at member
          subst member
          simp only [sizeOf_nil]
          omega
  | cons lexeme found inductionHypothesis =>
      intro literal member
      have grows := Lexeme.size_pos (filled lexeme (by simp))
      rw [literalsFrom_cons, List.mem_append] at member
      rw [sizeOf_cons, ← Nat.add_assoc]
      rcases member with ended | later
      · obtain ⟨same, stop⟩ := literal_mem_turn ended
        have bound := within _ _ same
        omega
      · exact inductionHypothesis
          (within.turn lower (Nat.lt_add_of_pos_right grows)) (by omega)
          (fun lexeme member => filled lexeme (by simp [member])) literal later

/-! ### Insertion of a fragment -/

/-- A classified text with a fragment at a position. -/
def insert (source fragment : Source) (position : Nat) : Source where
  cells :=
    (source.cells.toList.take position ++ fragment.cells.toList ++
      source.cells.toList.drop position).toArray
  literals :=
    source.literals.filter (fun literal => literal.start < position) ++
      fragment.literals.map (Literal.moved position) ++
      (source.literals.filter fun literal => position ≤ literal.start).map
        (Literal.moved fragment.size)

section

variable {source fragment : Source} {place : Nat}

theorem size_insert (inside : place ≤ source.size) :
    (source.insert fragment place).size = source.size + fragment.size := by
  simp only [size] at inside
  simp only [insert, size, List.size_toArray, List.length_append, List.length_take,
    List.length_drop, Array.length_toList]
  omega

/-- The positions in front of the fragment are those of the text. -/
theorem cells_insert_before (inside : place ≤ source.size) {position : Nat}
    (before : position < place) :
    (source.insert fragment place).cells[position]? = source.cells[position]? := by
  simp only [size] at inside
  rw [insert, List.getElem?_toArray, List.append_assoc,
    List.getElem?_append_left (by
      rw [List.length_take, Array.length_toList]
      omega),
    List.getElem?_take_of_lt before, Array.getElem?_toList]

/-- The positions of the fragment stand at its place. -/
theorem cells_insert_inner (inside : place ≤ source.size) {index : Nat}
    (inner : index < fragment.size) :
    (source.insert fragment place).cells[place + index]? = fragment.cells[index]? := by
  simp only [size] at inside inner
  have length : (source.cells.toList.take place).length = place := by
    rw [List.length_take, Array.length_toList]
    omega
  rw [insert, List.getElem?_toArray,
    List.getElem?_append_left (by
      simp only [List.length_append, length, Array.length_toList]
      omega),
    List.getElem?_append_right (by omega), length, Nat.add_sub_cancel_left,
    Array.getElem?_toList]

/-- The positions behind the place are moved by the fragment. -/
theorem cells_insert_behind (inside : place ≤ source.size) {position : Nat}
    (behind : place ≤ position) :
    (source.insert fragment place).cells[position + fragment.size]? =
      source.cells[position]? := by
  simp only [size] at inside ⊢
  have length : (source.cells.toList.take place).length = place := by
    rw [List.length_take, Array.length_toList]
    omega
  rw [insert, List.getElem?_toArray, List.getElem?_append_right (by
      simp only [List.length_append, length, Array.length_toList]
      omega),
    List.length_append, length, Array.length_toList, List.getElem?_drop,
    Array.getElem?_toList]
  congr 1
  omega

end

theorem ofText_size (text : String) :
    (ofText text).size = byteLength text.toList := by
  have whole := (reads_whole .code text.toList).chars_eq
  rw [size, ofText_cells, List.size_toArray, length_cellsOf, sizeOf, lexemes,
    whole]

/-- The literals of two parts of a text lie on their own side. -/
theorem filter_literals {early late : List Lexeme} {position : Nat}
    (here : sizeOf early = position)
    (filled : ∀ lexeme ∈ early ++ late, lexeme.chars ≠ []) :
    (literalsFrom 0 none early ++ literalsFrom position none late).filter
        (fun literal => literal.start < position) = literalsFrom 0 none early ∧
      (literalsFrom 0 none early ++ literalsFrom position none late).filter
        (fun literal => position ≤ literal.start) =
          literalsFrom position none late := by
  have before := @literal_bounds 0 0 early none (by intro _ _ same; cases same)
      (Nat.le_refl 0)
      fun lexeme member => filled lexeme (List.mem_append_left _ member)
  have behind := @literal_bounds position position late none
      (by intro _ _ same; cases same) (Nat.le_refl position)
      fun lexeme member => filled lexeme (List.mem_append_right _ member)
  rw [Nat.zero_add, here] at before
  constructor
  · rw [List.filter_append, List.filter_eq_self.mpr, List.filter_eq_nil_iff.mpr,
      List.append_nil]
    · intro literal member
      have bound := behind literal member
      simp only [decide_eq_true_eq]
      omega
    · intro literal member
      have bound := before literal member
      simp only [decide_eq_true_eq]
      omega
  · rw [List.filter_append, List.filter_eq_nil_iff.mpr, List.filter_eq_self.mpr,
      List.nil_append]
    · intro literal member
      have bound := behind literal member
      simp only [decide_eq_true_eq]
      omega
    · intro literal member
      have bound := before literal member
      simp only [decide_eq_true_eq]
      omega

/-- A fragment that may be inserted adds its positions and literals to those of
the text. -/
theorem ofText_insert {before fragment after : List Char}
    (fits : Insertable before fragment after) :
    ofText (String.ofList (before ++ fragment ++ after)) =
      (ofText (String.ofList (before ++ after))).insert
        (ofText (String.ofList fragment)) (byteLength before) := by
  obtain ⟨early, late, middle, reads, outside, -, whole, wider⟩ := fits.lexemes
  obtain ⟨found, inner, -⟩ := fits.whole
  have alone : lexemes fragment = found := by
    have read := inner.lexemes
    simpa [lexemes, lexemesAfter] using read
  have place : sizeOf early = byteLength before := by
    rw [sizeOf, reads.chars_eq]
  have length : sizeOf found = byteLength fragment := by
    rw [sizeOf, inner.chars_eq]
  have filled := (reads_whole .code (before ++ after)).filled
  rw [← lexemes, whole] at filled
  have calm : carried 0 none early = none := by
    refine reads.carried_eq_none ?_ 0
    rcases outside with rfl | rfl <;> rfl
  have calm' : carried (byteLength before) none found = none :=
    inner.carried_eq_none rfl _
  have literals : (ofText (String.ofList (before ++ after))).literals =
      literalsFrom 0 none early ++
        literalsFrom (byteLength before) none late := by
    simp only [ofText, literalsOf, String.toList_ofList, whole,
      literalsFrom_append late calm, place, Nat.zero_add]
  have sides := filter_literals place filled
  rw [← literals] at sides
  have cells : (ofText (String.ofList (before ++ after))).cells.toList =
      cellsOf early ++ cellsOf late := by
    rw [ofText_cells, String.toList_ofList, whole, cellsOf_append]
  have split : (cellsOf early).length = byteLength before := by
    rw [length_cellsOf, place]
  unfold insert
  rw [sides.1, sides.2, cells, ← split, List.take_left, List.drop_left, split,
    ofText_size, String.toList_ofList, ofText_cells (String.ofList fragment),
    String.toList_ofList, alone]
  have moved (offset : Nat) (lexemes : List Lexeme) (position : Nat) :
      literalsFrom (position + offset) none lexemes =
        (literalsFrom position none lexemes).map (Literal.moved offset) :=
    literalsFrom_moved offset position lexemes none
  have inserted : (ofText (String.ofList fragment)).literals.map
      (Literal.moved (byteLength before)) =
        literalsFrom (byteLength before) none found := by
    have shifted := moved (byteLength before) found 0
    rw [Nat.zero_add] at shifted
    rw [shifted]
    simp only [ofText, literalsOf, String.toList_ofList, alone]
  have joined : literalsOf (before ++ fragment ++ after) =
      literalsFrom 0 none early ++ literalsFrom (byteLength before) none found ++
        (literalsFrom (byteLength before) none late).map
          (Literal.moved (byteLength fragment)) := by
    rw [literalsOf, wider, alone, List.append_assoc, literalsFrom_append _ calm,
      Nat.zero_add, place, literalsFrom_append _ calm', length, moved,
      List.append_assoc]
  rw [inserted]
  have cells := ofText_cells (String.ofList (before ++ fragment ++ after))
  rw [String.toList_ofList, wider, alone, cellsOf_append, cellsOf_append] at cells
  have literals : (ofText (String.ofList (before ++ fragment ++ after))).literals =
      literalsOf (before ++ fragment ++ after) := by
    simp only [ofText, String.toList_ofList]
  rw [joined] at literals
  rw [← literals, ← cells]

end PackageLayers.Source

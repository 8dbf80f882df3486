/-
Purpose: Written JSON values are read back.
Main exports: Json.reread, Json.run_value, Json.read_documentText
-/
import PackageLayers.Files.Change
import PackageLayers.Proofs.Json.Tokens

namespace PackageLayers.Json

/-!
The builder takes the tokens of a value as one step: they give the value to what
is open around it.  By induction on the value, a written document is read as it
is, but for numbers that no word holds.
-/

mutual

/-- The value that a written value is read as. -/
def reread : Json → Json
  | .int value => numberOf value.toNat
  | .arr items => .arr (rereadItems items)
  | .obj members => .obj (rereadMembers members)
  | other => other

/-- What every item is read as. -/
def rereadItems : List Json → List Json
  | [] => []
  | item :: rest => item.reread :: rereadItems rest

/-- What every member's value is read as. -/
def rereadMembers : List (String × Json) → List (String × Json)
  | [] => []
  | (name, value) :: rest => (name, value.reread) :: rereadMembers rest

end

section

variable {stack : List OpenValue} {rest : List Token}

/-- One token taken. -/
theorem run_step {builder next : Builder} {token : Token}
    (step : builder.step? token = some next) :
    builder.run? (token :: rest) = next.run? rest := by
  rw [Builder.run?, step]
  rfl

/-- Where an array may be closed, a value may start as elsewhere. -/
theorem run_valueOrClose (value : Json) :
    Builder.run? ⟨.valueOrClose, stack⟩ (value.tokensOf ++ rest) =
      Builder.run? ⟨.value, stack⟩ (value.tokensOf ++ rest) := by
  cases value <;>
    simp [tokensOf, Builder.run?, Builder.step?, Builder.startValue?]

/-- The members of an object without the names of what is open. -/
def named (members : List (String × Json)) : List (Option String × Json) :=
  members.map fun member => (some member.1, member.2)

theorem close_named (members : List (String × Json)) (name : Option String) :
    OpenValue.close (.record (named members).reverse name) = .obj members := by
  have all : (named members).mapM (fun member =>
      member.1.map fun name => (name, member.2)) = some members := by
    induction members with
    | nil => rfl
    | cons member members inductionHypothesis =>
        rw [named] at inductionHypothesis
        rw [named, List.map_cons, List.mapM_cons, inductionHypothesis]
        rfl
  rw [OpenValue.close, List.reverse_reverse, all]

/-- A container that is not nested too deep is closed. -/
theorem close_shallow {inner : OpenValue} (room : stack.length < 127) :
    Builder.close inner stack = Builder.give inner.close stack := by
  rw [Builder.close, if_pos (by rw [Builder.depthLimit]; omega)]

end

mutual

/-- The tokens of a value give it to what is open. -/
theorem run_value (room : Nat) (stack : List OpenValue) (rest : List Token) :
    (value : Json) → value.isPlain room → stack.length + room ≤ 127 →
      Builder.run? ⟨.value, stack⟩ (value.tokensOf ++ rest) =
        (Builder.give value.reread stack).run? rest
  | .null, _, _ => rfl
  | .bool _, _, _ => rfl
  | .int _, _, _ => rfl
  | .str _, _, _ => rfl
  | .arr [], plain, fits => by
      simp only [isPlain, Bool.and_eq_true, decide_eq_true_eq] at plain
      have opens : Builder.step? ⟨.value, stack⟩ .openList =
          some ⟨.valueOrClose, .list [] :: stack⟩ := rfl
      have closes : Builder.step? ⟨.valueOrClose, .list [] :: stack⟩ .closeList =
          some (Builder.close (.list []) stack) := rfl
      rw [tokensOf, List.cons_append, run_step opens]
      exact (run_step closes).trans (by rw [close_shallow (by omega)]; rfl)
  | .arr (item :: items), plain, fits => by
      simp only [isPlain, Bool.and_eq_true, decide_eq_true_eq] at plain
      have opens : Builder.step? ⟨.value, stack⟩ .openList =
          some ⟨.valueOrClose, .list [] :: stack⟩ := rfl
      have inner := run_items (room - 1) stack rest [] (item :: items)
        (List.cons_ne_nil item items) plain.2 (by omega)
      have first : ∃ more, [Token.comma].intercalate
          (tokensOfItems (item :: items)) ++ .closeList :: rest =
            item.tokensOf ++ more := by
        cases items with
        | nil =>
            rw [tokensOfItems, tokensOfItems, List.intercalate_singleton]
            exact ⟨_, rfl⟩
        | cons second items =>
            rw [tokensOfItems, tokensOfItems, List.intercalate_cons_cons,
              List.append_assoc, List.append_assoc]
            exact ⟨_, rfl⟩
      obtain ⟨more, split⟩ := first
      rw [split, ← run_valueOrClose, ← split] at inner
      rw [tokensOf, List.cons_append, run_step opens, List.append_assoc,
        List.singleton_append, inner, close_shallow (by omega), List.append_nil,
        OpenValue.close, List.reverse_reverse, reread]
  | .obj [], plain, fits => by
      simp only [isPlain, Bool.and_eq_true, decide_eq_true_eq] at plain
      have opens : Builder.step? ⟨.value, stack⟩ .openRecord =
          some ⟨.nameOrClose, .record [] none :: stack⟩ := rfl
      have closes : Builder.step? ⟨.nameOrClose, .record [] none :: stack⟩
          .closeRecord = some (Builder.close (.record [] none) stack) := rfl
      rw [tokensOf, List.cons_append, run_step opens]
      exact (run_step closes).trans (by rw [close_shallow (by omega)]; rfl)
  | .obj ((name, value) :: members), plain, fits => by
      simp only [isPlain, Bool.and_eq_true, decide_eq_true_eq] at plain
      have opens : Builder.step? ⟨.value, stack⟩ .openRecord =
          some ⟨.nameOrClose, .record [] none :: stack⟩ := rfl
      have inner := run_members (room - 1) stack rest [] none
        ((name, value) :: members) (List.cons_ne_nil _ members) plain.2 (by omega)
      have first : ∃ more, [Token.comma].intercalate
          (tokensOfMembers ((name, value) :: members)) ++ .closeRecord :: rest =
            .text (some name) :: more := by
        cases members with
        | nil => exact ⟨_, rfl⟩
        | cons second members =>
            obtain ⟨other, held⟩ := second
            rw [tokensOfMembers, tokensOfMembers, List.intercalate_cons_cons]
            exact ⟨_, rfl⟩
      obtain ⟨more, split⟩ := first
      have either : Builder.step? ⟨.nameOrClose, .record [] none :: stack⟩
          (.text (some name)) =
            Builder.step? ⟨.name, .record [] none :: stack⟩
              (.text (some name)) := rfl
      rw [split, Builder.run?, ← either, ← Builder.run?, ← split] at inner
      rw [tokensOf, List.cons_append, run_step opens, List.append_assoc,
        List.singleton_append, inner, close_shallow (by omega), List.append_nil,
        close_named, reread]
  | .real _, plain, _ => by cases plain
  | .illegible, plain, _ => by cases plain

/-- The tokens of items fill an open array. -/
theorem run_items (room : Nat) (stack : List OpenValue) (rest : List Token)
    (done : List Json) : (items : List Json) → items ≠ [] →
      plainItems room items → stack.length + 1 + room ≤ 127 →
        Builder.run? ⟨.value, .list done :: stack⟩
            ([.comma].intercalate (tokensOfItems items) ++ .closeList :: rest) =
          (Builder.close (.list ((rereadItems items).reverse ++ done))
            stack).run? rest
  | [], filled, _, _ => absurd rfl filled
  | [item], _, plain, fits => by
      simp only [plainItems, Bool.and_eq_true] at plain
      have value := run_value room (.list done :: stack) (.closeList :: rest) item
        plain.1 (by rw [List.length_cons]; omega)
      have closes : Builder.step? (Builder.give item.reread (.list done :: stack))
          .closeList = some (Builder.close (.list (item.reread :: done)) stack) :=
        rfl
      rw [tokensOfItems, tokensOfItems, List.intercalate_singleton, value,
        run_step closes]
      rfl
  | item :: second :: items, _, plain, fits => by
      rw [plainItems, Bool.and_eq_true] at plain
      have value := fun later => run_value room (.list done :: stack)
        (.comma :: later) item plain.1 (by rw [List.length_cons]; omega)
      have comma : Builder.step? (Builder.give item.reread (.list done :: stack))
          .comma = some ⟨.value, .list (item.reread :: done) :: stack⟩ := rfl
      have later := run_items room stack rest (item.reread :: done)
        (second :: items) (List.cons_ne_nil second items) plain.2 fits
      rw [tokensOfItems] at later
      rw [tokensOfItems, tokensOfItems, List.intercalate_cons_cons,
        List.append_assoc, List.append_assoc, List.singleton_append, value,
        run_step comma, later]
      simp [rereadItems]

/-- The tokens of members fill an open object. -/
theorem run_members (room : Nat) (stack : List OpenValue) (rest : List Token)
    (done : List (Option String × Json)) (before : Option String) :
    (members : List (String × Json)) → members ≠ [] →
      plainMembers room members → stack.length + 1 + room ≤ 127 →
        Builder.run? ⟨.name, .record done before :: stack⟩
            ([.comma].intercalate (tokensOfMembers members) ++
              .closeRecord :: rest) =
          (Builder.close (.record
            ((named (rereadMembers members)).reverse ++ done) none)
            stack).run? rest
  | [], filled, _, _ => absurd rfl filled
  | [(name, value)], _, plain, fits => by
      simp only [plainMembers, Bool.and_eq_true] at plain
      have held := run_value room (.record done (some name) :: stack)
        (.closeRecord :: rest) value plain.1 (by rw [List.length_cons]; omega)
      have text : Builder.step? ⟨.name, .record done before :: stack⟩
          (.text (some name)) =
            some ⟨.colon (some name), .record done before :: stack⟩ := rfl
      have colon : Builder.step?
          ⟨.colon (some name), .record done before :: stack⟩ .colon =
            some ⟨.value, .record done (some name) :: stack⟩ := rfl
      have closes : Builder.step?
          (Builder.give value.reread (.record done (some name) :: stack))
          .closeRecord = some (Builder.close
            (.record ((some name, value.reread) :: done) none) stack) := rfl
      rw [tokensOfMembers, tokensOfMembers, List.intercalate_singleton,
        List.cons_append, run_step text, List.cons_append, run_step colon, held,
        run_step closes]
      rfl
  | (name, value) :: second :: members, _, plain, fits => by
      rw [plainMembers, Bool.and_eq_true] at plain
      have held := fun later => run_value room (.record done (some name) :: stack)
        (.comma :: later) value plain.1 (by rw [List.length_cons]; omega)
      have text : Builder.step? ⟨.name, .record done before :: stack⟩
          (.text (some name)) =
            some ⟨.colon (some name), .record done before :: stack⟩ := rfl
      have colon : Builder.step?
          ⟨.colon (some name), .record done before :: stack⟩ .colon =
            some ⟨.value, .record done (some name) :: stack⟩ := rfl
      have comma : Builder.step?
          (Builder.give value.reread (.record done (some name) :: stack)) .comma =
            some ⟨.name,
              .record ((some name, value.reread) :: done) none :: stack⟩ := rfl
      have later := run_members room stack rest
        ((some name, value.reread) :: done) none (second :: members)
        (List.cons_ne_nil second members) plain.2 fits
      obtain ⟨other, next⟩ := second
      rw [tokensOfMembers] at later
      rw [tokensOfMembers, tokensOfMembers, List.intercalate_cons_cons,
        List.cons_append, List.cons_append, List.cons_append, run_step text,
        List.cons_append, List.cons_append, List.cons_append, run_step colon,
        List.append_assoc, List.append_assoc, List.singleton_append, held,
        run_step comma, later]
      simp [rereadMembers, named]

end

/-- A document is read as it was written. -/
theorem read_documentText {value : Json} (plain : value.isPlain 127) :
    read? (documentText value) = some value.reread := by
  have line : "\n".toList = ['\n'] := by decide
  have gives := gives_renderAt 0 127 value plain ['\n'] (by
    intro c member
    cases member
    decide)
  have blank : tokens? .between ['\n'] = some [] := by
    rw [@tokens_go .between .between _
      (by simp [scanStep?, scanBetween?, isSeparator])]
    rfl
  have run := run_value 127 [] [] value plain (by decide)
  rw [blank, Option.map_some] at gives
  rw [read?, documentText, renderIndented, String.toList_append, line, gives,
    Option.bind_eq_bind, Option.bind_some, run]
  rfl

end PackageLayers.Json

/-
Purpose: Which bracket is the partner of another, as a matter of nested words.
Main exports: Nested, nested_iff, brackets, Closes, Crosses, RunsOut,
  partner_exact
-/
import Mathlib.Data.List.Induction
import PackageLayers.Proofs.Source.Nesting

namespace PackageLayers.Source

/-!
What the walk for a partner keeps are the kinds of the brackets that are open
behind a word of brackets.  A word is nested if it leaves nothing open, and what it
leaves open is what its completion has to close.  So a bracket has a partner where
the word of brackets from it on is nested for the first time, and it has none if a
bracket of another kind closes before, or the word ends before.
-/

/-! ### Nested words -/

/-- Words of brackets in which each bracket is closed by one of its kind. -/
inductive Nested : List Bracket → Prop
  | nil : Nested []
  | pair (kind : BracketKind) {inner rest : List Bracket} (within : Nested inner)
      (later : Nested rest) :
      Nested (.opening kind :: (inner ++ .closing kind :: rest))

/-- The kinds of the brackets that are open behind a word, innermost first; nothing
if a bracket closes none or one of another kind. -/
def pendingAfter : List BracketKind → List Bracket → Option (List BracketKind)
  | pending, [] => some pending
  | pending, .opening kind :: rest => pendingAfter (kind :: pending) rest
  | [], .closing _ :: _ => none
  | innermost :: outer, .closing kind :: rest =>
      if kind = innermost then pendingAfter outer rest else none

section

variable {word first second : List Bracket} {kind other : BracketKind}
  {pending outer left : List BracketKind}

theorem Nested.append (here : Nested first) (there : Nested second) :
    Nested (first ++ second) := by
  induction here with
  | nil => exact there
  | pair kind within later insideHypothesis inductionHypothesis =>
      rw [List.cons_append, List.append_assoc, List.cons_append]
      exact .pair kind within inductionHypothesis

theorem Nested.between (kind : BracketKind) (within : Nested word) :
    Nested (.opening kind :: (word ++ [.closing kind])) :=
  .pair kind within .nil

theorem pendingAfter_append (pending : List BracketKind) (first second : List Bracket) :
    pendingAfter pending (first ++ second) =
      (pendingAfter pending first).bind (pendingAfter · second) := by
  fun_induction pendingAfter pending first with
  | case1 pending => rfl
  | case2 pending kind rest inductionHypothesis => exact inductionHypothesis
  | case3 => rfl
  | case4 outer kind rest inductionHypothesis =>
      simpa only [List.cons_append, pendingAfter, if_true] using inductionHypothesis
  | case5 innermost outer kind rest apart =>
      simp only [List.cons_append, pendingAfter, if_neg apart, Option.bind_none]

/-- What is open before a word does not matter to it, as long as it closes only
brackets of its own. -/
theorem pendingAfter_frame (found : pendingAfter pending word = some left)
    (outer : List BracketKind) :
    pendingAfter (pending ++ outer) word = some (left ++ outer) := by
  fun_induction pendingAfter pending word with
  | case1 pending =>
      cases found
      rfl
  | case2 pending kind rest inductionHypothesis => exact inductionHypothesis found
  | case3 => cases found
  | case4 before kind rest inductionHypothesis =>
      simpa only [List.cons_append, pendingAfter, if_true] using
        inductionHypothesis found
  | case5 => cases found

theorem Nested.pendingAfter (nested : Nested word) (pending : List BracketKind) :
    pendingAfter pending word = some pending := by
  induction nested generalizing pending with
  | nil => rfl
  | pair kind within later insideHypothesis inductionHypothesis =>
      simp only [Source.pendingAfter, pendingAfter_append, insideHypothesis,
        Option.bind_some, if_true]
      exact inductionHypothesis pending

theorem pendingAfter_opening_last :
    pendingAfter pending (word ++ [.opening kind]) =
      (pendingAfter pending word).map (kind :: ·) := by
  rw [pendingAfter_append]
  cases pendingAfter pending word <;> rfl

theorem pendingAfter_closing_last :
    pendingAfter pending (word ++ [.closing kind]) = some left ↔
      pendingAfter pending word = some (kind :: left) := by
  rw [pendingAfter_append, Option.bind_eq_some_iff]
  constructor
  · rintro ⟨middle, here, step⟩
    cases middle with
    | nil => cases step
    | cons innermost outer =>
        simp only [pendingAfter] at step
        split at step
        · rename_i same
          cases step
          rw [here, same]
        · cases step
  · intro here
    exact ⟨_, here, by simp only [pendingAfter, if_true]⟩

/-- A bracket that is open behind a word, innermost, has only a nested word behind
it. -/
theorem innermost_of_pending (word : List Bracket)
    (found : pendingAfter [] word = some (kind :: outer)) :
    ∃ before inner, word = before ++ .opening kind :: inner ∧ Nested inner ∧
      pendingAfter [] before = some outer := by
  induction size : word.length using Nat.strong_induction_on
    generalizing word kind outer with
  | _ count inductionHypothesis =>
  subst size
  cases word using List.reverseRecOn with
  | nil => cases found
  | append_singleton front last =>
      have shorter : front.length < (front ++ [last]).length := by simp
      cases last with
      | opening opened =>
          rw [pendingAfter_opening_last, Option.map_eq_some_iff] at found
          obtain ⟨before, here, same⟩ := found
          cases same
          exact ⟨front, [], rfl, .nil, here⟩
      | closing closed =>
          -- the bracket that is closed last and, before it, the one in question
          obtain ⟨early, inner, rfl, nested, pending⟩ := inductionHypothesis _ shorter
            front (pendingAfter_closing_last.mp found) rfl
          obtain ⟨before, level, rfl, flat, outside⟩ :=
            inductionHypothesis early.length (by simp) early pending rfl
          exact ⟨before, level ++ .opening closed :: (inner ++ [.closing closed]),
            by simp, flat.append (nested.between closed), outside⟩

theorem nested_of_pending (word : List Bracket)
    (closed : pendingAfter [] word = some []) : Nested word := by
  induction size : word.length using Nat.strong_induction_on generalizing word with
  | _ count inductionHypothesis =>
  subst size
  cases word using List.reverseRecOn with
  | nil => exact .nil
  | append_singleton front last =>
      cases last with
      | opening opened =>
          rw [pendingAfter_opening_last, Option.map_eq_some_iff] at closed
          obtain ⟨before, -, same⟩ := closed
          cases same
      | closing kind =>
          obtain ⟨early, inner, rfl, nested, before⟩ :=
            innermost_of_pending front (pendingAfter_closing_last.mp closed)
          rw [List.append_assoc, List.cons_append]
          exact (inductionHypothesis early.length (by simp) early before
            rfl).append (nested.between kind)

/-- Nested are the words that leave nothing open. -/
theorem nested_iff : Nested word ↔ pendingAfter [] word = some [] :=
  ⟨fun nested => nested.pendingAfter [], nested_of_pending word⟩

instance : DecidablePred Nested := fun _ => decidable_of_iff _ nested_iff.symm

/-- A word is completed by closing what it leaves open. -/
theorem nested_completion (found : pendingAfter [] word = some left) :
    Nested (word ++ left.map .closing) := by
  have closes (pending : List BracketKind) :
      pendingAfter pending (pending.map .closing) = some [] := by
    induction pending with
    | nil => rfl
    | cons kind pending inductionHypothesis =>
        simpa only [List.map_cons, pendingAfter, if_true] using inductionHypothesis
  rw [nested_iff, pendingAfter_append, found]
  exact closes left

/-- A bracket of another kind than the innermost one that is open closes nothing. -/
theorem pendingAfter_crossing (apart : kind ≠ other) (nested : Nested word)
    (pending : List BracketKind) (first : List Bracket) :
    pendingAfter pending
      (first ++ .opening other :: (word ++ [.closing kind])) = none := by
  rw [pendingAfter_append, Option.bind_eq_none_iff]
  intro middle here
  rw [pendingAfter, pendingAfter_append, nested.pendingAfter, Option.bind_some,
    pendingAfter, if_neg apart]

/-- In front of the bracket that closes the first one nothing is nested. -/
theorem Nested.proper (nested : Nested word) {part : List Bracket}
    (starts : part <+: .opening kind :: (word ++ [.closing kind]))
    (filled : part ≠ []) (own : Nested part) :
    part = .opening kind :: (word ++ [.closing kind]) := by
  rcases List.prefix_cons_iff.mp starts with rfl | ⟨rest, rfl, behind⟩
  · exact absurd rfl filled
  rcases List.prefix_concat_iff.mp behind with rfl | ⟨later, rfl⟩
  · rfl
  · -- the first bracket is open behind a part of what it encloses
    have whole := nested.pendingAfter []
    rw [pendingAfter_append, Option.bind_eq_some_iff] at whole
    obtain ⟨left, here, -⟩ := whole
    have opened := pendingAfter_frame here [kind]
    have closed := own.pendingAfter []
    rw [Source.pendingAfter, ← List.nil_append [kind], opened] at closed
    simp at closed

end

/-! ### The brackets of a range -/

/-- The brackets among some characters. -/
def bracketsOf (chars : List Char) : List Bracket :=
  chars.filterMap Bracket.ofChar?

/-- The bracket at a position of code. -/
def bracketAt? (source : Source) (position : Nat) : Option Bracket :=
  (source.codeAt? position).bind Bracket.ofChar?

/-- The brackets in the code of a range. -/
def brackets (source : Source) (start stop : Nat) : List Bracket :=
  bracketsOf (Marked.chars (source.codeChars start stop))

@[simp] theorem bracketsOf_plain {c : Char} {chars : List Char}
    (plain : Bracket.ofChar? c = none) : bracketsOf (c :: chars) = bracketsOf chars :=
  List.filterMap_cons_none plain

@[simp] theorem bracketsOf_bracket {c : Char} {chars : List Char} {side : Bracket}
    (bracket : Bracket.ofChar? c = some side) :
    bracketsOf (c :: chars) = side :: bracketsOf chars :=
  List.filterMap_cons_some bracket

theorem bracketsOf_append (first second : List Char) :
    bracketsOf (first ++ second) = bracketsOf first ++ bracketsOf second :=
  List.filterMap_append

/-- Balanced code has a nested word of brackets. -/
theorem nested_of_balanced {chars : List Char} (balanced : Balanced chars) :
    Nested (bracketsOf chars) := by
  induction balanced with
  | nil => exact .nil
  | other plain later inductionHypothesis => rwa [bracketsOf_plain plain]
  | @nested kind left right inner rest opens closes within later insideHypothesis
      inductionHypothesis =>
      rw [bracketsOf_bracket opens, bracketsOf_append, bracketsOf_bracket closes]
      exact .pair kind insideHypothesis inductionHypothesis

section

variable {source : Source} {start middle stop : Nat} {side : Bracket}

theorem brackets_append (lower : start ≤ middle) (upper : middle ≤ stop) :
    source.brackets start stop =
      source.brackets start middle ++ source.brackets middle stop := by
  rw [brackets, codeChars_append lower upper, Marked.chars_append, bracketsOf_append]
  rfl

theorem brackets_cons (here : source.bracketAt? start = some side)
    (inside : start < stop) :
    source.brackets start stop = side :: source.brackets (start + 1) stop := by
  obtain ⟨c, code, bracket⟩ := Option.bind_eq_some_iff.mp here
  rw [brackets, codeChars_cons inside code, Marked.chars, List.map_cons,
    bracketsOf_bracket bracket]
  rfl

theorem brackets_concat (order : start ≤ stop)
    (here : source.bracketAt? stop = some side) :
    source.brackets start (stop + 1) = source.brackets start stop ++ [side] := by
  have none : source.brackets (stop + 1) (stop + 1) = [] := by
    rw [brackets, codeChars_of_le (Nat.le_refl _)]
    rfl
  rw [brackets_append order (Nat.le_succ stop),
    brackets_cons here (Nat.lt_succ_self stop), none]

theorem lt_size_of_bracketAt (here : source.bracketAt? start = some side) :
    start < source.size := by
  obtain ⟨c, code, -⟩ := Option.bind_eq_some_iff.mp here
  exact lt_size_of_codeAt code

/-! ### Partners -/

/-- A bracket closes the one at `start`: the brackets from the one to the other are
a nested word, of which no beginning is. -/
structure Closes (source : Source) (start stop : Nat) : Prop where
  order : start ≤ stop
  opens : ∃ kind, source.bracketAt? start = some (.opening kind)
  ends : (source.bracketAt? stop).isSome
  nested : Nested (source.brackets start (stop + 1))
  first : ∀ word, word <+: source.brackets start (stop + 1) → word ≠ [] →
    Nested word → word = source.brackets start (stop + 1)

/-- No beginning of the brackets of a range is a nested word. -/
def StaysOpen (source : Source) (start stop : Nat) : Prop :=
  ∀ word, word <+: source.brackets start stop → word ≠ [] → ¬Nested word

/-- While the bracket at `start` is open, a bracket closes where the innermost one
that is open is of another kind. -/
structure Crosses (source : Source) (start stop : Nat) : Prop where
  order : start < stop
  stays : StaysOpen source start stop
  wrong : ∃ kind other before inner,
    source.bracketAt? stop = some (.closing kind) ∧
    source.brackets start stop = before ++ .opening other :: inner ∧
    Nested inner ∧ kind ≠ other

/-- The bracket at `start` is open at the end of the text, where more brackets would
have to close. -/
structure RunsOut (source : Source) (start : Nat) : Prop where
  stays : StaysOpen source start source.size
  missing : ∃ kinds : List BracketKind,
    Nested (source.brackets start source.size ++ kinds.map .closing)

theorem closes_of_partner (partner : source.partner? start = some stop) :
    Closes source start stop := by
  obtain ⟨order, ⟨kind, left, right, here, there, opens, closes⟩, balanced⟩ :=
    matched_of_partner partner
  have first : source.bracketAt? start = some (.opening kind) := by
    rw [bracketAt?, here, Option.bind_some, opens]
  have last : source.bracketAt? stop = some (.closing kind) := by
    rw [bracketAt?, there, Option.bind_some, closes]
  have word : source.brackets start (stop + 1) =
      .opening kind :: (source.brackets (start + 1) stop ++ [.closing kind]) := by
    rw [brackets_concat (Nat.le_of_lt order) last, brackets_cons first order,
      List.cons_append]
  have within : Nested (source.brackets (start + 1) stop) :=
    nested_of_balanced balanced
  exact
    { order := Nat.le_of_lt order
      opens := ⟨kind, first⟩
      ends := by rw [last]; rfl
      nested := by rw [word]; exact within.between kind
      first := by rw [word]; exact fun _ starts => within.proper starts }

theorem Closes.word_prefix (closes : Closes source start stop) (inside : stop < middle) :
    source.brackets start (stop + 1) <+: source.brackets start middle := by
  rw [brackets_append (Nat.le_succ_of_le closes.order) inside]
  exact List.prefix_append _ _

theorem Closes.filled (closes : Closes source start stop) :
    source.brackets start (stop + 1) ≠ [] := by
  obtain ⟨kind, opens⟩ := closes.opens
  rw [brackets_cons opens (Nat.lt_succ_of_le closes.order)]
  exact List.cons_ne_nil _ _

/-- A bracket closes only once. -/
theorem Closes.unique {later : Nat} (closes : Closes source start stop)
    (also : Closes source start later) : stop = later := by
  -- the word up to the later of two would go on behind the one up to the earlier
  have apart {early late : Nat} (here : Closes source start early)
      (there : Closes source start late) (before : early < late) : False := by
    have same := there.first _ (here.word_prefix (Nat.lt_succ_of_lt before))
      here.filled here.nested
    obtain ⟨side, last⟩ := Option.isSome_iff_exists.mp there.ends
    have lengths := congrArg List.length same
    rw [brackets_concat there.order last,
      brackets_append (Nat.le_succ_of_le here.order) before] at lengths
    simp at lengths
  rcases Nat.lt_trichotomy stop later with less | same | greater
  · exact (apart closes also less).elim
  · exact same
  · exact (apart also closes greater).elim

theorem Crosses.not_closes (crosses : Crosses source start middle) :
    ¬Closes source start stop := by
  intro closes
  rcases Nat.lt_or_ge stop middle with before | behind
  · exact crosses.stays _ (closes.word_prefix before) closes.filled closes.nested
  · obtain ⟨kind, other, front, inner, wrong, word, nested, apart⟩ := crosses.wrong
    have whole := closes.nested.pendingAfter []
    have crossing := pendingAfter_crossing apart nested [] front
    rw [← List.cons_append, ← List.append_assoc, ← word,
      ← brackets_concat (Nat.le_of_lt crosses.order) wrong] at crossing
    rw [brackets_append (Nat.le_succ_of_le (Nat.le_of_lt crosses.order))
      (Nat.succ_le_succ behind), pendingAfter_append, crossing] at whole
    cases whole

theorem RunsOut.not_closes (runsOut : RunsOut source start) :
    ¬Closes source start stop := by
  intro closes
  obtain ⟨side, last⟩ := Option.isSome_iff_exists.mp closes.ends
  exact runsOut.stays _ (closes.word_prefix (lt_size_of_bracketAt last)) closes.filled
    closes.nested

/-! ### Brackets without partner -/

/-- Brackets that are open before a word are not all closed on the way. -/
def Holds (pending : List BracketKind) (word : List Bracket) : Prop :=
  ∀ part, part <+: word → pendingAfter pending part ≠ some []

theorem Holds.cons {pending next : List BracketKind} {word : List Bracket}
    (opened : pending ≠ [])
    (step : ∀ rest, pendingAfter pending (side :: rest) = pendingAfter next rest)
    (later : Holds next word) : Holds pending (side :: word) := by
  intro part starts
  rcases List.prefix_cons_iff.mp starts with rfl | ⟨rest, rfl, behind⟩
  · exact fun none => opened (Option.some.inj none)
  · rw [step]
    exact later rest behind

theorem Holds.nil {pending : List BracketKind} (opened : pending ≠ []) :
    Holds pending [] := by
  intro part starts
  rw [List.prefix_nil.mp starts]
  exact fun none => opened (Option.some.inj none)

/-- How a walk ends that finds no partner: at a bracket of another kind, or at the
end of the code, while some of the brackets that were open before it still are. -/
inductive Stuck (pending : List BracketKind) (code : Marked) : Prop
  | crossing {before rest : Marked} {position : Nat} {c : Char}
      {kind other : BracketKind} {outer : List BracketKind}
      (split : code = before ++ (position, c) :: rest)
      (closes : Bracket.ofChar? c = some (.closing kind)) (apart : kind ≠ other)
      (found : pendingAfter pending (bracketsOf (Marked.chars before)) =
        some (other :: outer))
      (holds : Holds pending (bracketsOf (Marked.chars before)))
  | runsOut {left : List BracketKind}
      (found : pendingAfter pending (bracketsOf (Marked.chars code)) = some left)
      (holds : Holds pending (bracketsOf (Marked.chars code)))

/-- A walk that is stuck behind a character is stuck from the character on. -/
theorem Stuck.cons {pending next : List BracketKind} {code : Marked} {position : Nat}
    {c : Char}
    (step : ∀ chars, pendingAfter pending (bracketsOf (c :: chars)) =
      pendingAfter next (bracketsOf chars))
    (keeps : ∀ chars, Holds next (bracketsOf chars) →
      Holds pending (bracketsOf (c :: chars)))
    (stuck : Stuck next code) : Stuck pending ((position, c) :: code) := by
  cases stuck with
  | @crossing before rest place d kind other outer split closes apart found holds =>
      have split' : (position, c) :: code =
          (position, c) :: before ++ (place, d) :: rest := by
        rw [split]
        rfl
      exact .crossing split' closes apart ((step _).trans found) (keeps _ holds)
  | runsOut found holds => exact .runsOut ((step _).trans found) (keeps _ holds)

theorem stuck_of_closing {pending : List BracketKind} (opened : pending ≠ [])
    (code : Marked) (none : closingPosition? pending code = none) :
    Stuck pending code := by
  induction code generalizing pending with
  | nil => exact .runsOut rfl (.nil opened)
  | cons entry code inductionHypothesis =>
      obtain ⟨position, c⟩ := entry
      cases bracket : Bracket.ofChar? c with
      | none =>
          simp only [closingPosition?, bracket] at none
          refine .cons (fun chars => ?_) (fun chars holds => ?_)
            (inductionHypothesis opened none)
          · rw [bracketsOf_plain bracket]
          · rwa [bracketsOf_plain bracket]
      | some side =>
          cases side with
          | opening kind =>
              simp only [closingPosition?, bracket] at none
              refine .cons (fun chars => ?_) (fun chars holds => ?_)
                (inductionHypothesis (List.cons_ne_nil kind pending) none)
              · rw [bracketsOf_bracket bracket, pendingAfter]
              · rw [bracketsOf_bracket bracket]
                exact holds.cons opened fun rest => by rw [pendingAfter]
          | closing kind =>
              cases pending with
              | nil => exact absurd rfl opened
              | cons innermost outer =>
                  simp only [closingPosition?, bracket] at none
                  split at none
                  · rename_i same
                    subst same
                    cases outer with
                    | nil => cases none
                    | cons next outer =>
                        have step (rest : List Bracket) :
                            pendingAfter (kind :: next :: outer)
                                (.closing kind :: rest) =
                              pendingAfter (next :: outer) rest := by
                          rw [pendingAfter, if_pos rfl]
                        refine .cons (fun chars => ?_) (fun chars holds => ?_)
                          (inductionHypothesis (List.cons_ne_nil _ _) none)
                        · rw [bracketsOf_bracket bracket, step]
                        · rw [bracketsOf_bracket bracket]
                          exact holds.cons opened step
                  · rename_i apart
                    exact .crossing (List.nil_append _).symm bracket apart rfl
                      (.nil opened)

/-- While an opening bracket holds, no beginning of the word from it on is nested. -/
theorem Holds.stays {kind : BracketKind}
    (opens : source.bracketAt? start = some (.opening kind)) (order : start < stop)
    (holds : Holds [kind] (source.brackets (start + 1) stop)) :
    StaysOpen source start stop := by
  intro word starts filled nested
  rw [brackets_cons opens order] at starts
  rcases List.prefix_cons_iff.mp starts with rfl | ⟨rest, rfl, behind⟩
  · exact filled rfl
  · exact holds rest behind (nested.pendingAfter [])

/-- An opening bracket without partner meets one of another kind, or the end. -/
theorem crosses_or_runsOut {kind : BracketKind}
    (opens : source.bracketAt? start = some (.opening kind))
    (none : source.partner? start = none) :
    (∃ stop, Crosses source start stop) ∨ RunsOut source start := by
  have inside := lt_size_of_bracketAt opens
  have behind {stop : Nat} (order : start < stop) :
      pendingAfter [] (source.brackets start stop) =
        pendingAfter [kind] (source.brackets (start + 1) stop) := by
    rw [brackets_cons opens order, pendingAfter]
  obtain ⟨c, code, bracket⟩ := Option.bind_eq_some_iff.mp opens
  rw [partner?, code, Option.bind_some, bracket, codeChars_cons inside code] at none
  simp only [closingPosition?, bracket] at none
  cases stuck_of_closing (List.cons_ne_nil kind []) _ none with
  | @crossing before rest stop d closing other outer split closes apart found holds =>
      have here := (codeChars_split split).1
      have member : (stop, d) ∈ source.codeChars (start + 1) source.size := by
        rw [split]
        simp
      obtain ⟨order, -, there⟩ := mem_codeChars.mp member
      rw [here] at found holds
      obtain ⟨front, inner, word, nested, -⟩ :=
        innermost_of_pending _ ((behind order).trans found)
      refine Or.inl ⟨stop, order, Holds.stays opens order holds, closing, other, front,
        inner, ?_, word, nested, apart⟩
      rw [bracketAt?, there, Option.bind_some, closes]
  | @runsOut left found holds =>
      exact Or.inr ⟨Holds.stays opens inside holds, left,
        nested_completion ((behind inside).trans found)⟩

theorem partner_of_closes (closes : Closes source start stop) :
    source.partner? start = some stop := by
  cases partner : source.partner? start with
  | some found => rw [(closes_of_partner partner).unique closes]
  | none =>
      obtain ⟨kind, opens⟩ := closes.opens
      rcases crosses_or_runsOut opens partner with ⟨place, crosses⟩ | runsOut
      · exact absurd closes crosses.not_closes
      · exact absurd closes runsOut.not_closes

end

/-- The partner of a position is the place where the word of brackets from it on is
nested for the first time.  There is none exactly if no bracket opens at the
position, or one of another kind closes before, or the text ends before. -/
theorem partner_exact (source : Source) (start : Nat) :
    (∀ stop, source.partner? start = some stop ↔ Closes source start stop) ∧
      (source.partner? start = none ↔
        (¬∃ kind, source.bracketAt? start = some (.opening kind)) ∨
          (∃ stop, Crosses source start stop) ∨ RunsOut source start) := by
  refine ⟨fun stop => ⟨closes_of_partner, partner_of_closes⟩, fun none => ?_, ?_⟩
  · by_cases opens : ∃ kind, source.bracketAt? start = some (.opening kind)
    · obtain ⟨kind, opens⟩ := opens
      exact Or.inr (crosses_or_runsOut opens none)
    · exact Or.inl opens
  · intro reasons
    rw [Option.eq_none_iff_forall_ne_some]
    intro stop partner
    have closes := closes_of_partner partner
    rcases reasons with closed | ⟨place, crosses⟩ | runsOut
    · exact closed closes.opens
    · exact crosses.not_closes closes
    · exact runsOut.not_closes closes

end PackageLayers.Source

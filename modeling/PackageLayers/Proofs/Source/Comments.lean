/-
Purpose: Texts with one more comment.
Main exports: Comment, Comment.reads, Margin, Margin.insertion, Margin.result_eq,
  Margin.seam
-/
import PackageLayers.Proofs.Source.Cuts
import PackageLayers.Proofs.Source.Seam

namespace PackageLayers.Source

/-!
A comment is read in the same way whatever follows it, and nothing of it counts.
Behind a separator of code it starts where it is put, so the new text as it is read
is the old one with the comment as an insertion.
-/

/-- A comment and what is written in it.  Between the marks of a comment no part of
a mark is written, and a comment that ends with its line has no line break in it. -/
inductive Comment where
  | block (text : List Char) (plain : ∀ c ∈ text, c ≠ '/' ∧ c ≠ '*')
  | line (text : List Char) (single : '\n' ∉ text)

namespace Comment

/-- The text of a comment, with the line break that ends it. -/
def chars : Comment → List Char
  | block text _ => '/' :: '*' :: (text ++ ['*', '/'])
  | line text _ => '/' :: '/' :: (text ++ ['\n'])

/-- A lexeme of a comment. -/
def lexeme (chars : List Char) : Lexeme :=
  { chars := chars, cls := .comment, role := .plain }

/-- What is read before the last lexeme. -/
def front : Comment → List Lexeme
  | block text _ => lexeme ['/', '*'] :: text.map fun c => lexeme [c]
  | line text _ => lexeme ['/', '/'] :: text.map fun c => lexeme [c]

/-- The last lexeme: the mark or the line break. -/
def final : Comment → Lexeme
  | block _ _ => lexeme ['*', '/']
  | line _ _ => { chars := ['\n'], cls := .code, role := .plain }

/-- Inside of a block comment. -/
theorem reads_block {text : List Char} (plain : ∀ c ∈ text, c ≠ '/' ∧ c ≠ '*')
    (after : List Char) :
    Reads (.blockComment 0) (text ++ ['*', '/']) after
      ((text.map fun c => lexeme [c]) ++ [lexeme ['*', '/']]) .code := by
  induction text with
  | nil =>
      exact @Reads.more (.blockComment 0) _ '*' ['/'] [] after _ _ rfl rfl
          (Reads.done _ _)
  | cons c text inductionHypothesis =>
      obtain ⟨slash, star⟩ := plain c List.mem_cons_self
      have here : step (.blockComment 0) c ([] ++ (text ++ ['*', '/']) ++ after) =
          .plain .comment (.blockComment 0) := by
        simp [step, stepBlock, slash, star]
      exact @Reads.more _ _ c [] (text ++ ['*', '/']) after _ _ here rfl
          (inductionHypothesis fun d member => plain d (List.mem_cons_of_mem _ member))

/-- Inside of a line comment. -/
theorem reads_line {text : List Char} (single : '\n' ∉ text) (after : List Char) :
    Reads .lineComment (text ++ ['\n']) after
      ((text.map fun c => lexeme [c]) ++
        [{ chars := ['\n'], cls := .code, role := .plain }]) .code := by
  induction text with
  | nil =>
      exact @Reads.more .lineComment _ '\n' [] [] after _ _ rfl rfl
          (Reads.done _ _)
  | cons c text inductionHypothesis =>
      rw [List.mem_cons, not_or] at single
      have here : step .lineComment c ([] ++ (text ++ ['\n']) ++ after) =
          .plain .comment .lineComment := by
        simp [step, Ne.symm single.1]
      exact @Reads.more _ _ c [] (text ++ ['\n']) after _ _ here rfl
          (inductionHypothesis single.2)

/-- A comment is read as it is written, whatever follows it. -/
theorem reads (comment : Comment) (after : List Char) :
    Reads .code comment.chars after (comment.front ++ [comment.final]) .code := by
  cases comment with
  | block text plain =>
      have here : step .code '/' (['*'] ++ (text ++ ['*', '/']) ++ after) =
          .pair .comment (.blockComment 0) := rfl
      exact @Reads.more _ _ '/' ['*'] (text ++ ['*', '/']) after _ _ here rfl
          (reads_block plain after)
  | line text single =>
      have here : step .code '/' (['/'] ++ (text ++ ['\n']) ++ after) =
          .pair .comment .lineComment := rfl
      exact @Reads.more _ _ '/' ['/'] (text ++ ['\n']) after _ _ here rfl
          (reads_line single after)

variable (comment : Comment)

/-- The text of a comment, classified. -/
def source : Source := ofText (String.ofList comment.chars)

theorem lexemes_eq :
    lexemes (String.ofList comment.chars).toList =
      comment.front ++ [comment.final] := by
  have read := (comment.reads []).lexemes
  rw [String.toList_ofList]
  simpa [Source.lexemes, lexemesAfter] using read

theorem plain_lexeme : ∀ lexeme ∈ comment.front ++ [comment.final],
    lexeme.role = .plain ∧
      (lexeme.cls = .comment ∨ lexeme.cls = .code ∧ lexeme.chars = ['\n']) := by
  intro lexeme member
  rw [List.mem_append, List.mem_singleton] at member
  cases comment with
  | block text plain =>
      simp only [front, final, List.mem_cons, List.mem_map] at member
      rcases member with (rfl | ⟨c, -, rfl⟩) | rfl <;> exact ⟨rfl, Or.inl rfl⟩
  | line text single =>
      simp only [front, final, List.mem_cons, List.mem_map] at member
      rcases member with (rfl | ⟨c, -, rfl⟩) | rfl
      · exact ⟨rfl, Or.inl rfl⟩
      · exact ⟨rfl, Or.inl rfl⟩
      · exact ⟨rfl, Or.inr ⟨rfl, rfl⟩⟩

/-- Nothing of a comment counts. -/
theorem isSignificant_eq (index : Nat) :
    comment.source.isSignificant index = false := by
  rw [isSignificant, source, ofText_cells, lexemes_eq, List.getElem?_toArray]
  cases here : (cellsOf (comment.front ++ [comment.final]))[index]? with
  | none => rfl
  | some cell =>
      obtain ⟨lexeme, member, inside⟩ := List.mem_flatMap.mp (List.mem_of_getElem? here)
      rw [Option.any_some]
      rcases (comment.plain_lexeme lexeme member).2 with cls | ⟨cls, chars⟩
      · rw [Lexeme.cls_of_mem inside, cls]
        rfl
      · rw [Lexeme.cells, chars, cls] at inside
        rw [List.mem_singleton.mp inside]
        rfl

/-- A comment has no literals. -/
theorem literals_eq : comment.source.literals = [] := by
  have none {found : List Lexeme} (plain : ∀ lexeme ∈ found, lexeme.role = .plain)
      (position : Nat) : literalsFrom position none found = [] := by
    induction found generalizing position with
    | nil => rfl
    | cons head found inductionHypothesis =>
        rw [literalsFrom_cons, plain head List.mem_cons_self]
        exact inductionHypothesis
          (fun lexeme member => plain lexeme (List.mem_cons_of_mem _ member)) _
  rw [source, ofText, literalsOf, lexemes_eq]
  exact none (fun lexeme member => (comment.plain_lexeme lexeme member).1) 0

theorem closed : AllClosed comment.source := by
  intro literal member
  rw [literals_eq] at member
  cases member

/-- A comment ends with a slash or a line break. -/
theorem last_char : ∃ c, (c = '/' ∨ c = '\n') ∧ 0 < comment.source.size ∧
    comment.source.charAt? (comment.source.size - 1) = some c := by
  obtain ⟨before, c, chars, kinds, single⟩ : ∃ before c,
      comment.final.chars = before ++ [c] ∧ (c = '/' ∨ c = '\n') ∧
        c.utf8Size = 1 := by
    cases comment with
    | block text plain => exact ⟨['*'], '/', rfl, Or.inl rfl, rfl⟩
    | line text single => exact ⟨[], '\n', rfl, Or.inr rfl, rfl⟩
  have width : 0 < comment.final.size :=
    Lexeme.size_pos (by simp [chars])
  have size : comment.source.size = sizeOf comment.front + comment.final.size := by
    rw [source, Source.size, ofText_cells, lexemes_eq, List.size_toArray,
      length_cellsOf, sizeOf_append, sizeOf_cons, sizeOf_nil, Nat.add_zero]
  have last := @cell_of_lexeme comment.front [] comment.final
      (comment.final.size - 1) (by omega)
  rw [Lexeme.last_cell chars single] at last
  refine ⟨c, kinds, by omega, ?_⟩
  have place : comment.source.size - 1 =
      sizeOf comment.front + (comment.final.size - 1) := by omega
  rw [place, charAt?, source, ofText_cells, lexemes_eq, List.getElem?_toArray, last]
  rfl

end Comment

/-- A place of a text behind a separator of code, with something behind it. -/
structure Margin (text : String) (place : Nat) (before after : List Char) : Prop
    where
  closed : AllClosed (ofText text)
  cut : Cut text.toList place before after .code
  positive : 0 < place
  space : ∃ c, (ofText text).charAt? (place - 1) = some c ∧ isSpace c
  lead : ∃ lead c, before = lead ++ [c] ∧ isSpace c
  ends : after ≠ []

/-- Behind a separator of code is a margin. -/
theorem margin_of_space {text : String} {position : Nat} {c : Char}
    (closed : AllClosed (ofText text))
    (code : (ofText text).codeAt? position = some c) (space : isSpace c)
    (inside : position + 1 < (ofText text).size) :
    ∃ before after, Margin text (position + 1) before after := by
  obtain ⟨before, after, cut⟩ := cut_behind_code code
  have single : c.utf8Size = 1 := by
    simp only [isSpace, Bool.or_eq_true, decide_eq_true_eq] at space
    rcases space with (((rfl | rfl) | rfl) | rfl) | rfl <;> rfl
  rw [single] at cut
  refine ⟨before ++ [c], after, closed, cut, Nat.succ_pos _,
    ⟨c, charAt_of_codeAt code, space⟩, ⟨before, c, rfl, space⟩,
    cut.lt_size_iff.mp inside⟩

/-- A text with a comment between two parts of it. -/
def commented (before after : List Char) (comment : Comment) : String :=
  String.ofList (before ++ comment.chars ++ after)

/-- No word has a separator in it. -/
theorem joins_of_space {left : Char} (space : isSpace left) (right : Char) :
    joins left right = false := by
  simp only [isSpace, Bool.or_eq_true, decide_eq_true_eq] at space
  rcases space with (((rfl | rfl) | rfl) | rfl) | rfl <;>
    simp [joins, isNameChar]

/-- Nothing joins behind a character that joins with none. -/
theorem not_joinsAt_of_charAt {source : Source} {position : Nat} {c : Char}
    (char : source.charAt? (position - 1) = some c)
    (apart : ∀ right, joins c right = false) : ¬JoinsAt source position := by
  rintro ⟨left, right, -, before, -, joined⟩
  obtain rfl : c = left := Option.some.inj (char.symm.trans before)
  rw [apart right] at joined
  cases joined

namespace Margin

variable {text : String} {place : Nat} {before after : List Char}
  (margin : Margin text place before after) (comment : Comment)

/-- The insertion of a comment at a margin. -/
def insertion : Insertion where
  source := ofText text
  fragment := comment.source
  place := place
  positive := margin.positive
  inside := margin.cut.lt_size_iff.mpr margin.ends

include margin in
theorem insertable : Insertable before comment.chars after where
  place := by
    obtain ⟨found, reads⟩ := margin.cut.reads
    exact ⟨found, .code, reads, Or.inl rfl⟩
  whole := ⟨_, comment.reads [], comment.reads after⟩
  apartBefore := by
    obtain ⟨lead, c, rfl, space⟩ := margin.lead
    intro left member right _
    rw [Option.mem_def, List.getLast?_concat, Option.some.injEq] at member
    subst member
    simp only [isSpace, Bool.or_eq_true, decide_eq_true_eq] at space
    rcases space with (((rfl | rfl) | rfl) | rfl) | rfl <;> rfl

theorem result_eq :
    (margin.insertion comment).result = ofText (commented before after comment) := by
  have whole : text = String.ofList (before ++ after) := by
    rw [← margin.cut.parts, String.ofList_toList]
  rw [commented, ofText_insert (margin.insertable comment), ← whole, margin.cut.place]
  rfl

theorem hidden : (margin.insertion comment).IsHidden :=
  fun index _ => comment.isSignificant_eq index

include margin in
theorem closed_result : AllClosed (ofText (commented before after comment)) := by
  rw [← margin.result_eq comment]
  exact margin.closed.insert comment.closed place

/-- A comment at a margin is a seam. -/
theorem seam : (margin.insertion comment).Seam where
  regular := regular_ofText margin.closed
  fragmentRegular := regular_ofText comment.closed
  resultRegular := by
    rw [result_eq]
    exact regular_ofText (margin.closed_result comment)
  outside := margin.cut.outside rfl
  balanced := (margin.hidden comment).isBalanced
  whole := by
    obtain ⟨c, char, space⟩ := margin.space
    exact not_joinsAt_of_charAt char (joins_of_space space)
  left := by
    obtain ⟨c, char, space⟩ := margin.space
    have last : place - 1 < place := Nat.sub_lt margin.positive Nat.one_pos
    have same := (margin.insertion comment).charAt_shift (place - 1)
    rw [Insertion.shift_of_lt _ last] at same
    exact not_joinsAt_of_charAt (same.trans char) (joins_of_space space)
  right := by
    obtain ⟨c, kinds, filled, char⟩ := comment.last_char
    have last : comment.source.size - 1 < (margin.insertion comment).width :=
      Nat.sub_lt filled Nat.one_pos
    have same := (margin.insertion comment).charAt_place last
    rw [← Nat.add_sub_assoc (by exact filled)] at same
    refine not_joinsAt_of_charAt (same.trans char) fun right => ?_
    rcases kinds with rfl | rfl <;> simp [joins, isNameChar]
  meets := Or.inl (margin.hidden comment)

end Margin

end PackageLayers.Source

/-
Purpose: The tokens of a written JSON value.
Main exports: Json.tokensOf, Json.gives_quote, Json.numberOf, Json.gives_renderAt
-/
import Mathlib.Data.Bool.AllAny
import Mathlib.Data.List.Basic
import Mathlib.Data.List.Forall2
import Mathlib.Data.List.TakeWhile
import PackageLayers.Json.Printer
import PackageLayers.Json.Reader

namespace PackageLayers.Json

/-!
What is written is cut into the tokens that it was made of.  A number or a word
ends only with what follows it, so what may follow is a condition on the rest of
the text; everything else ends by itself.
-/

/-- One character read. -/
theorem tokens_step {mode next : ScanMode} {c : Char} {found : List Token}
    (scan : scanStep? mode c = some (found, next)) (rest : List Char) :
    tokens? mode (c :: rest) = (tokens? next rest).map (found ++ ·) := by
  rw [tokens?, scan, Option.bind_eq_bind, Option.bind_some,
    Option.map_eq_bind]
  rfl

/-- One character read that ends no token. -/
theorem tokens_go {mode next : ScanMode} {c : Char}
    (scan : scanStep? mode c = some ([], next)) (rest : List Char) :
    tokens? mode (c :: rest) = tokens? next rest := by
  rw [tokens_step scan]
  simp

/-- Whether a text may follow a number or a word. -/
def Free (rest : List Char) : Prop :=
  ∀ c ∈ rest.head?, isNumberChar c = false ∧ c.isAlpha = false

/-- Whether a text gives tokens, if what follows it may follow a number. -/
def Gives (chars : List Char) (tokens : List Token) : Prop :=
  ∀ rest, Free rest → tokens? .between (chars ++ rest) =
    (tokens? .between rest).map (tokens ++ ·)

/-- Whether a text gives tokens, whatever follows it. -/
def Ends (chars : List Char) (tokens : List Token) : Prop :=
  ∀ rest, tokens? .between (chars ++ rest) =
    (tokens? .between rest).map (tokens ++ ·)

theorem Ends.gives {chars : List Char} {tokens : List Token}
    (ends : Ends chars tokens) : Gives chars tokens :=
  fun rest _ => ends rest

theorem map_map_append (found later : List Token)
    (rest : Option (List Token)) :
    (rest.map (later ++ ·)).map (found ++ ·) =
      rest.map ((found ++ later) ++ ·) := by
  cases rest with
  | none => rfl
  | some tokens => simp

theorem Ends.append {left right : List Char} {first second : List Token}
    (ends : Ends left first) (later : Ends right second) :
    Ends (left ++ right) (first ++ second) := by
  intro rest
  rw [List.append_assoc, ends, later, map_map_append]

theorem Ends.append_gives {left right : List Char} {first second : List Token}
    (ends : Ends left first) (later : Gives right second) :
    Gives (left ++ right) (first ++ second) := by
  intro rest free
  rw [List.append_assoc, ends, later rest free, map_map_append]

theorem Gives.append_ends {left right : List Char} {c : Char}
    {first second : List Token} (gives : Gives left first)
    (later : Ends (c :: right) second)
    (free : isNumberChar c = false ∧ c.isAlpha = false) :
    Ends (left ++ c :: right) (first ++ second) := by
  intro rest
  have head : Free ((c :: right) ++ rest) := by
    intro d member
    cases member
    exact free
  rw [List.append_assoc, gives _ head, later, map_map_append]

/-! ### Punctuation -/

/-- A character that is a token, or no token, by itself. -/
theorem ends_single {c : Char} {tokens : List Token}
    (scan : scanBetween? c = some (tokens, .between)) : Ends [c] tokens := by
  intro rest
  exact @tokens_step .between _ _ _ scan rest

theorem ends_nil : Ends [] [] := by
  intro rest
  simp

theorem ends_blank {blank : List Char} (isBlank : ∀ c ∈ blank, isSeparator c) :
    Ends blank [] := by
  induction blank with
  | nil => exact ends_nil
  | cons c blank inductionHypothesis =>
      have scan : scanBetween? c = some ([], .between) := by
        rw [scanBetween?, if_pos (isBlank c List.mem_cons_self)]
      exact (ends_single scan).append (inductionHypothesis fun d member =>
        isBlank d (List.mem_cons_of_mem c member))

theorem ends_newline (depth : Nat) : Ends (newline depth).toList [] := by
  refine ends_blank fun c member => ?_
  rw [newline, String.toList_ofList, List.mem_cons, List.mem_replicate] at member
  rcases member with rfl | ⟨-, rfl⟩ <;> decide

/-! ### Texts -/

/-- A small code unit of four digits is read. -/
theorem tokens_codeUnit (draft : Draft) {value : Nat} (small : value < 0x20)
    (rest : List Char) :
    tokens? (.codeUnit draft none 0 0)
        ('0' :: '0' :: Text.hexDigit (value / 16) ::
          Text.hexDigit (value % 16) :: rest) =
      tokens? (.text (draft.push (Char.ofNat value))) rest := by
  have zero : Text.hexDigit? '0' = some 0 := by decide
  have high := Text.hexDigit?_hexDigit (value / 16) (by omega)
  have low := Text.hexDigit?_hexDigit (value % 16) (by omega)
  have whole : 16 * (value / 16) + value % 16 = value := by omega
  have done : codeUnitDone draft none value =
      .text (draft.push (Char.ofNat value)) := by
    rw [codeUnitDone, if_neg (by omega), if_neg (by omega)]
  have first (count : Nat) (other : count ≠ 3) :
      scanStep? (.codeUnit draft none count 0) '0' =
        some ([], .codeUnit draft none (count + 1) 0) := by
    simp [scanStep?, zero, other]
  have third : scanStep? (.codeUnit draft none 2 0)
      (Text.hexDigit (value / 16)) =
        some ([], .codeUnit draft none 3 (value / 16)) := by
    simp [scanStep?, high]
  have fourth : scanStep? (.codeUnit draft none 3 (value / 16))
      (Text.hexDigit (value % 16)) =
        some ([], .text (draft.push (Char.ofNat value))) := by
    simp [scanStep?, low, whole, done]
  rw [tokens_go (first 0 (by decide)), tokens_go (first 1 (by decide)),
    tokens_go third, tokens_go fourth]

/-- A character with an escape of its own is read. -/
theorem tokens_escape (draft : Draft) {letter plain : Char}
    (other : letter ≠ 'u') (escape : escaped? letter = some plain)
    (rest : List Char) :
    tokens? (.text draft) ('\\' :: letter :: rest) =
      tokens? (.text (draft.push plain)) rest := by
  have opens : scanStep? (.text draft) '\\' = some ([], .escape draft) := by
    simp [scanStep?, textStep?]
  have closes : scanStep? (.escape draft) letter =
      some ([], .text (draft.push plain)) := by
    simp [scanStep?, escapeStep?, other, escape]
  rw [tokens_go opens, tokens_go closes]

/-- A character is read as it is written. -/
theorem tokens_escapeChar (draft : Draft) (c : Char) (rest : List Char) :
    tokens? (.text draft) (escapeChar c ++ rest) =
      tokens? (.text (draft.push c)) rest := by
  by_cases quote : c = '"'
  · subst quote
    exact tokens_escape draft (by decide) (by decide) rest
  by_cases slash : c = '\\'
  · subst slash
    exact tokens_escape draft (by decide) (by decide) rest
  by_cases back : c = '\x08'
  · subst back
    exact tokens_escape draft (by decide) (by decide) rest
  by_cases feed : c = '\x0c'
  · subst feed
    exact tokens_escape draft (by decide) (by decide) rest
  by_cases line : c = '\n'
  · subst line
    exact tokens_escape draft (by decide) (by decide) rest
  by_cases carriage : c = '\r'
  · subst carriage
    exact tokens_escape draft (by decide) (by decide) rest
  by_cases tab : c = '\t'
  · subst tab
    exact tokens_escape draft (by decide) (by decide) rest
  have chain : escapeChar c = if c.toNat < 0x20 then
      ['\\', 'u', '0', '0', Text.hexDigit (c.toNat / 16),
        Text.hexDigit (c.toNat % 16)] else [c] := by
    rw [escapeChar, if_neg quote, if_neg slash, if_neg back, if_neg feed,
      if_neg line, if_neg carriage, if_neg tab]
  rw [chain]
  split
  · rename_i small
    have opens : scanStep? (.text draft) '\\' = some ([], .escape draft) := by
      simp [scanStep?, textStep?]
    have unit : scanStep? (.escape draft) 'u' =
        some ([], .codeUnit draft none 0 0) := by
      simp [scanStep?, escapeStep?]
    have read := tokens_codeUnit draft small rest
    rw [Char.ofNat_toNat] at read
    rw [List.cons_append, tokens_go opens, List.cons_append, tokens_go unit]
    exact read
  · rename_i great
    have plain : scanStep? (.text draft) c = some ([], .text (draft.push c)) := by
      simp [scanStep?, textStep?, quote, slash, great]
    exact tokens_go plain rest

theorem tokens_escaped (draft : Draft) (chars rest : List Char) :
    tokens? (.text draft) (chars.flatMap escapeChar ++ rest) =
      tokens? (.text { draft with chars := chars.reverse ++ draft.chars }) rest := by
  induction chars generalizing draft with
  | nil => rfl
  | cons c chars inductionHypothesis =>
      rw [List.flatMap_cons, List.append_assoc, tokens_escapeChar,
        inductionHypothesis, List.reverse_cons, List.append_assoc]
      rfl

/-- A text is read as it is written. -/
theorem ends_quote (text : String) :
    Ends (quote text).toList [.text (some text)] := by
  intro rest
  have opens : scanStep? .between '"' = some ([], .text ⟨[], true⟩) := by
    simp [scanStep?, scanBetween?, isSeparator]
  have content : (Draft.mk text.toList.reverse true).content = some text := by
    simp [Draft.content]
  have closes : scanStep? (.text ⟨text.toList.reverse, true⟩) '"' =
      some ([.text (some text)], .between) := by
    simp [scanStep?, textStep?, content]
  rw [quote, String.toList_ofList, List.cons_append, tokens_go opens,
    List.append_assoc, tokens_escaped, List.append_nil, List.singleton_append,
    tokens_step closes]

/-! ### Words and numbers -/

/-- What ends a word or a number is read as if it stood alone. -/
theorem tokens_close {mode : ScanMode} {token : Option Token} {rest : List Char}
    (finish : scanEnd? mode = token.map ([·]))
    (step : ∀ c ∈ rest.head?, scanStep? mode c = token.bind fun token =>
      (scanBetween? c).map fun found => (token :: found.1, found.2)) :
    tokens? mode rest = token.bind fun token =>
      (tokens? .between rest).map (token :: ·) := by
  cases rest with
  | nil =>
      rw [tokens?, finish]
      cases token <;> rfl
  | cons c rest =>
      rw [tokens?, step c rfl, tokens?, scanStep?]
      cases token with
      | none => rfl
      | some token =>
          cases scanBetween? c with
          | none => rfl
          | some found =>
              simp only [Option.bind_eq_bind, Option.bind_some, Option.map_some]
              cases tokens? found.2 rest <;> rfl

/-- A number is read to its end. -/
theorem tokens_number {digits rest : List Char}
    (isDigits : ∀ c ∈ digits, c.isDigit) (free : Free rest) (read : List Char) :
    tokens? (.number read) (digits ++ rest) =
      ((numberValue? (read.reverse ++ digits)).map Token.literal).bind fun token =>
        (tokens? .between rest).map (token :: ·) := by
  induction digits generalizing read with
  | nil =>
      rw [List.nil_append, List.append_nil]
      refine tokens_close ?_ fun c member => ?_
      · rw [scanEnd?, Option.map_map]
        rfl
      · rw [scanStep?, if_neg (by simp [(free c member).1])]
        cases numberValue? read.reverse with
        | none => rfl
        | some value => cases scanBetween? c <;> rfl
  | cons digit digits inductionHypothesis =>
      have number : isNumberChar digit := by
        simp [isNumberChar, isDigits digit List.mem_cons_self]
      have go : scanStep? (.number read) digit =
          some ([], .number (digit :: read)) := by
        rw [scanStep?, if_pos number]
      rw [List.cons_append, tokens_go go, inductionHypothesis fun c member =>
        isDigits c (List.mem_cons_of_mem digit member), List.reverse_cons,
        List.append_assoc, List.singleton_append]

/-- A word is read to its end. -/
theorem tokens_word {letters rest : List Char}
    (isLetters : ∀ c ∈ letters, c.isAlpha) (free : Free rest) (read : List Char) :
    tokens? (.word read) (letters ++ rest) =
      ((wordValue? (read.reverse ++ letters)).map Token.literal).bind fun token =>
        (tokens? .between rest).map (token :: ·) := by
  induction letters generalizing read with
  | nil =>
      rw [List.nil_append, List.append_nil]
      refine tokens_close ?_ fun c member => ?_
      · rw [scanEnd?, Option.map_map]
        rfl
      · rw [scanStep?, if_neg (by simp [(free c member).2])]
        cases wordValue? read.reverse with
        | none => rfl
        | some value => cases scanBetween? c <;> rfl
  | cons letter letters inductionHypothesis =>
      have go : scanStep? (.word read) letter =
          some ([], .word (letter :: read)) := by
        rw [scanStep?, if_pos (isLetters letter List.mem_cons_self)]
      rw [List.cons_append, tokens_go go, inductionHypothesis fun c member =>
        isLetters c (List.mem_cons_of_mem letter member), List.reverse_cons,
        List.append_assoc, List.singleton_append]

/-- A known word gives its value. -/
theorem gives_word {first : Char} {letters : List Char} {value : Json}
    (opens : scanBetween? first = some ([], .word [first]))
    (isLetters : ∀ c ∈ letters, c.isAlpha)
    (known : wordValue? (first :: letters) = some value) :
    Gives (first :: letters) [.literal value] := by
  intro rest free
  have start : scanStep? .between first = some ([], .word [first]) := opens
  rw [List.cons_append, tokens_go start, tokens_word isLetters free,
    List.reverse_singleton, List.singleton_append, known]
  rfl

/-- The value that the digits of a number are read as. -/
def numberOf (number : Nat) : Json :=
  (numberValue? (Nat.toDigits 10 number)).getD .null

/-- The digits of a positive number do not start with a zero. -/
theorem head_toDigits {number : Nat} (positive : 0 < number) :
    (Nat.toDigits 10 number).head? ≠ some '0' := by
  induction number using Nat.strongRecOn with
  | _ number inductionHypothesis =>
      rcases Nat.lt_or_ge number 10 with small | great
      · have single : ∀ number < 10, 0 < number →
            (Nat.toDigits 10 number).head? ≠ some '0' := by decide
        exact single number small positive
      · rw [Nat.toDigits_of_base_le (by decide) great,
          List.head?_append_of_ne_nil _ Nat.toDigits_ne_nil]
        exact inductionHypothesis (number / 10) (by omega) (by omega)

theorem isDigit_toDigits {number : Nat} :
    ∀ c ∈ Nat.toDigits 10 number, c.isDigit :=
  fun _ member => Nat.isDigit_of_mem_toDigits (by decide) (by decide) member

/-- The parts of a number that is written in digits. -/
theorem numberParts_toDigits (number : Nat) :
    numberParts? (Nat.toDigits 10 number) = some
      { negative := false
        whole := Nat.toDigits 10 number
        fraction := []
        exponent := 0
        isInteger := true } := by
  have digits := @isDigit_toDigits number
  have positive : (Nat.toDigits 10 number).head? ≠ some '-' := by
    intro minus
    cases digits '-' (List.mem_of_mem_head? minus)
  have whole : (Nat.toDigits 10 number).takeWhile Char.isDigit =
      Nat.toDigits 10 number := List.takeWhile_eq_self_iff.mpr digits
  have rest : (Nat.toDigits 10 number).dropWhile Char.isDigit = [] :=
    List.dropWhile_eq_nil_iff.mpr digits
  have filled : (Nat.toDigits 10 number).isEmpty = false := by
    simp
  have noZero : ((Nat.toDigits 10 number).head? = some '0' &&
      decide (1 < (Nat.toDigits 10 number).length)) = false := by
    rcases Nat.eq_zero_or_pos number with rfl | positive
    · decide
    · simp [head_toDigits positive]
  simp only [numberParts?, positive, decide_false, Bool.false_eq_true, if_false,
    whole, rest, filled, noZero, Bool.or_self, fractionPart?, Option.map_some,
    List.isEmpty_nil]

theorem decimal_toDigits (number : Nat) :
    Text.decimal (Nat.toDigits 10 number) = number :=
  Nat.ofDigitChars_toDigits (by decide) (by decide)

/-- A number that a word of 64 bits holds is read as it is. -/
theorem numberOf_small {number : Nat} (small : number < Text.wordCount 64) :
    numberOf number = .int (Int.ofNat number) := by
  rw [numberOf, numberValue?, numberParts_toDigits, Option.map_some,
    Option.getD_some, NumberParts.value]
  simp [decimal_toDigits, small]

/-- A greater number is not read as an integer. -/
theorem numberOf_great {number : Nat} (great : ¬number < Text.wordCount 64) :
    (∃ value, numberOf number = .real value) ∨ numberOf number = .illegible := by
  rw [numberOf, numberValue?, numberParts_toDigits, Option.map_some,
    Option.getD_some, NumberParts.value]
  simp only [decimal_toDigits, great, Bool.and_false, Bool.false_and,
    decide_false, Bool.false_eq_true, if_false]
  split
  · exact Or.inl ⟨_, rfl⟩
  · exact Or.inr rfl

theorem scanBetween_digit {c : Char} (digit : c.isDigit) :
    scanBetween? c = some ([], .number [c]) := by
  have other (d : Char) (plain : d.isDigit = false) : c ≠ d := by
    rintro rfl
    rw [digit] at plain
    cases plain
  have noSeparator : isSeparator c = false := by
    simp [isSeparator, other ' ' (by decide), other '\t' (by decide),
      other '\n' (by decide), other '\r' (by decide)]
  rw [scanBetween?, if_neg (by simp [noSeparator]),
    if_neg (other '[' (by decide)), if_neg (other ']' (by decide)),
    if_neg (other '\x7b' (by decide)), if_neg (other '\x7d' (by decide)),
    if_neg (other ',' (by decide)), if_neg (other ':' (by decide)),
    if_neg (other '"' (by decide)), if_pos (by simp [digit])]

/-- The digits of a number give what they are read as. -/
theorem gives_number (number : Nat) :
    Gives (Nat.toDigits 10 number) [.literal (numberOf number)] := by
  intro rest free
  have digits := @isDigit_toDigits number
  have known : numberValue? (Nat.toDigits 10 number) =
      some (numberOf number) := by
    rw [numberOf, numberValue?, numberParts_toDigits, Option.map_some,
      Option.getD_some]
  cases written : Nat.toDigits 10 number with
  | nil => exact absurd written Nat.toDigits_ne_nil
  | cons first later =>
      rw [written] at digits known
      have opens := scanBetween_digit (digits first List.mem_cons_self)
      have start : scanStep? .between first = some ([], .number [first]) := opens
      rw [List.cons_append, tokens_go start, tokens_number (fun c member =>
        digits c (List.mem_cons_of_mem first member)) free,
        List.reverse_singleton, List.singleton_append, known]
      rfl

/-! ### Values -/

mutual

/-- The tokens of a value. -/
def tokensOf : Json → List Token
  | .null => [.literal .null]
  | .bool value => [.literal (.bool value)]
  | .int value => [.literal (numberOf value.toNat)]
  | .real value => [.literal (.real value)]
  | .illegible => [.literal .illegible]
  | .str text => [.text (some text)]
  | .arr items =>
      .openList :: ([.comma].intercalate (tokensOfItems items) ++ [.closeList])
  | .obj members =>
      .openRecord ::
        ([.comma].intercalate (tokensOfMembers members) ++ [.closeRecord])

/-- The tokens of every item. -/
def tokensOfItems : List Json → List (List Token)
  | [] => []
  | item :: rest => item.tokensOf :: tokensOfItems rest

/-- The tokens of every member. -/
def tokensOfMembers : List (String × Json) → List (List Token)
  | [] => []
  | (name, value) :: rest =>
      (.text (some name) :: .colon :: value.tokensOf) :: tokensOfMembers rest

end

mutual

/-- Whether a value has no part that is written otherwise than it is read, and is
not nested deeper than some room allows. -/
def isPlain (room : Nat) : Json → Bool
  | .real _ => false
  | .illegible => false
  | .int value => 0 ≤ value
  | .arr items => 0 < room && plainItems (room - 1) items
  | .obj members => 0 < room && plainMembers (room - 1) members
  | _ => true

/-- Whether every item is plain. -/
def plainItems (room : Nat) : List Json → Bool
  | [] => true
  | item :: rest => item.isPlain room && plainItems room rest

/-- Whether every member's value is plain. -/
def plainMembers (room : Nat) : List (String × Json) → Bool
  | [] => true
  | (_, value) :: rest => value.isPlain room && plainMembers room rest

end

/-- Pieces with commas between them give their tokens with commas between
them. -/
theorem gives_intercalate {blank : List Char} (isBlank : Ends blank [])
    {pieces : List (List Char)} {tokens : List (List Token)}
    (each : List.Forall₂ Gives pieces tokens) :
    Gives ((',' :: blank).intercalate pieces) ([.comma].intercalate tokens) := by
  have comma : Ends (',' :: blank) [.comma] := by
    have single : Ends [','] [.comma] :=
      ends_single (by simp [scanBetween?, isSeparator])
    have both := single.append isBlank
    rwa [List.singleton_append, List.append_nil] at both
  induction each with
  | nil => exact ends_nil.gives
  | @cons piece token pieces tokens first later inductionHypothesis =>
      cases later with
      | nil => simpa using first
      | @cons second token' pieces tokens next later =>
          rw [List.intercalate_cons_cons, List.intercalate_cons_cons]
          have seam := first.append_ends comma (by decide)
          exact seam.append_gives inductionHypothesis

/-- Pieces in brackets, one a line. -/
theorem ends_bracketed {left right : String} {first last : Char}
    {opening closing : Token} (isLeft : left.toList = [first])
    (isRight : right.toList = [last])
    (opens : scanBetween? first = some ([opening], .between))
    (closes : scanBetween? last = some ([closing], .between))
    (depth : Nat) {written : List String} {tokens : List (List Token)}
    (each : List.Forall₂ Gives (written.map String.toList) tokens) :
    Ends (bracketed left right depth written).toList
      (opening :: ([.comma].intercalate tokens ++ [closing])) := by
  have start := ends_single opens
  have stop := ends_single closes
  rw [bracketed]
  split
  · rename_i empty
    rw [List.isEmpty_iff] at empty
    subst empty
    cases each
    rw [String.toList_append, isLeft, isRight]
    exact start.append stop
  · have inner := (start.append (ends_newline (depth + 1))).append_gives
      (gives_intercalate (ends_newline (depth + 1)) each)
    have later := (ends_newline depth).append stop
    have line (more : List Char) : (newline depth).toList ++ more =
        '\n' :: (List.replicate (2 * depth) ' ' ++ more) := by
      rw [newline, String.toList_ofList]
      rfl
    rw [line] at later
    have all := inner.append_ends later (by decide)
    have comma : ("," ++ newline (depth + 1)).toList =
        ',' :: (newline (depth + 1)).toList := by
      rw [String.toList_append]
      rfl
    rw [← line] at all
    simpa only [String.toList_append, String.toList_intercalate, isLeft, isRight,
      comma, List.append_assoc, List.cons_append, List.nil_append,
      List.append_nil] using all

section

variable (depth : Nat) {written : List String} {tokens : List (List Token)}
  (each : List.Forall₂ Gives (written.map String.toList) tokens)

include each

theorem ends_list : Ends (bracketed "[" "]" depth written).toList
    (.openList :: ([.comma].intercalate tokens ++ [.closeList])) := by
  have left : "[".toList = ['['] := by decide
  have right : "]".toList = [']'] := by decide
  exact ends_bracketed left right (by simp [scanBetween?, isSeparator])
    (by simp [scanBetween?, isSeparator]) depth each

theorem ends_record : Ends (bracketed "\x7b" "\x7d" depth written).toList
    (.openRecord :: ([.comma].intercalate tokens ++ [.closeRecord])) := by
  have left : "\x7b".toList = ['\x7b'] := by decide
  have right : "\x7d".toList = ['\x7d'] := by decide
  exact ends_bracketed left right (by simp [scanBetween?, isSeparator])
    (by simp [scanBetween?, isSeparator]) depth each

end

/-- A name with a value gives its tokens. -/
theorem gives_member (name : String) {value : List Char} {tokens : List Token}
    (gives : Gives value tokens) :
    Gives ((quote name).toList ++ ':' :: ' ' :: value)
      (.text (some name) :: .colon :: tokens) := by
  have colon : Ends [':'] [.colon] :=
    ends_single (by simp [scanBetween?, isSeparator])
  have blank : Ends [' '] [] := ends_blank (List.all_iff_forall_prop.mp (by decide))
  have all := ((ends_quote name).append (colon.append blank)).append_gives gives
  simpa only [List.append_assoc, List.cons_append, List.nil_append,
    List.append_nil] using all

theorem gives_null : Gives "null".toList [.literal .null] :=
  @gives_word 'n' ['u', 'l', 'l'] _ (by simp [scanBetween?, isSeparator])
    (List.all_iff_forall_prop.mp (by decide)) (by rfl)

theorem gives_bool (value : Bool) :
    Gives (if value then "true".toList else "false".toList)
      [.literal (.bool value)] := by
  cases value with
  | false =>
      exact @gives_word 'f' ['a', 'l', 's', 'e'] _
        (by simp [scanBetween?, isSeparator])
        (List.all_iff_forall_prop.mp (by decide)) (by rfl)
  | true =>
      exact @gives_word 't' ['r', 'u', 'e'] _
        (by simp [scanBetween?, isSeparator])
        (List.all_iff_forall_prop.mp (by decide)) (by rfl)

mutual

/-- A plain value gives its tokens. -/
theorem gives_renderAt (depth room : Nat) : (value : Json) →
    value.isPlain room → Gives (value.renderAt depth).toList value.tokensOf
  | .null, _ => gives_null
  | .bool true, _ => gives_bool true
  | .bool false, _ => gives_bool false
  | .int value, plain => by
      simp only [isPlain, decide_eq_true_eq] at plain
      obtain ⟨number, rfl⟩ := Int.eq_ofNat_of_zero_le plain
      have written : (toString (number : Int)).toList = Nat.toDigits 10 number :=
        Nat.toList_repr
      rw [renderAt, tokensOf, written]
      exact gives_number number
  | .str text, _ => by
      rw [renderAt, tokensOf]
      exact (ends_quote text).gives
  | .arr items, plain => by
      rw [renderAt, tokensOf]
      simp only [isPlain, Bool.and_eq_true] at plain
      exact (ends_list depth
        (gives_items (depth + 1) (room - 1) items plain.2)).gives
  | .obj members, plain => by
      rw [renderAt, tokensOf]
      simp only [isPlain, Bool.and_eq_true] at plain
      exact (ends_record depth
        (gives_members (depth + 1) (room - 1) members plain.2)).gives
  | .real _, plain => by cases plain
  | .illegible, plain => by cases plain

/-- Plain items give their tokens. -/
theorem gives_items (depth room : Nat) : (items : List Json) →
    plainItems room items → List.Forall₂ Gives
      ((renderItemsAt depth items).map String.toList) (tokensOfItems items)
  | [], _ => .nil
  | item :: rest, plain => by
      simp only [plainItems, Bool.and_eq_true] at plain
      exact .cons (gives_renderAt depth room item plain.1)
        (gives_items depth room rest plain.2)

/-- Plain members give their tokens. -/
theorem gives_members (depth room : Nat) : (members : List (String × Json)) →
    plainMembers room members → List.Forall₂ Gives
      ((renderMembersAt depth members).map String.toList)
      (tokensOfMembers members)
  | [], _ => .nil
  | (name, value) :: rest, plain => by
      simp only [plainMembers, Bool.and_eq_true] at plain
      refine .cons ?_ (gives_members depth room rest plain.2)
      have member := gives_member name (gives_renderAt depth room value plain.1)
      have colon : ": ".toList = [':', ' '] := by decide
      rwa [String.toList_append, String.toList_append, colon, List.append_assoc]

end

end PackageLayers.Json

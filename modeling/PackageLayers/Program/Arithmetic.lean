/-
Purpose: The arithmetic of scripts.
Main exports: Formula, Formula.ofText, Formula.value, ArithmeticFault
-/
import PackageLayers.Text.Hex

namespace PackageLayers.Program

/-!
Formulas have the operators of C on whole numbers of 64 bits with sign; results
wrap around.  Names stand for the numbers that variables write, and may be
assigned to.  A formula is read by the binding strength of its operators, on a
number of rounds that its signs bound.
-/

/-- A sign of a formula. -/
inductive FormulaSign where
  | number (value : Int)
  | name (text : String)
  | operator (text : String)
deriving Repr, Inhabited, DecidableEq

/-- A formula. -/
inductive Formula where
  | number (value : Int)
  | name (text : String)
  | unary (operator : String) (body : Formula)
  | binary (operator : String) (left right : Formula)
  | choose (test yes no : Formula)
  | assign (name operator : String) (body : Formula)
deriving Repr, Inhabited, DecidableEq

/-- What is wrong with a formula or its value. -/
inductive ArithmeticFault where
  | expected (what : String)
  | divisionByZero
  | notNumber (text : String)
deriving Repr, Inhabited, DecidableEq

/-- The description of a fault in a formula. -/
def ArithmeticFault.message (fault : ArithmeticFault) (source : String) :
    String :=
  match fault with
  | .expected what =>
      "arithmetic expression: expecting " ++ what ++ ": \"" ++ source ++ "\""
  | .divisionByZero =>
      "arithmetic expression: division by zero: \"" ++ source ++ "\""
  | .notNumber text => "Illegal number: " ++ text

/-- A number with 64 bits and a sign that has the same lowest 64 bits. -/
def wrapped (value : Int) : Int :=
  Int.bmod value (Text.wordCount 64)

namespace Formula

/-- The operators of several characters, then those of one. -/
def operators : List String :=
  ["<<=", ">>=", "<=", ">=", "==", "!=", "&&", "||", "<<", ">>", "+=", "-=",
    "*=", "/=", "%=", "&=", "^=", "|=", "<", ">", "=", "!", "~", "&", "|", "^",
    "+", "-", "*", "/", "%", "?", ":", "(", ")"]

/-- Whether a character may stand in a name. -/
def isNameChar (c : Char) : Bool :=
  c.isAlphanum || c = '_'

/-- The value of digits in a base. -/
def inBase (base : Nat) (digits : List Char) : Int :=
  digits.foldl
    (fun value c =>
      value * Int.ofNat base + Int.ofNat ((Text.hexDigit? c).getD 0))
    0

/-- The greatest number of 64 bits with a sign. -/
def greatest : Int :=
  Int.ofNat (Text.wordCount 63) - 1

/-- A number of any size that starts with a digit, and what follows it. -/
def wholeNumeral (chars : List Char) : Int × List Char :=
  let octal (c : Char) := '0' ≤ c && c ≤ '7'
  match chars with
  | '0' :: mark :: rest =>
      let digits := rest.takeWhile fun c => (Text.hexDigit? c).isSome
      if (mark = 'x' || mark = 'X') && !digits.isEmpty then
        (inBase 16 digits, rest.drop digits.length)
      else
        let digits := (mark :: rest).takeWhile octal
        (inBase 8 digits, (mark :: rest).drop digits.length)
  | _ =>
      (inBase 10 (chars.takeWhile Char.isDigit), chars.dropWhile Char.isDigit)

/-- A number that starts with a digit, at most the greatest, and what follows
it. -/
def numeral (chars : List Char) : Int × List Char :=
  let (value, after) := wholeNumeral chars
  (min value greatest, after)

/-- The signs of a formula; none if a character starts no sign. -/
def signs? : (rounds : Nat) → List Char → Option (List FormulaSign)
  | 0, _ => none
  | _ + 1, [] => some []
  | rounds + 1, c :: rest =>
      if c = ' ' || c = '\t' || c = '\n' then signs? rounds rest
      else if c.isDigit then
        let (value, after) := numeral (c :: rest)
        (signs? rounds after).map (.number value :: ·)
      else if isNameChar c then
        let label := String.ofList ((c :: rest).takeWhile isNameChar)
        (signs? rounds ((c :: rest).dropWhile isNameChar)).map (.name label :: ·)
      else do
        let found ← operators.find? fun operator =>
          operator.toList.isPrefixOf (c :: rest)
        let later ← signs? rounds ((c :: rest).drop found.length)
        pure (.operator found :: later)

/-- How strongly an operator between two formulas binds. -/
def strength? (operator : String) : Option Nat :=
  match operator with
  | "*" | "/" | "%" => some 10
  | "+" | "-" => some 9
  | "<<" | ">>" => some 8
  | "<" | "<=" | ">" | ">=" => some 7
  | "==" | "!=" => some 6
  | "&" => some 5
  | "^" => some 4
  | "|" => some 3
  | "&&" => some 2
  | "||" => some 1
  | _ => none

/-- The operator that an assignment applies before it assigns. -/
def assigned? (operator : String) : Option String :=
  match operator with
  | "=" => some ""
  | "+=" => some "+"
  | "-=" => some "-"
  | "*=" => some "*"
  | "/=" => some "/"
  | "%=" => some "%"
  | "<<=" => some "<<"
  | ">>=" => some ">>"
  | "&=" => some "&"
  | "^=" => some "^"
  | "|=" => some "|"
  | _ => none

/-- A result of reading: a formula and the signs after it. -/
abbrev Read := Except ArithmeticFault (Formula × List FormulaSign)

mutual

/-- A formula at the weakest binding: an assignment or a choice. -/
def readAssignment : (rounds : Nat) → List FormulaSign → Read
  | 0, _ => .error (.expected "primary")
  | rounds + 1, .name label :: .operator operator :: rest =>
      match assigned? operator with
      | some applied => do
          let (body, after) ← readAssignment rounds rest
          pure (.assign label applied body, after)
      | none => readChoice rounds (.name label :: .operator operator :: rest)
  | rounds + 1, signs => readChoice rounds signs

/-- A choice, or a formula that binds stronger. -/
def readChoice : (rounds : Nat) → List FormulaSign → Read
  | 0, _ => .error (.expected "primary")
  | rounds + 1, signs => do
      let (test, after) ← readBinary rounds 1 signs
      match after with
      | .operator "?" :: rest =>
          let (yes, after) ← readAssignment rounds rest
          match after with
          | .operator ":" :: rest =>
              let (no, after) ← readChoice rounds rest
              pure (.choose test yes no, after)
          | _ => .error (.expected "':'")
      | _ => pure (test, after)

/-- A formula of operators that bind at least so strongly. -/
def readBinary : (rounds least : Nat) → List FormulaSign → Read
  | 0, _, _ => .error (.expected "primary")
  | rounds + 1, least, signs => do
      let (first, after) ← readPrimary rounds signs
      readFurther rounds least first after

/-- Further operators after a formula. -/
def readFurther : (rounds least : Nat) → Formula → List FormulaSign → Read
  | 0, _, _, _ => .error (.expected "primary")
  | rounds + 1, least, first, .operator operator :: rest =>
      match strength? operator with
      | some strength =>
          if least ≤ strength then do
            let (second, after) ← readBinary rounds (strength + 1) rest
            readFurther rounds least (.binary operator first second) after
          else pure (first, .operator operator :: rest)
      | none => pure (first, .operator operator :: rest)
  | _ + 1, _, first, signs => pure (first, signs)

/-- A number, a name, a formula in brackets, or one of these after a sign. -/
def readPrimary : (rounds : Nat) → List FormulaSign → Read
  | 0, _ => .error (.expected "primary")
  | _ + 1, .number value :: rest => pure (.number value, rest)
  | _ + 1, .name label :: rest => pure (.name label, rest)
  | rounds + 1, .operator "(" :: rest => do
      let (body, after) ← readAssignment rounds rest
      match after with
      | .operator ")" :: rest => pure (body, rest)
      | _ => .error (.expected "')'")
  | rounds + 1, .operator operator :: rest =>
      if ["+", "-", "!", "~"].contains operator then do
        let (body, after) ← readPrimary rounds rest
        pure (.unary operator body, after)
      else .error (.expected "primary")
  | _ + 1, [] => .error (.expected "primary")

end

/-- The formula that a text writes; a blank text writes zero. -/
def ofText (source : String) : Except ArithmeticFault Formula :=
  match signs? (source.length + 1) source.toList with
  | none => .error (.expected "EOF")
  | some [] => .ok (.number 0)
  | some signs => do
      let (formula, after) ← readAssignment (8 * signs.length + 8) signs
      if after.isEmpty then pure formula else .error (.expected "EOF")

/-- The number of a truth value. -/
def truth (flag : Bool) : Int :=
  if flag then 1 else 0

/-- The lowest 64 bits of a number. -/
def lowest (value : Int) : Nat :=
  (value % Int.ofNat (Text.wordCount 64)).toNat

/-- The value of an operator between two numbers. -/
def apply (operator : String) (left right : Int) : Except ArithmeticFault Int :=
  match operator with
  | "+" => pure (wrapped (left + right))
  | "-" => pure (wrapped (left - right))
  | "*" => pure (wrapped (left * right))
  | "/" =>
      if right = 0 then .error .divisionByZero
      else pure (wrapped (left.tdiv right))
  | "%" =>
      if right = 0 then .error .divisionByZero
      else pure (wrapped (left.tmod right))
  | "<<" => pure (wrapped (left * Int.ofNat (Nat.pow 2 (lowest right % 64))))
  | ">>" => pure (left.fdiv (Int.ofNat (Nat.pow 2 (lowest right % 64))))
  | "<" => pure (truth (left < right))
  | "<=" => pure (truth (left ≤ right))
  | ">" => pure (truth (right < left))
  | ">=" => pure (truth (right ≤ left))
  | "==" => pure (truth (left = right))
  | "!=" => pure (truth (left ≠ right))
  | "&" => pure (wrapped (Int.ofNat (Nat.land (lowest left) (lowest right))))
  | "^" => pure (wrapped (Int.ofNat (Nat.xor (lowest left) (lowest right))))
  | "|" => pure (wrapped (Int.ofNat (Nat.lor (lowest left) (lowest right))))
  | _ => pure right

/-- The number that a text writes with an optional sign, between blanks. -/
def ofNumeral? (text : String) : Option Int :=
  let isBlank (c : Char) := c = ' ' || c = '\t' || c = '\n'
  let chars := text.toList.dropWhile isBlank
  let (negative, body) :=
    match chars with
    | '-' :: rest => (true, rest)
    | '+' :: rest => (false, rest)
    | rest => (false, rest)
  if !body.head?.any Char.isDigit then none
  else
    let (value, after) := numeral body
    if after.all isBlank then some (if negative then -value else value) else none

/-- The number that a variable's text stands for; an empty text is zero. -/
def ofVariable (text : String) : Except ArithmeticFault Int :=
  if text.isEmpty then .ok 0
  else
    match ofNumeral? text with
    | some value => .ok value
    | none => .error (.notNumber text)

/-- The value of a formula, where `look` tells the texts of variables, and the
variables that it assigns, last first. -/
def value (look : String → String) :
    Formula → List (String × Int) →
      Except ArithmeticFault (Int × List (String × Int))
  | .number value, set => pure (value, set)
  | .name label, set =>
      match set.find? fun entry => entry.1 == label with
      | some entry => pure (entry.2, set)
      | none => (ofVariable (look label)).map fun value => (value, set)
  | .unary operator body, set => do
      let (inner, set) ← value look body set
      let result :=
        match operator with
        | "-" => wrapped (-inner)
        | "!" => truth (inner = 0)
        | "~" => wrapped (-inner - 1)
        | _ => inner
      pure (result, set)
  | .binary operator left right, set => do
      let (first, set) ← value look left set
      if operator = "&&" && first = 0 then pure (0, set)
      else if operator = "||" && first ≠ 0 then pure (1, set)
      else do
        let (second, set) ← value look right set
        if operator = "&&" || operator = "||" then
          pure (truth (second ≠ 0), set)
        else do
          let result ← apply operator first second
          pure (result, set)
  | .choose test yes no, set => do
      let (first, set) ← value look test set
      if first = 0 then value look no set else value look yes set
  | .assign label operator body, set => do
      let (second, set) ← value look body set
      if operator.isEmpty then pure (second, (label, second) :: set)
      else do
        let first ←
          match set.find? fun entry => entry.1 == label with
          | some entry => pure entry.2
          | none => ofVariable (look label)
        let result ← apply operator first second
        pure (result, (label, result) :: set)

example :
    ((ofText "2 + 3 * 4 - -1 % 2").bind fun formula =>
      (value (fun _ => "") formula []).map Prod.fst).toOption = some 15 := by
  decide +kernel

end Formula

end PackageLayers.Program

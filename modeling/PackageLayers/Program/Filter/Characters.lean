/-
Purpose: Replacing, squeezing and deleting characters.
Main exports: Filter.tr
-/
import PackageLayers.Program.Filter.Basic
import PackageLayers.Program.Pattern

namespace PackageLayers.Program.Filter

/-!
Sets of characters are written with ranges, classes, repetitions and escapes.
-/

/-- A set with escapes replaced; each character comes with a mark whether it was
written as it is. -/
def setChars : (rounds : Nat) → List Char → List (Char × Bool)
  | 0, _ => []
  | rounds + 1, '\\' :: c :: rest =>
      let digits := ((c :: rest).take 3).takeWhile fun d => '0' ≤ d && d ≤ '7'
      if !digits.isEmpty then
        (Char.ofNat (Text.numeral 8 digits % 256), false) ::
          setChars rounds ((c :: rest).drop digits.length)
      else
        let plain :=
          match c with
          | 'n' => '\n'
          | 't' => '\t'
          | 'r' => '\r'
          | 'a' => '\x07'
          | 'b' => '\x08'
          | 'f' => '\x0c'
          | 'v' => '\x0b'
          | other => other
        (plain, false) :: setChars rounds rest
  | rounds + 1, c :: rest => (c, true) :: setChars rounds rest
  | _ + 1, [] => []

/-- The octets that have a property. -/
def octetsWith (name : String) : List Char :=
  ((List.range 256).map Char.ofNat).filter (hasProperty name)

/-- The members of a set, in order. -/
def setMembers : (rounds : Nat) → List (Char × Bool) → List Char
  | 0, _ => []
  | _ + 1, [] => []
  | rounds + 1, ('[', true) :: (':', true) :: rest =>
      match CharClass.name? rest with
      | some (name, after) => octetsWith name ++ setMembers rounds after
      | none => '[' :: setMembers rounds ((':', true) :: rest)
  | rounds + 1, ('[', true) :: ('=', true) :: (c, _) :: ('=', true) ::
      (']', true) :: rest => c :: setMembers rounds rest
  | rounds + 1, ('[', true) :: (c, plain) :: ('*', true) :: rest =>
      let digits := (rest.takeWhile fun item => item.1.isDigit).map Prod.fst
      match rest.drop digits.length with
      | (']', true) :: after =>
          let count :=
            if digits.isEmpty then 256
            else if digits.head? = some '0' then Text.numeral 8 digits
            else Text.decimal digits
          List.replicate (if count = 0 then 256 else count) c ++
            setMembers rounds after
      | _ => '[' :: setMembers rounds ((c, plain) :: ('*', true) :: rest)
  | rounds + 1, (first, _) :: ('-', true) :: (last, _) :: rest =>
      ((List.range (last.toNat + 1 - first.toNat)).map fun step =>
        Char.ofNat (first.toNat + step)) ++ setMembers rounds rest
  | rounds + 1, (c, _) :: rest => c :: setMembers rounds rest

/-- The set that a text writes. -/
def setOf (text : String) : List Char :=
  setMembers (text.length + 1) (setChars (text.length + 1) text.toList)

/-- A text with the repeats of members of a set left out. -/
def squeezed (set : List Char) : List Char → List Char
  | first :: second :: rest =>
      if first = second && set.contains first then
        squeezed set (second :: rest)
      else first :: squeezed set (second :: rest)
  | chars => chars

/-- Replace, squeeze or delete characters. -/
def tr (supply : Supply) (arguments : List String) : Outcome :=
  let table : OptionTable :=
    { flags := "cCdst"
      long := [("complement", 'c'), ("delete", 'd'), ("squeeze-repeats", 's'),
        ("truncate-set1", 't')] }
  withOptions "tr" 1 table arguments fun options =>
    let complement := options.has 'c' || options.has 'C'
    let deletes := options.has 'd'
    let first := setOf (options.operands.headD "")
    let target := (options.operands[1]?).map setOf
    let source :=
      if options.has 't' then first.take ((target.map List.length).getD 0)
      else first
    let isIn (c : Char) := source.contains c != complement
    let replace (set : List Char) (c : Char) : Char :=
      if !isIn c then c
      else if complement then set.getLastD c
      else
        match source.idxOf? c with
        | some place => (set[place]?).getD (set.getLastD c)
        | none => c
    let squeeze (set : List Char) (chars : List Char) : List Char :=
      if options.has 's' then squeezed set chars else chars
    let all := (List.range 256).map Char.ofNat
    let out :=
      if deletes then
        squeeze (target.getD []) (supply.input.filter fun c => !isIn c)
      else
        match target with
        | some set => squeeze set (supply.input.map (replace set))
        | none => squeeze (all.filter isIn) supply.input
    let given := options.operands.headD ""
    let second := (options.operands[1]?).getD ""
    match options.operands with
    | [] => .failure 1 ("tr: missing operand" ++ hintFor "tr")
    | [_] =>
        if deletes && options.has 's' then
          .failure 1
            (s!"tr: missing operand after '{given}'\nTwo strings must be given when both deleting and squeezing repeats." ++
              hintFor "tr")
        else if deletes || options.has 's' then
          { Outcome.wrote out with demand := {} }
        else
          .failure 1
            (s!"tr: missing operand after '{given}'\nTwo strings must be given when translating." ++
              hintFor "tr")
    | [_, _] =>
        if deletes && !options.has 's' then
          .failure 1
            (s!"tr: extra operand '{second}'\nOnly one string may be given when deleting without squeezing repeats." ++
              hintFor "tr")
        else if !deletes && second.isEmpty then
          .failure 1
            "tr: when not truncating set1, string2 must be non-empty"
        else { Outcome.wrote out with demand := {} }
    | _ :: _ :: extra :: _ =>
        .failure 1 (s!"tr: extra operand '{extra}'" ++ hintFor "tr")

end PackageLayers.Program.Filter

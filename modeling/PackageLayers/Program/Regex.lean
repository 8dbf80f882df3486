/-
Purpose: Regular expressions of text filters.
Main exports: Regex, Regex.ofText?, Regex.search?
-/
import PackageLayers.Program.Pattern
import PackageLayers.Text.Hex

namespace PackageLayers.Program

/-!
Regular expressions are those of POSIX, basic and extended, with the usual
additions (`\+`, `\?`, `\|`, `\w`, `\<` and the like in basic ones).  The match
that starts first counts, and of those the one that is found first when every
repetition takes as much as it can; where alternatives occur, the longest one.

Matching goes on with what comes after a part as an argument: a part that matches
hands the place it leads to on, and another way is tried where that fails.
-/

/-- A regular expression. -/
inductive Regex where
  | nothing
  | exactly (c : Char)
  | anyChar
  | oneOf (members : CharClass)
  | lineStart
  | lineEnd
  | boundary (wordBefore wordAfter : Option Bool)
  | edge (inside : Bool)
  | sequence (first second : Regex)
  | either (first second : Regex)
  | repeated (body : Regex) (least : Nat) (most : Option Nat)
  | group (number : Nat) (body : Regex)
  | again (number : Nat)
deriving Repr, Inhabited, DecidableEq

namespace Regex

/-- Whether a character belongs to a word. -/
def isWordChar (c : Char) : Bool :=
  c.isAlphanum || c = '_'

/-- The class of the characters of words, or of all others. -/
def wordClass (negated : Bool) : Regex :=
  .oneOf ⟨negated, [.named "alnum", .range '_' '_']⟩

/-- The class of white space, or of all others. -/
def spaceClass (negated : Bool) : Regex :=
  .oneOf ⟨negated, [.named "space"]⟩

/-- What a backslash and a character stand for, if it is no operator. -/
def escaped (c : Char) : Regex :=
  match c with
  | 'n' => .exactly '\n'
  | 't' => .exactly '\t'
  | 'w' => wordClass false
  | 'W' => wordClass true
  | 's' => spaceClass false
  | 'S' => spaceClass true
  | '<' => .boundary (some false) (some true)
  | '>' => .boundary (some true) (some false)
  | 'b' => .edge true
  | 'B' => .edge false
  | '\x60' => .lineStart
  | '\'' => .lineEnd
  | _ =>
      if c.isDigit && c ≠ '0' then .again (c.toNat - '0'.toNat) else .exactly c

/-- The characters inside square brackets with the escapes for line ends and tabs
replaced. -/
def bracketChars : List Char → List (Char × Bool)
  | '\\' :: 'n' :: rest => ('\n', true) :: bracketChars rest
  | '\\' :: 't' :: rest => ('\t', true) :: bracketChars rest
  | '\\' :: ']' :: rest => ('\\', true) :: (']', true) :: bracketChars rest
  | c :: rest => (c, true) :: bracketChars rest
  | [] => []

/-- A class after its opening bracket, and what follows it. -/
def bracket? (chars : List Char) : Option (Regex × List Char) :=
  let (negated, body) :=
    match chars with
    | '^' :: rest => (true, rest)
    | rest => (false, rest)
  (CharClass.items? (body.length + 1) true [] (bracketChars body)).map
    fun (items, after) => (.oneOf ⟨negated, items⟩, after.map Prod.fst)

/-- A sign of a regular expression. -/
inductive Sign where
  | atom (regex : Regex)
  | openGroup
  | closeGroup
  | alternative
  | repetition (least : Nat) (most : Option Nat)
  | start
  | finish
  | star
deriving Repr, Inhabited, DecidableEq

/-- The bounds of a repetition up to the brace that ends them, which stands after
a backslash in basic expressions. -/
def bounds? (extended : Bool) (chars : List Char) : Option (Sign × List Char) :=
  let least := chars.takeWhile Char.isDigit
  let closed (most : Option Nat) (after : List Char) :=
    let sign := Sign.repetition (Text.decimal least) most
    match extended, after with
    | true, '\x7d' :: rest => some (sign, rest)
    | false, '\\' :: '\x7d' :: rest => some (sign, rest)
    | _, _ => none
  match chars.drop least.length with
  | ',' :: rest =>
      let most := rest.takeWhile Char.isDigit
      closed (if most.isEmpty then none else some (Text.decimal most))
        (rest.drop most.length)
  | after =>
      if least.isEmpty then none else closed (some (Text.decimal least)) after

/-- The first sign of a regular expression, and what follows it. -/
def sign? (extended : Bool) : List Char → Option (Sign × List Char)
  | [] => none
  | '\\' :: c :: rest =>
      match extended, c with
      | false, '(' => some (.openGroup, rest)
      | false, ')' => some (.closeGroup, rest)
      | false, '|' => some (.alternative, rest)
      | false, '+' => some (.repetition 1 none, rest)
      | false, '?' => some (.repetition 0 (some 1), rest)
      | false, '\x7b' => bounds? false rest
      | _, _ => some (.atom (escaped c), rest)
  | '[' :: rest => (bracket? rest).map fun (regex, after) => (.atom regex, after)
  | c :: rest =>
      match extended, c with
      | _, '.' => some (.atom .anyChar, rest)
      | _, '*' => some (.star, rest)
      | _, '^' => some (.start, rest)
      | _, '$' => some (.finish, rest)
      | true, '(' => some (.openGroup, rest)
      | true, ')' => some (.closeGroup, rest)
      | true, '|' => some (.alternative, rest)
      | true, '+' => some (.repetition 1 none, rest)
      | true, '?' => some (.repetition 0 (some 1), rest)
      | true, '\x7b' =>
          (bounds? true rest).or (some (.atom (.exactly '\x7b'), rest))
      | _, _ => some (.atom (.exactly c), rest)

/-- The signs of a regular expression. -/
def signs? (extended : Bool) : (rounds : Nat) → List Char → Option (List Sign)
  | 0, _ => none
  | _ + 1, [] => some []
  | rounds + 1, chars => do
      let (sign, after) ← sign? extended chars
      let later ← signs? extended rounds after
      pure (sign :: later)

/-- Two expressions one after the other. -/
def followedBy (first second : Regex) : Regex :=
  match first, second with
  | .nothing, _ => second
  | _, .nothing => first
  | _, _ => .sequence first second

/-- An expression with the repetitions that stand after it. -/
def withRepetitions (regex : Regex) : List Sign → Regex × List Sign
  | .star :: rest => withRepetitions (.repeated regex 0 none) rest
  | .repetition least most :: rest =>
      withRepetitions (.repeated regex least most) rest
  | signs => (regex, signs)

/-- Whether a basic expression, or a part of it, ends here. -/
def endsBranch : List Sign → Bool
  | [] => true
  | .closeGroup :: _ => true
  | .alternative :: _ => true
  | _ => false

mutual

/-- Alternatives up to the end of a group; `groups` are opened before. -/
def readEither (extended : Bool) :
    (rounds : Nat) → (groups : Nat) → List Sign →
      Option (Regex × Nat × List Sign)
  | 0, _, _ => none
  | rounds + 1, groups, signs => do
      let (first, groups, after) ←
        readBranch extended rounds groups true .nothing signs
      match after with
      | .alternative :: rest =>
          let (second, groups, after) ← readEither extended rounds groups rest
          pure (.either first second, groups, after)
      | _ => pure (first, groups, after)

/-- Parts one after the other, after those of `before`; `fresh` says that none
stands before but a mark of the start. -/
def readBranch (extended : Bool) :
    (rounds : Nat) → (groups : Nat) → (fresh : Bool) → (before : Regex) →
      List Sign → Option (Regex × Nat × List Sign)
  | 0, _, _, _, _ => none
  | rounds + 1, groups, fresh, before, signs =>
      let go (regex : Regex) (after : List Sign) :=
        let (whole, rest) := withRepetitions regex after
        readBranch extended rounds groups false (followedBy before whole) rest
      match signs with
      | .atom regex :: rest => go regex rest
      | .openGroup :: rest => do
          let number := groups + 1
          let (body, groups, after) ← readEither extended rounds number rest
          match after with
          | .closeGroup :: after =>
              let (whole, rest) := withRepetitions (.group number body) after
              readBranch extended rounds groups false (followedBy before whole)
                rest
          | _ => none
      | .start :: rest =>
          if extended || fresh then
            readBranch extended rounds groups true
              (followedBy before .lineStart) rest
          else go (.exactly '^') rest
      | .finish :: rest =>
          if extended || endsBranch rest then
            readBranch extended rounds groups false
              (followedBy before .lineEnd) rest
          else go (.exactly '$') rest
      | .star :: rest =>
          if fresh then go (.exactly '*') rest
          else readBranch extended rounds groups fresh before rest
      | .repetition _ _ :: rest =>
          readBranch extended rounds groups fresh before rest
      | _ => some (before, groups, signs)

end

/-- The expression that characters write. -/
def ofText? (extended : Bool) (chars : List Char) : Option Regex := do
  let signs ← signs? extended (chars.length + 1) chars
  let (regex, _, after) ← readEither extended (4 * signs.length + 4) 0 signs
  if after.isEmpty then pure regex else none

/-- How many more groups are opened than closed by signs, and whether one is closed
that was not opened. -/
def openGroups (signs : List Sign) : Int × Bool :=
  signs.foldl
    (fun (depth, isWrong) sign =>
      match sign with
      | .openGroup => (depth + 1, isWrong)
      | .closeGroup => (depth - 1, isWrong || depth ≤ 0)
      | _ => (depth, isWrong))
    (0, false)

/-- The signs up to the first that cannot be read, and what follows them. -/
def readableSigns (extended : Bool) : (rounds : Nat) → List Char →
    List Sign × List Char
  | 0, rest => ([], rest)
  | rounds + 1, chars =>
      match sign? extended chars with
      | none => ([], chars)
      | some (sign, after) =>
          let (signs, rest) := readableSigns extended rounds after
          (sign :: signs, rest)

/-- What is wrong with characters that write no expression. -/
def faultOf (extended : Bool) (chars : List Char) : String :=
  let (signs, rest) := readableSigns extended (chars.length + 1) chars
  match rest with
  | '[' :: _ => "Unmatched [, [^, [:, [., or [="
  | ['\\'] => "Trailing backslash"
  | '\\' :: '\x7b' :: _ => "Unmatched \\\x7b"
  | _ =>
      let (depth, isWrong) := openGroups signs
      if isWrong then "Unmatched ) or \\)"
      else if 0 < depth then "Unmatched ( or \\("
      else "Invalid preceding regular expression"

/-- The expression that stands for some characters. -/
def ofChars : List Char → Regex
  | [] => .nothing
  | [c] => .exactly c
  | c :: rest => .sequence (.exactly c) (ofChars rest)

/-- The number of parts of an expression. -/
def size : Regex → Nat
  | .sequence first second => first.size + second.size + 1
  | .either first second => first.size + second.size + 1
  | .repeated body least most => body.size + least + most.getD 0 + 1
  | .group _ body => body.size + 1
  | _ => 1

/-- Whether an expression has alternatives. -/
def hasChoice : Regex → Bool
  | .either _ _ => true
  | .sequence first second => first.hasChoice || second.hasChoice
  | .repeated body _ _ => body.hasChoice
  | .group _ body => body.hasChoice
  | _ => false

/-- A place in a text: how many characters stand before it, the one just before
it, and those after it, with the groups that were matched. -/
structure Spot where
  place : Nat
  previous : Option Char
  rest : List Char
  groups : List (Nat × List Char)
deriving Repr, Inhabited

/-- How characters are compared, and which of several matches counts. -/
structure Manner where
  ignoreCase : Bool
  longest : Bool
deriving Repr, Inhabited

/-- Of two ways to go on the one that counts. -/
def Manner.better (manner : Manner) (first : Option Spot)
    (second : Unit → Option Spot) : Option Spot :=
  match first with
  | none => second ()
  | some found =>
      if !manner.longest then some found
      else
        match second () with
        | none => some found
        | some other => if found.place < other.place then some other else found

/-- Whether a character is the wanted one. -/
def Manner.same (manner : Manner) (wanted c : Char) : Bool :=
  c = wanted || (manner.ignoreCase && c.toLower = wanted.toLower)

/-- Whether a character is a member of a class. -/
def Manner.member (manner : Manner) (members : CharClass) (c : Char) : Bool :=
  members.contains c ||
    (manner.ignoreCase &&
      (members.contains c.toLower || members.contains c.toUpper))

/-- The place after the next character. -/
def Spot.next (spot : Spot) (c : Char) (rest : List Char) : Spot :=
  { spot with place := spot.place + 1, previous := some c, rest := rest }

/-- The place after a text, if it stands here. -/
def Spot.after? (manner : Manner) (spot : Spot) : List Char → Option Spot
  | [] => some spot
  | wanted :: more =>
      match spot.rest with
      | c :: rest =>
          if manner.same wanted c then (spot.next c rest).after? manner more
          else none
      | [] => none

/-- Whether a part of a boundary is as wanted. -/
def isAsWanted (wanted : Option Bool) (c : Option Char) : Bool :=
  wanted.all fun flag => c.any isWordChar == flag

/-- Match an expression at a place, and go on. -/
def run (manner : Manner) :
    (rounds : Nat) → Regex → Spot → (Spot → Option Spot) → Option Spot
  | 0, _, _, _ => none
  | rounds + 1, regex, spot, goOn =>
      match regex with
      | .nothing => goOn spot
      | .exactly wanted =>
          match spot.rest with
          | c :: rest =>
              if manner.same wanted c then goOn (spot.next c rest) else none
          | [] => none
      | .anyChar =>
          match spot.rest with
          | c :: rest => goOn (spot.next c rest)
          | [] => none
      | .oneOf members =>
          match spot.rest with
          | c :: rest =>
              if manner.member members c then goOn (spot.next c rest) else none
          | [] => none
      | .lineStart => if spot.place = 0 then goOn spot else none
      | .lineEnd => if spot.rest.isEmpty then goOn spot else none
      | .boundary wordBefore wordAfter =>
          if isAsWanted wordBefore spot.previous &&
              isAsWanted wordAfter spot.rest.head? then goOn spot
          else none
      | .edge inside =>
          if (spot.previous.any isWordChar != spot.rest.head?.any isWordChar)
              == inside then goOn spot
          else none
      | .sequence first second =>
          run manner rounds first spot fun between =>
            run manner rounds second between goOn
      | .either first second =>
          manner.better (run manner rounds first spot goOn) fun _ =>
            run manner rounds second spot goOn
      | .repeated body least most =>
          let stop := fun (_ : Unit) => if least = 0 then goOn spot else none
          if most = some 0 then goOn spot
          else
            manner.better
              (run manner rounds body spot fun later =>
                if later.place = spot.place && least = 0 then none
                else
                  run manner rounds
                    (.repeated body (least - 1) (most.map (· - 1))) later goOn)
              stop
      | .group number body =>
          run manner rounds body spot fun later =>
            let text := spot.rest.take (later.place - spot.place)
            goOn { later with groups := (number, text) :: later.groups }
      | .again number =>
          match spot.groups.find? fun entry => entry.1 == number with
          | some (_, text) => (spot.after? manner text).bind goOn
          | none => none

/-- A match: the characters before it, its own, the groups in it, and the place
after it. -/
structure Found where
  before : List Char
  text : List Char
  groups : List (Nat × List Char)
  after : Spot
deriving Repr, Inhabited

/-- The first match at or after a place; `passed` are the characters between,
last first. -/
def searchFrom (manner : Manner) (regex : Regex) (rounds : Nat)
    (accept : Spot → Spot → Bool) :
    (passed : List Char) → (previous : Option Char) → (place : Nat) →
      List Char → Option Found
  | passed, previous, place, chars =>
      let start : Spot := ⟨place, previous, chars, []⟩
      let stop (later : Spot) := if accept start later then some later else none
      match run manner rounds regex start stop with
      | some later =>
          some
            { before := passed.reverse
              text := chars.take (later.place - place)
              groups := later.groups
              after := later }
      | none =>
          match chars with
          | [] => none
          | c :: rest =>
              searchFrom manner regex rounds accept (c :: passed) (some c)
                (place + 1) rest

/-- The first match at or after a place of a text, which `accept` may refuse. -/
def searchAt? (regex : Regex) (ignoreCase : Bool) (accept : Spot → Spot → Bool)
    (spot : Spot) : Option Found :=
  searchFrom ⟨ignoreCase, regex.hasChoice⟩ regex
    ((regex.size + 2) * (spot.rest.length + 2)) accept [] spot.previous
    spot.place spot.rest

/-- The first match in a text. -/
def search? (regex : Regex) (ignoreCase : Bool) (chars : List Char) :
    Option Found :=
  searchAt? regex ignoreCase (fun _ _ => true) ⟨0, none, chars, []⟩

example :
    ((ofText? false "a\\(b*\\)c\\1$".toList).bind fun regex =>
      (search? regex false "xabbcbb".toList).map fun found =>
        (found.before, found.text)) =
      some (['x'], "abbcbb".toList) := by
  decide +kernel

end Regex

end PackageLayers.Program

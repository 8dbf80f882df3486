/-
Purpose: Brackets in code: partners, depth, and the bracket around a position.
Main exports: Bracket, Source.partner?, Source.innerPositions, Source.elements,
  Source.enclosing?
-/
import PackageLayers.Source.Basic

namespace PackageLayers

/-!
Three walks over the code of a range answer three questions.

* `partner?` keeps the kinds of the open brackets and asks which bracket closes
  a given one; a closing bracket of the wrong kind ends the walk without answer.
* `levelPositions` and `commas` keep the number of open brackets of any kind and
  ask what stands directly inside a pair of brackets.
* `openBefore` keeps the positions of the open brackets and asks which bracket
  is innermost at a position; a closing bracket without partner is passed over.
-/

/-- The kinds of brackets. -/
inductive BracketKind where
  | round
  | square
  | curly
deriving Repr, Inhabited, DecidableEq

/-- A bracket and the side on which it stands. -/
inductive Bracket where
  | opening (kind : BracketKind)
  | closing (kind : BracketKind)
deriving Repr, Inhabited, DecidableEq

/-- The bracket that a character is. -/
def Bracket.ofChar? (c : Char) : Option Bracket :=
  if c = '(' then some (.opening .round)
  else if c = ')' then some (.closing .round)
  else if c = '[' then some (.opening .square)
  else if c = ']' then some (.closing .square)
  else if c = '\x7b' then some (.opening .curly)
  else if c = '\x7d' then some (.closing .curly)
  else none

namespace Source

/-- A pair of brackets by position. -/
structure Span where
  start : Nat
  stop : Nat
deriving Repr, Inhabited, DecidableEq

/-- The position where the last of the open brackets is closed.  The kinds of
the open brackets are listed innermost first. -/
def closingPosition? : List BracketKind → List (Nat × Char) → Option Nat
  | _, [] => none
  | pending, (position, c) :: rest =>
      match Bracket.ofChar? c, pending with
      | none, pending => closingPosition? pending rest
      | some (.opening kind), pending => closingPosition? (kind :: pending) rest
      | some (.closing _), [] => none
      | some (.closing kind), innermost :: outer =>
          if kind = innermost then
            match outer with
            | [] => some position
            | _ :: _ => closingPosition? outer rest
          else none

/-- The position of the bracket that closes the one at `start`, where `start`
is the position of an opening bracket in code. -/
def partner? (source : Source) (start : Nat) : Option Nat :=
  match (source.codeAt? start).bind Bracket.ofChar? with
  | some (.opening _) =>
      closingPosition? [] (source.codeChars start source.size)
  | _ => none

/-- The number of open brackets after one more character. -/
def depthAfter (depth : Nat) (c : Char) : Nat :=
  match Bracket.ofChar? c with
  | some (.opening _) => depth + 1
  | some (.closing _) => depth - 1
  | none => depth

/-- Whether a character is a closing bracket. -/
def isClosing (c : Char) : Bool :=
  match Bracket.ofChar? c with
  | some (.closing _) => true
  | _ => false

/-- The code positions at which no bracket is open, those of closing brackets left
out.  Positions inside of a character are no brackets. -/
def levelPositions (source : Source) : (depth : Nat) → List Nat → List Nat
  | _, [] => []
  | depth, position :: rest =>
      if source.isCode position then
        match source.charAt? position with
        | some c =>
            let later := levelPositions source (depthAfter depth c) rest
            if depth = 0 ∧ !isClosing c then position :: later else later
        | none =>
            let later := levelPositions source depth rest
            if depth = 0 then position :: later else later
      else levelPositions source depth rest

/-- The code positions directly inside a pair of brackets. -/
def innerPositions (source : Source) (span : Span) : List Nat :=
  source.levelPositions 0
    (positions (span.start + 1) (min span.stop source.size))

/-- The positions of commas at which no bracket is open. -/
def commas : (depth : Nat) → List (Nat × Char) → List Nat
  | _, [] => []
  | depth, (position, c) :: rest =>
      let later := commas (depthAfter depth c) rest
      if depth = 0 ∧ c = ',' then position :: later else later

/-- The ranges between a start, the given positions, and a stop. -/
def slots (start stop : Nat) : List Nat → List Span
  | [] => [⟨start, stop⟩]
  | cut :: rest => ⟨start, cut⟩ :: slots (cut + 1) stop rest

/-- A range without the separators and comments at its ends; none if nothing
else is in it. -/
def trimmed? (source : Source) (range : Span) : Option Span := do
  let first ← source.nextSignificant? range.start range.stop
  let last ← source.lastSignificant? first range.stop
  pure ⟨first, last + 1⟩

/-- What stands between the commas directly inside a pair of brackets, without
separators and comments around it.  Empty places, such as the one after a last
comma, are left out. -/
def elements (source : Source) (span : Span) : List Span :=
  (slots (span.start + 1) span.stop
    (commas 0 (source.codeChars (span.start + 1) span.stop))).filterMap
      source.trimmed?

/-- The positions of the brackets that are open after some code, innermost
first. -/
def openBefore : List Nat → List (Nat × Char) → List Nat
  | pending, [] => pending
  | pending, (position, c) :: rest =>
      match Bracket.ofChar? c with
      | some (.opening _) => openBefore (position :: pending) rest
      | some (.closing _) => openBefore pending.tail rest
      | none => openBefore pending rest

/-- The innermost bracket that is open before a position. -/
def enclosing? (source : Source) (position : Nat) : Option Nat :=
  (openBefore [] (source.codeChars 0 position)).head?

end Source

end PackageLayers

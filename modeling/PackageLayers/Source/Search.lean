/-
Purpose: Finding words, calls, labels and lines in source text.
Main exports: Source.occurrences, Source.memberCalls, Source.label?,
  Source.lineIndent, Source.spansLines, Source.lineEnd
-/
import PackageLayers.Source.Bracket

namespace PackageLayers.Source

/-!
Words are looked for in code only.  A word that is part of a longer name does
not count where a name is meant, so the characters next to it are looked at.
-/

/-- Positions of which each is at least `width` after the one before it. -/
def withoutOverlaps (width : Nat) : (free : Nat) → List Nat → List Nat
  | _, [] => []
  | free, position :: rest =>
      if position < free then withoutOverlaps width free rest
      else position :: withoutOverlaps width (position + width) rest

/-- The positions of a range where a text stands in code, from left to right and
without overlaps.  An empty text stands nowhere. -/
def occurrences (source : Source) (text : String) (range : Span) : List Nat :=
  let print := footprint text
  let stop := min range.stop source.size
  if print.isEmpty then []
  else
    withoutOverlaps print.length range.start
      ((positions range.start (stop + 1 - print.length)).filter fun position =>
        source.isCodeRange position (position + print.length) &&
          source.matchesAt print position)

/-- A call of a member: the position of its dot and of its parenthesis. -/
structure MemberCall where
  dot : Nat
  paren : Nat
deriving Repr, Inhabited, DecidableEq

/-- The whole text as a range. -/
def whole (source : Source) : Span := ⟨0, source.size⟩

/-- The calls of the member `name` whose dot and name lie in a range. -/
def memberCalls (source : Source) (name : String) (range : Span) :
    List MemberCall :=
  let pattern := "." ++ name
  (source.occurrences pattern range).filterMap fun dot => do
    let after := dot + (footprint pattern).length
    if source.isNameAt after then none
    else
      let paren ← source.nextSignificant? after source.size
      if source.charAt? paren = some '(' then pure ⟨dot, paren⟩ else none

/-- The position after the colon of an argument label at a position. -/
def labelAt? (source : Source) (span : Span) (print : List (Option Char))
    (position : Nat) : Option Nat :=
  let after := position + print.length
  if span.stop < after || !source.matchesAt print position then none
  else if 0 < position && source.isNameAt (position - 1) then none
  else if after < span.stop && source.isNameAt after then none
  else
    match source.nextSignificant? after span.stop with
    | some colon =>
        if source.charAt? colon = some ':' then some (colon + 1) else none
    | none => none

/-- The position after the colon of the first argument with a label directly
inside a pair of brackets. -/
def label? (source : Source) (span : Span) (label : String) : Option Nat :=
  (source.innerPositions span).findSome? (source.labelAt? span (footprint label))

/-- The start of the line that holds a position. -/
def lineStart (source : Source) (position : Nat) : Nat :=
  match (positions 0 (min position source.size)).reverse.find? fun before =>
      source.charAt? before == some '\n' with
  | some found => found + 1
  | none => 0

/-- Whether a character indents a line. -/
def isIndent (c : Char) : Bool :=
  c = ' ' || c = '\t'

/-- The spaces and tabs that start the line that holds a position. -/
def lineIndent (source : Source) (position : Nat) : String :=
  String.ofList
    ((source.slice (source.lineStart position) source.size).toList.takeWhile
      isIndent)

/-- Whether a line break stands in a range. -/
def spansLines (source : Source) (start stop : Nat) : Bool :=
  (positions start (min stop source.size)).any fun position =>
    source.charAt? position == some '\n'

/-- The end of the line that holds a position: its line break, or the end of the
text.  From inside a character it is the end of the text. -/
def lineEnd (source : Source) (position : Nat) : Nat :=
  if source.isBoundary position then
    ((positions position source.size).find? fun later =>
      source.charAt? later == some '\n').getD source.size
  else source.size

end PackageLayers.Source

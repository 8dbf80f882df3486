/-
Purpose: Classes of characters, and patterns of file names.
Main exports: CharClass, Pattern, Pattern.ofMarked, Pattern.accepts
-/
import PackageLayers.Text.Octets

namespace PackageLayers.Program

/-!
A pattern is matched against a whole text: `*` stands for any text, `?` for any
character, and a class in square brackets for one of its members.  A character
of a pattern that is quoted stands for itself.
-/

/-- A part of a class in square brackets. -/
inductive ClassItem where
  | range (first last : Char)
  | named (name : String)
deriving Repr, Inhabited, DecidableEq

/-- Whether a character has a property that goes by a name. -/
def hasProperty (name : String) (c : Char) : Bool :=
  match name with
  | "alpha" => c.isAlpha
  | "digit" => c.isDigit
  | "alnum" => c.isAlphanum
  | "upper" => c.isUpper
  | "lower" => c.isLower
  | "space" => " \t\n\x0b\x0c\r".toList.contains c
  | "blank" => c = ' ' || c = '\t'
  | "punct" => '!' ≤ c && c ≤ '~' && !c.isAlphanum
  | "print" => ' ' ≤ c && c ≤ '~'
  | "graph" => '!' ≤ c && c ≤ '~'
  | "cntrl" => c < ' ' || c = '\x7f'
  | "xdigit" => c.isDigit || ('a' ≤ c && c ≤ 'f') || ('A' ≤ c && c ≤ 'F')
  | _ => false

/-- A class of characters. -/
structure CharClass where
  negated : Bool
  items : List ClassItem
deriving Repr, Inhabited, DecidableEq

namespace CharClass

/-- Whether a character is a member. -/
def contains (members : CharClass) (c : Char) : Bool :=
  (members.items.any fun
    | .range first last => first ≤ c && c ≤ last
    | .named name => hasProperty name c) != members.negated

/-- The name between `[:` and `:]`, and what follows. -/
def name? (chars : List (Char × Bool)) :
    Option (String × List (Char × Bool)) :=
  let name := chars.takeWhile fun entry => entry.1.isAlpha
  match chars.drop name.length with
  | (':', _) :: (']', _) :: rest =>
      some (String.ofList (name.map Prod.fst), rest)
  | _ => none

/-- The items of a class up to its end, of which some are read; a bracket that
comes first is a member.  Each character comes with a mark whether it is special. -/
def items? : (rounds : Nat) → (first : Bool) → List ClassItem →
    List (Char × Bool) → Option (List ClassItem × List (Char × Bool))
  | 0, _, _, _ => none
  | _ + 1, _, _, [] => none
  | rounds + 1, first, done, (c, special) :: rest =>
      if c = ']' && special && !first then some (done.reverse, rest)
      else
        match if c = '[' && special then rest else [] with
        | (':', _) :: more =>
            match name? more with
            | some (name, after) =>
                items? rounds false (.named name :: done) after
            | none => items? rounds false (.range c c :: done) rest
        | _ =>
            match rest with
            | ('-', true) :: (last, quoting) :: after =>
                if last = ']' && quoting then
                  items? rounds false (.range c c :: done) rest
                else items? rounds false (.range c last :: done) after
            | _ => items? rounds false (.range c c :: done) rest

/-- The class after an opening bracket, and what follows it. -/
def ofMarked? (chars : List (Char × Bool)) :
    Option (CharClass × List (Char × Bool)) :=
  let (negated, body) :=
    match chars with
    | ('!', true) :: rest => (true, rest)
    | ('^', true) :: rest => (true, rest)
    | rest => (false, rest)
  (items? (body.length + 1) true [] body).map fun (items, after) =>
    (⟨negated, items⟩, after)

end CharClass

/-- A part of a pattern. -/
inductive PatternPart where
  | exactly (c : Char)
  | one
  | oneOf (members : CharClass)
  | many
deriving Repr, Inhabited, DecidableEq

/-- A pattern. -/
abbrev Pattern := List PatternPart

namespace Pattern

/-- The pattern that characters write; each comes with a mark whether it is
special. -/
def ofMarkedWithin : (rounds : Nat) → List (Char × Bool) → Pattern
  | 0, _ => []
  | _ + 1, [] => []
  | rounds + 1, (c, special) :: rest =>
      if !special then .exactly c :: ofMarkedWithin rounds rest
      else if c = '*' then .many :: ofMarkedWithin rounds rest
      else if c = '?' then .one :: ofMarkedWithin rounds rest
      else if c = '[' then
        match CharClass.ofMarked? rest with
        | some (members, after) => .oneOf members :: ofMarkedWithin rounds after
        | none => .exactly c :: ofMarkedWithin rounds rest
      else if c = '\\' then
        match rest with
        | (next, _) :: after => .exactly next :: ofMarkedWithin rounds after
        | [] => [.exactly c]
      else .exactly c :: ofMarkedWithin rounds rest

/-- The pattern that characters write; each comes with a mark whether it is
special. -/
def ofMarked (chars : List (Char × Bool)) : Pattern :=
  ofMarkedWithin (chars.length + 1) chars

/-- What can be left of a text after any part of it is taken away in front, the
least left first. -/
def remainders : List Char → List (List Char)
  | [] => [[]]
  | c :: rest => remainders rest ++ [c :: rest]

/-- Whether a pattern accepts a text. -/
def accepts : Pattern → List Char → Bool
  | [], chars => chars.isEmpty
  | .many :: parts, chars => (remainders chars).any (accepts parts)
  | .one :: parts, chars =>
      match chars with
      | _ :: rest => accepts parts rest
      | [] => false
  | .oneOf members :: parts, chars =>
      match chars with
      | c :: rest => members.contains c && accepts parts rest
      | [] => false
  | .exactly wanted :: parts, chars =>
      match chars with
      | c :: rest => c = wanted && accepts parts rest
      | [] => false

/-- Whether a pattern has a part that is not a character. -/
def isOpen (pattern : Pattern) : Bool :=
  pattern.any fun
    | .exactly _ => false
    | _ => true

/-- The lengths up to one, from the least or from the greatest. -/
def lengths (longest : Bool) (size : Nat) : List Nat :=
  if longest then (List.range (size + 1)).reverse else List.range (size + 1)

/-- A text without the shortest or longest part at its start that a pattern
accepts. -/
def dropFront (pattern : Pattern) (longest : Bool) (chars : List Char) :
    List Char :=
  match (lengths longest chars.length).find? fun size =>
      pattern.accepts (chars.take size) with
  | some size => chars.drop size
  | none => chars

/-- A text without the shortest or longest part at its end that a pattern
accepts. -/
def dropBack (pattern : Pattern) (longest : Bool) (chars : List Char) :
    List Char :=
  match (lengths longest chars.length).find? fun size =>
      pattern.accepts (chars.drop (chars.length - size)) with
  | some size => chars.take (chars.length - size)
  | none => chars

/-- The pattern that a text writes without quotes. -/
def ofText (text : String) : Pattern :=
  ofMarked (text.toList.map fun c => (c, true))

example : (ofText "a*[!b-d]?").accepts "axxez".toList = true := by
  decide +kernel
example : (ofText "*/").dropFront true "a/b/c".toList = ['c'] := by
  decide +kernel

end Pattern

end PackageLayers.Program

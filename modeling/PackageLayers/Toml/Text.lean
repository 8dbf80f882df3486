/-
Purpose: Strings and keys of TOML documents.
Main exports: Toml.string?, Toml.key?, Toml.skipBlanks, Toml.lineEnd?
-/
import PackageLayers.Text.Fold
import PackageLayers.Text.Hex

namespace PackageLayers.Toml

/-!
There are four kinds of strings: basic ones with escapes and literal ones
without, each on one line or, between triple quotes, on several.  Every reader
returns what it read and the characters after it, and is recursive on the
characters.

Control characters other than the tab occur nowhere, and a carriage return only
in front of a line feed.
-/

/-- Whether a character is a blank of a line. -/
def isSpace (c : Char) : Bool :=
  c = ' ' || c = '\t'

/-- Whether a character may stand in comments and strings. -/
def isPlain (c : Char) : Bool :=
  c = '\t' || (' ' ≤ c && c ≠ '\x7f')

/-- The characters after blanks. -/
def skipBlanks (chars : List Char) : List Char :=
  chars.dropWhile isSpace

/-- The characters after a line break or at the end of the text. -/
def lineBreak? : List Char → Option (List Char)
  | [] => some []
  | '\n' :: rest => some rest
  | '\r' :: '\n' :: rest => some rest
  | _ => none

/-- The characters after blanks and a comment. -/
def skipComment (chars : List Char) : List Char :=
  match skipBlanks chars with
  | '#' :: rest => rest.dropWhile isPlain
  | rest => rest

/-- The characters after the end of a line, which may hold blanks and a
comment. -/
def lineEnd? (chars : List Char) : Option (List Char) :=
  lineBreak? (skipComment chars)

/-- The characters after all blanks, comments and line breaks; `rounds` bounds
the number of lines. -/
def skipLines : (rounds : Nat) → List Char → List Char
  | 0, chars => chars
  | rounds + 1, chars =>
      match skipComment chars with
      | [] => []
      | rest =>
          match lineBreak? rest with
          | some below => skipLines rounds below
          | none => rest

/-- The character that a short escape stands for. -/
def escape? : Char → Option Char
  | 'b' => some '\x08'
  | 't' => some '\t'
  | 'n' => some '\n'
  | 'f' => some '\x0c'
  | 'r' => some '\r'
  | 'e' => some '\x1b'
  | '"' => some '"'
  | '\\' => some '\\'
  | _ => none

/-- The character whose code point is written in hexadecimal. -/
def codePoint? (digits : List Char) : Option Char := do
  let values ← digits.mapM Text.hexDigit?
  let code := values.foldl (fun total value => 16 * total + value) 0
  if code.isValidChar then pure (Char.ofNat code) else none

/-- A result of reading: the characters of a string and those after it. -/
abbrev Cut := Option (List Char × List Char)

/-- A string with one more character in front. -/
def Cut.push (first : Option Char) (rest : Cut) : Cut := do
  let c ← first
  let (chars, after) ← rest
  pure (c :: chars, after)

/-- The rest of a basic string on one line. -/
def basic : List Char → Cut
  | [] => none
  | '"' :: rest => some ([], rest)
  | '\\' :: 'x' :: a :: b :: rest => (basic rest).push (codePoint? [a, b])
  | '\\' :: 'u' :: a :: b :: c :: d :: rest =>
      (basic rest).push (codePoint? [a, b, c, d])
  | '\\' :: 'U' :: a :: b :: c :: d :: e :: f :: g :: h :: rest =>
      (basic rest).push (codePoint? [a, b, c, d, e, f, g, h])
  | '\\' :: c :: rest => (basic rest).push (escape? c)
  | c :: rest => (basic rest).push (if isPlain c then some c else none)

/-- The rest of a literal string on one line. -/
def literal : List Char → Cut
  | [] => none
  | '\'' :: rest => some ([], rest)
  | c :: rest => (literal rest).push (if isPlain c then some c else none)

/-- The end of a string between triple quotes: up to two more quotes belong to
the string. -/
def tripleEnd (quote : Char) : List Char → List Char × List Char
  | first :: second :: rest =>
      if first = quote then
        if second = quote then ([quote, quote], rest)
        else ([quote], second :: rest)
      else ([], first :: second :: rest)
  | [only] => if only = quote then ([quote], []) else ([], [only])
  | [] => ([], [])

/-- Whether a line ends here but for blanks. -/
def endsLine (chars : List Char) : Bool :=
  match skipBlanks chars with
  | '\n' :: _ => true
  | '\r' :: '\n' :: _ => true
  | _ => false

/-- The rest of a basic string between triple quotes.  While `folding`, which a
backslash at the end of a line begins, blanks and line breaks are left out. -/
def basicLines : (folding : Bool) → List Char → Cut
  | _, [] => none
  | _, '"' :: '"' :: '"' :: rest => some (tripleEnd '"' rest)
  | _, '\\' :: 'x' :: a :: b :: rest =>
      (basicLines false rest).push (codePoint? [a, b])
  | _, '\\' :: 'u' :: a :: b :: c :: d :: rest =>
      (basicLines false rest).push (codePoint? [a, b, c, d])
  | _, '\\' :: 'U' :: a :: b :: c :: d :: e :: f :: g :: h :: rest =>
      (basicLines false rest).push (codePoint? [a, b, c, d, e, f, g, h])
  | _, '\\' :: c :: rest =>
      if endsLine (c :: rest) then basicLines true rest
      else (basicLines false rest).push (escape? c)
  | folding, '\r' :: '\n' :: rest =>
      if folding then basicLines true rest
      else ((basicLines false rest).push (some '\n')).push (some '\r')
  | folding, c :: rest =>
      if folding && (isSpace c || c = '\n') then basicLines true rest
      else
        (basicLines false rest).push
          (if isPlain c || c = '\n' then some c else none)

/-- The rest of a literal string between triple quotes. -/
def literalLines : List Char → Cut
  | [] => none
  | '\'' :: '\'' :: '\'' :: rest => some (tripleEnd '\'' rest)
  | '\r' :: '\n' :: rest =>
      ((literalLines rest).push (some '\n')).push (some '\r')
  | c :: rest =>
      (literalLines rest).push
        (if isPlain c || c = '\n' then some c else none)

/-- The characters after a line break, if there is one. -/
def skipBreak (chars : List Char) : List Char :=
  (lineBreak? chars).getD chars

/-- A read string as a text. -/
def Cut.text (cut : Cut) : Option (String × List Char) :=
  cut.map fun (chars, after) => (String.ofList chars, after)

/-- A string on one line. -/
def line? : List Char → Option (String × List Char)
  | '"' :: rest => (basic rest).text
  | '\'' :: rest => (literal rest).text
  | _ => none

/-- A string of any kind. -/
def string? : List Char → Option (String × List Char)
  | '"' :: '"' :: '"' :: rest => (basicLines false (skipBreak rest)).text
  | '\'' :: '\'' :: '\'' :: rest => (literalLines (skipBreak rest)).text
  | chars => line? chars

/-- Whether a character may stand in a key without quotes. -/
def isBare (c : Char) : Bool :=
  c.isAlphanum || c = '_' || c = '-'

/-- One name of a key. -/
def name? (chars : List Char) : Option (String × List Char) :=
  match chars.takeWhile isBare with
  | [] => line? chars
  | bare => some (String.ofList bare, chars.dropWhile isBare)

/-- The names of a key, with dots between them; `rounds` bounds their number. -/
def names? : (rounds : Nat) → List Char → Option (List String × List Char)
  | 0, _ => none
  | rounds + 1, chars => do
      let (name, after) ← name? (skipBlanks chars)
      match skipBlanks after with
      | '.' :: rest =>
          let (names, after) ← names? rounds rest
          pure (name :: names, after)
      | rest => pure ([name], rest)

/-- A key. -/
def key? (chars : List Char) : Option (List String × List Char) :=
  names? chars.length chars

example : string? "'a\\b' x".toList = some ("a\\b", " x".toList) := by decide
example : key? "a . \"b c\".d =".toList = some (["a", "b c", "d"], ['=']) := by
  decide

end PackageLayers.Toml

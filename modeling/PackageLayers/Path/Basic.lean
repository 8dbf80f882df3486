/-
Purpose: Slash-separated paths: components, joining, parents and order.
Main exports: Path, Component, Path.components, Path.join, Path.parent?,
  Path.fileName?, Path.stripBase?, Path.precedes
-/
import PackageLayers.Text.Fold

namespace PackageLayers

/-!
A path keeps its spelling, since messages show it, but what it means is the list
of its components: repeated slashes, slashes at the end, and segments `.` after
the first say nothing.  Two paths are the same path when they have the same
components (`Path.sameAs`).
-/

/-- A path as it is spelled. -/
structure Path where
  text : String
deriving Repr, Inhabited, DecidableEq

/-- What a path is made of. -/
inductive Component where
  | root
  | here
  | parent
  | name (text : String)
deriving Repr, Inhabited, DecidableEq

namespace Component

/-- The place of the kinds of components in the order of paths. -/
def rank : Component → Nat
  | .root => 0
  | .here => 1
  | .parent => 2
  | .name _ => 3

/-- Components are ordered by kind, and names among themselves as texts. -/
def precedes : Component → Component → Bool
  | .name left, .name right => left < right
  | left, right => left.rank < right.rank

/-- How a component is written. -/
def text : Component → String
  | .root => "/"
  | .here => "."
  | .parent => ".."
  | .name text => text

/-- Whether a component is a name. -/
def isName : Component → Bool
  | .name _ => true
  | _ => false

end Component

namespace Path

/-- What a path starts from: the directory it is used in, that directory named
by a `.`, or the root. -/
inductive Anchor where
  | none
  | here
  | root
deriving Repr, Inhabited, DecidableEq

namespace Anchor

/-- How an anchor is written. -/
def chars : Anchor → List Char
  | .none => []
  | .here => ['.']
  | .root => ['/']

/-- The component that an anchor is. -/
def components : Anchor → List Component
  | .none => []
  | .here => [.here]
  | .root => [.root]

end Anchor

/-- A spelled path cut into its anchor and the segments between slashes. -/
structure Parts where
  anchor : Anchor
  segments : List (List Char)
deriving Repr, Inhabited, DecidableEq

/-- The anchor of a path. -/
def anchorOf : List Char → Anchor
  | '/' :: _ => .root
  | ['.'] => .here
  | '.' :: '/' :: _ => .here
  | _ => .none

/-- A path cut into parts. -/
def parts (path : Path) : Parts :=
  let chars := path.text.toList
  let anchor := anchorOf chars
  { anchor := anchor
    segments := Text.splitAt (· == '/') (chars.drop anchor.chars.length) }

/-- The path that parts spell. -/
def ofParts (parts : Parts) : Path :=
  ⟨String.ofList (parts.anchor.chars ++ ['/'].intercalate parts.segments)⟩

/-- Whether a segment says nothing. -/
def isIdle (segment : List Char) : Bool :=
  segment == [] || segment == ['.']

/-- The component that a segment writes. -/
def ofSegment (segment : List Char) : Component :=
  if segment = ['.', '.'] then .parent else .name (String.ofList segment)

/-- The components of a path. -/
def components (path : Path) : List Component :=
  path.parts.anchor.components ++
    (path.parts.segments.filter fun segment => !isIdle segment).map ofSegment

/-- Whether two paths have the same components. -/
def sameAs (left right : Path) : Bool :=
  left.components == right.components

/-- Whether a path starts from the root. -/
def isAbsolute (path : Path) : Bool :=
  path.text.toList.head? == some '/'

/-- The path `other` seen from the directory `path`. -/
def join (path other : Path) : Path :=
  if other.isAbsolute || path.text.isEmpty then other
  else if path.text.toList.getLast? = some '/' then
    ⟨path.text ++ other.text⟩
  else ⟨path.text ++ "/" ++ other.text⟩

/-- A path followed by one name. -/
def child (path : Path) (name : String) : Path :=
  path.join ⟨name⟩

/-- A list without its last members that satisfy `p`. -/
def dropLastWhile {α : Type} (p : α → Bool) (items : List α) : List α :=
  (items.reverse.dropWhile p).reverse

/-- The path without its last component; none for the root and for the empty
path. -/
def parent? (path : Path) : Option Path :=
  let parts := path.parts
  match dropLastWhile isIdle parts.segments with
  | [] =>
      match parts.anchor with
      | .here => some ⟨""⟩
      | _ => none
  | segment :: rest =>
      some (ofParts
        { parts with
          segments := dropLastWhile isIdle (segment :: rest).dropLast })

/-- The last component, if it is a name. -/
def fileName? (path : Path) : Option String :=
  match path.components.getLast? with
  | some (.name text) => some text
  | _ => none

/-- Segments without the first `count` that say something. -/
def dropSegments : (count : Nat) → List (List Char) → List (List Char)
  | _, [] => []
  | 0, segments => segments
  | count + 1, segment :: rest =>
      if isIdle segment then dropSegments (count + 1) rest
      else dropSegments count rest

/-- What a path adds to a path that its components start with. -/
def stripBase? (path base : Path) : Option Path :=
  let parts := path.parts
  let inner := dropLastWhile isIdle parts.segments
  match base.components with
  | [] => some (ofParts { parts with segments := inner })
  | first :: rest =>
      if (first :: rest).isPrefixOf path.components then
        let count := (first :: rest).length - parts.anchor.components.length
        some (ofParts
          { anchor := .none
            segments := (dropSegments count inner).dropWhile isIdle })
      else none

/-- Whether the components of a path start with those of another. -/
def isBelow (path base : Path) : Bool :=
  base.components.isPrefixOf path.components

/-- The order of lists that goes by the first place where they differ. -/
def componentsPrecede : List Component → List Component → Bool
  | _, [] => false
  | [], _ :: _ => true
  | left :: lefts, right :: rights =>
      left.precedes right || (left == right && componentsPrecede lefts rights)

/-- Paths are ordered by their components. -/
def precedes (left right : Path) : Bool :=
  componentsPrecede left.components right.components

/-- The spelling of a path in documents and manifests: backslashes count as
slashes. -/
def storedText (path : Path) : String :=
  Text.replaceChar '\\' '/' path.text

end Path

end PackageLayers

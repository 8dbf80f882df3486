/-
Purpose: The files of a machine as a value.
Main exports: Location, Content, FileTime, File, Entry, Files, Files.get?,
  Files.put, Files.removeUnder
-/
import PackageLayers.Text.Hex
import PackageLayers.Text.Octets

namespace PackageLayers

/-!
Files are a finite map from locations to entries.  A location is the list of the
names that lead to it from the root, which is always a directory; there are no
links, so a location is the only one of its entry.

The content of a file is its text.  Octets that are not UTF-8 are never shown,
but programs may read them.
-/

/-- The names that lead to an entry from the root. -/
abbrev Location := List String

/-- What a file holds. -/
inductive Content where
  | text (content : String)
  | binary (octets : List Char)
deriving Repr, Inhabited, DecidableEq

namespace Content

/-- The text that a content is. -/
def text? : Content → Option String
  | .text content => some content
  | .binary _ => none

/-- The content of a list of octets. -/
def ofOctets (octets : List Char) : Content :=
  match Text.ofOctets? octets with
  | some content => .text content
  | none => .binary octets

/-- The content of a list of bytes. -/
def ofBytes (bytes : List UInt8) : Content :=
  ofOctets (bytes.map fun byte => Char.ofNat byte.toNat)

/-- The octets of a content. -/
def octets : Content → List Char
  | .text content => Text.octets content
  | .binary octets => octets

end Content

/-- A time of change, in nanoseconds since the start of 1970; none if the system
cannot tell it. -/
abbrev FileTime := Option Int

namespace FileTime

/-- The time on a clock that counts milliseconds in 64 bits and does not pass the
greatest of them. -/
def ofMilliseconds (count : Nat) : FileTime :=
  some (Int.ofNat (min count (Text.wordCount 64 - 1) * 1000000))

/-- The whole milliseconds since the start of 1970.  Earlier times have none, nor
have times that the system cannot tell or that 64 bits do not hold. -/
def milliseconds? : FileTime → Option Nat
  | some (.ofNat nanoseconds) =>
      if nanoseconds / 1000000 < Text.wordCount 64 then
        some (nanoseconds / 1000000)
      else none
  | _ => none

/-- Whether a time is known to be after another. -/
def isAfter : FileTime → FileTime → Bool
  | some time, some other => other < time
  | _, _ => false

/-- What a clock shows can be told in milliseconds. -/
theorem milliseconds_ofMilliseconds (count : Nat) :
    (ofMilliseconds count).milliseconds? =
      some (min count (Text.wordCount 64 - 1)) := by
  have words : 0 < Text.wordCount 64 := Nat.two_pow_pos 64
  have held : min count (Text.wordCount 64 - 1) < Text.wordCount 64 := by omega
  rw [ofMilliseconds, milliseconds?, Nat.mul_div_cancel _ (by decide), if_pos held]

end FileTime

/-- A file: what it holds, when it was last changed, and whether it can be run. -/
structure File where
  content : Content
  modified : FileTime
  executable : Bool := false
deriving Repr, Inhabited, DecidableEq

/-- What is at a location. -/
inductive Entry where
  | file (file : File)
  | directory
deriving Repr, Inhabited, DecidableEq

/-- The entries of a list under a location. -/
def entryAt (location : Location) : List (Location × Entry) → Option Entry
  | [] => none
  | (other, entry) :: rest =>
      if other = location then some entry else entryAt location rest

/-- A list of entries with an entry put at a location, in place of the one that
was there. -/
def putEntry (location : Location) (entry : Entry) :
    List (Location × Entry) → List (Location × Entry)
  | [] => [(location, entry)]
  | (other, old) :: rest =>
      if other = location then (location, entry) :: rest
      else (other, old) :: putEntry location entry rest

/-- Putting an entry brings no location but its own. -/
theorem mem_putEntry {location other : Location} {entry : Entry}
    {entries : List (Location × Entry)}
    (member : other ∈ (putEntry location entry entries).map Prod.fst) :
    other = location ∨ other ∈ entries.map Prod.fst := by
  induction entries with
  | nil => simpa [putEntry] using member
  | cons head rest inductionHypothesis =>
      simp only [putEntry] at member
      split at member
      · rename_i same
        simp only [List.map_cons, List.mem_cons] at member ⊢
        exact member.imp_right Or.inr
      · simp only [List.map_cons, List.mem_cons] at member ⊢
        rcases member with same | later
        · exact Or.inr (Or.inl same)
        · exact (inductionHypothesis later).imp_right Or.inr

/-- Putting an entry keeps locations distinct. -/
theorem nodup_putEntry {location : Location} {entry : Entry}
    {entries : List (Location × Entry)}
    (distinct : (entries.map Prod.fst).Nodup) :
    ((putEntry location entry entries).map Prod.fst).Nodup := by
  induction entries with
  | nil => simp [putEntry]
  | cons head rest inductionHypothesis =>
      simp only [List.map_cons, List.nodup_cons] at distinct
      simp only [putEntry]
      split
      · rename_i same
        subst same
        simpa using distinct
      · rename_i different
        simp only [List.map_cons, List.nodup_cons]
        refine ⟨fun member => ?_, inductionHypothesis distinct.2⟩
        rcases mem_putEntry member with same | later
        · exact different same
        · exact distinct.1 later

/-- The files of a machine. -/
structure Files where
  entries : List (Location × Entry)
  distinct : (entries.map Prod.fst).Nodup

namespace Files

/-- No files. -/
def empty : Files where
  entries := []
  distinct := List.nodup_nil

instance : Inhabited Files := ⟨empty⟩

/-- What is at a location. -/
def get? (files : Files) (location : Location) : Option Entry :=
  if location = [] then some .directory else entryAt location files.entries

/-- The files with an entry put at a location. -/
def put (files : Files) (location : Location) (entry : Entry) : Files where
  entries := putEntry location entry files.entries
  distinct := nodup_putEntry files.distinct

/-- The files without what is at a location and below it. -/
def removeUnder (files : Files) (location : Location) : Files where
  entries := files.entries.filter fun entry => !location.isPrefixOf entry.1
  distinct := files.distinct.sublist (List.filter_sublist.map Prod.fst)

/-- Whether a location is a directory. -/
def isDirectory (files : Files) (location : Location) : Bool :=
  files.get? location == some .directory

/-- The file at a location. -/
def file? (files : Files) (location : Location) : Option File :=
  match files.get? location with
  | some (.file file) => some file
  | _ => none

theorem entryAt_putEntry (location other : Location) (entry : Entry)
    (entries : List (Location × Entry)) :
    entryAt other (putEntry location entry entries) =
      if other = location then some entry else entryAt other entries := by
  induction entries with
  | nil => simp [putEntry, entryAt, eq_comm]
  | cons head rest inductionHypothesis =>
      grind [putEntry, entryAt]

/-- What is put is found, and nothing else changes. -/
theorem get?_put (files : Files) {location : Location} (notRoot : location ≠ [])
    (entry : Entry) (other : Location) :
    (files.put location entry).get? other =
      if other = location then some entry else files.get? other := by
  simp only [get?, put, entryAt_putEntry]
  split <;> simp_all

end Files

end PackageLayers

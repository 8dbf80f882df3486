/-
Purpose: Finite maps from names to values, kept in the order of their names.
Main exports: Dict, Dict.get?, Dict.insert, Dict.ofList, Dict.keys, NameSet
-/

namespace PackageLayers

/-!
Every table of this library maps names to values and is listed in the order of
its names.  Texts are ordered by code point, which is also the order of their
UTF-8 bytes, so a table reads the same in memory and on disk.

The order is part of the type: every operation keeps the names strictly
ascending (`Dict.sorted_insertEntry`), so a name occurs once and equal tables
have equal listings.
-/

/-- A finite map from names to values, listed in strictly ascending order of
the names. -/
structure Dict (α : Type) where
  entries : List (String × α)
  sorted : (entries.map Prod.fst).Pairwise (· < ·)
deriving Repr

namespace Dict

variable {α β : Type}

instance [DecidableEq α] : DecidableEq (Dict α) := fun left right =>
  if same : left.entries = right.entries then
    .isTrue (by cases left; cases right; simp_all)
  else
    .isFalse fun equal => same (by rw [equal])

/-- The dictionary without entries. -/
def empty : Dict α where
  entries := []
  sorted := List.Pairwise.nil

instance : Inhabited (Dict α) := ⟨empty⟩

/-- The value that a list of entries holds first under a name. -/
def lookup (name : String) : List (String × α) → Option α
  | [] => none
  | (key, value) :: rest => if key = name then some value else lookup name rest

/-- The value held under a name. -/
def get? (dict : Dict α) (name : String) : Option α :=
  lookup name dict.entries

/-- Whether a value is held under a name. -/
def contains (dict : Dict α) (name : String) : Bool :=
  (dict.get? name).isSome

/-- The names, ascending. -/
def keys (dict : Dict α) : List String :=
  dict.entries.map Prod.fst

/-- The values, in the order of their names. -/
def values (dict : Dict α) : List α :=
  dict.entries.map Prod.snd

/-- Put an entry at its place in a sorted list, replacing the entry of the same
name. -/
def insertEntry (name : String) (value : α) :
    List (String × α) → List (String × α)
  | [] => [(name, value)]
  | (key, old) :: rest =>
      if name < key then (name, value) :: (key, old) :: rest
      else if name = key then (name, value) :: rest
      else (key, old) :: insertEntry name value rest

/-- An inserted entry brings no name but its own. -/
theorem mem_insertEntry_keys {name key : String} {value : α}
    {entries : List (String × α)}
    (member : key ∈ (insertEntry name value entries).map Prod.fst) :
    key = name ∨ key ∈ entries.map Prod.fst := by
  induction entries with
  | nil => simpa [insertEntry] using member
  | cons head rest inductionHypothesis =>
      obtain ⟨first, old⟩ := head
      simp only [insertEntry] at member
      split at member
      · simpa using member
      · split at member
        · simp only [List.map_cons, List.mem_cons] at member ⊢
          exact member.imp_right Or.inr
        · simp only [List.map_cons, List.mem_cons] at member ⊢
          rcases member with same | later
          · exact Or.inr (Or.inl same)
          · exact (inductionHypothesis later).imp_right Or.inr

/-- Insertion keeps a list sorted. -/
theorem sorted_insertEntry (name : String) (value : α)
    {entries : List (String × α)}
    (sorted : (entries.map Prod.fst).Pairwise (· < ·)) :
    ((insertEntry name value entries).map Prod.fst).Pairwise (· < ·) := by
  induction entries with
  | nil => simp [insertEntry]
  | cons head rest inductionHypothesis =>
      obtain ⟨first, old⟩ := head
      simp only [List.map_cons, List.pairwise_cons] at sorted
      simp only [insertEntry]
      split
      · rename_i before
        simp only [List.map_cons, List.pairwise_cons, List.mem_cons]
        refine ⟨?_, sorted⟩
        rintro key (rfl | later)
        · exact before
        · exact String.lt_trans before (sorted.1 key later)
      · rename_i notBefore
        split
        · rename_i same
          subst same
          simpa using sorted
        · rename_i different
          simp only [List.map_cons, List.pairwise_cons]
          refine ⟨?_, inductionHypothesis sorted.2⟩
          intro key member
          rcases mem_insertEntry_keys member with rfl | later
          · refine Decidable.byContradiction fun notAfter => different ?_
            exact String.le_antisymm (String.not_lt.mp notAfter)
              (String.not_lt.mp notBefore)
          · exact sorted.1 key later

/-- The dictionary with a value put under a name, in place of any value that was
there. -/
def insert (dict : Dict α) (name : String) (value : α) : Dict α where
  entries := insertEntry name value dict.entries
  sorted := sorted_insertEntry name value dict.sorted

/-- The dictionary without what is held under a name. -/
def erase (dict : Dict α) (name : String) : Dict α where
  entries := dict.entries.filter fun entry => entry.1 != name
  sorted := dict.sorted.sublist (List.filter_sublist.map Prod.fst)

/-- The dictionary of a list of entries; of two entries with one name the later
one counts. -/
def ofList (entries : List (String × α)) : Dict α :=
  entries.foldl (fun dict entry => dict.insert entry.1 entry.2) empty

/-- The dictionary of the same names with every value replaced. -/
def map (f : α → β) (dict : Dict α) : Dict β where
  entries := dict.entries.map fun entry => (entry.1, f entry.2)
  sorted := by simpa [List.map_map, Function.comp_def] using dict.sorted

end Dict

/-- A finite set of names. -/
abbrev NameSet := Dict Unit

namespace NameSet

/-- The set with one more name. -/
def add (set : NameSet) (name : String) : NameSet :=
  Dict.insert set name ()

/-- The set of the names in a list. -/
def ofNames (names : List String) : NameSet :=
  names.foldl add Dict.empty

end NameSet

end PackageLayers

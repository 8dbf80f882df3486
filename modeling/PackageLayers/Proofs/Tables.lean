/-
Purpose: What tables hold after they are changed.
Main exports: Dict.get?_insert, Dict.get?_erase, Dict.get?_ofList, Dict.get?_map,
  Dict.mem_keys_iff, NameSet.contains_ofNames
-/
import Mathlib.Data.List.Nodup
import Mathlib.Tactic.Common
import PackageLayers.Dict

namespace PackageLayers

/-!
A table is known by what it holds under each name.  Its listing is sorted, so a
name that comes before the first one listed is not listed at all; this is what
lets a look-up stop where an insertion does.
-/

namespace Dict

variable {α : Type}

theorem lookup_eq_none_iff {name : String} {entries : List (String × α)} :
    lookup name entries = none ↔ name ∉ entries.map Prod.fst := by
  induction entries with
  | nil => simp [lookup]
  | cons entry entries inductionHypothesis =>
      obtain ⟨key, value⟩ := entry
      rw [lookup]
      split
      · rename_i same
        simp [same]
      · rename_i different
        rw [inductionHypothesis, List.map_cons, List.mem_cons, not_or]
        exact ⟨fun absent => ⟨fun same => different same.symm, absent⟩, And.right⟩

theorem mem_of_lookup {name : String} {value : α} {entries : List (String × α)}
    (found : lookup name entries = some value) : (name, value) ∈ entries := by
  induction entries with
  | nil => cases found
  | cons entry entries inductionHypothesis =>
      obtain ⟨key, first⟩ := entry
      rw [lookup] at found
      split at found
      · rename_i same
        cases found
        rw [same]
        exact List.mem_cons_self
      · exact List.mem_cons_of_mem _ (inductionHypothesis found)

/-- What is listed under a name that is listed once is found. -/
theorem lookup_of_mem {name : String} {value : α} {entries : List (String × α)}
    (distinct : (entries.map Prod.fst).Nodup) (member : (name, value) ∈ entries) :
    lookup name entries = some value := by
  induction entries with
  | nil => cases member
  | cons entry entries inductionHypothesis =>
      obtain ⟨key, first⟩ := entry
      rw [List.map_cons, List.nodup_cons] at distinct
      rcases List.mem_cons.mp member with same | later
      · cases same
        rw [lookup, if_pos rfl]
      · have different : key ≠ name := by
          rintro rfl
          exact distinct.1 (List.mem_map.mpr ⟨_, later, rfl⟩)
        rw [lookup, if_neg different, inductionHypothesis distinct.2 later]

theorem lookup_insertEntry (name other : String) (value : α)
    {entries : List (String × α)}
    (sorted : (entries.map Prod.fst).Pairwise (· < ·)) :
    lookup other (insertEntry name value entries) =
      if other = name then some value else lookup other entries := by
  induction entries with
  | nil =>
      simp only [insertEntry, lookup]
      grind
  | cons entry entries inductionHypothesis =>
      obtain ⟨key, old⟩ := entry
      rw [List.map_cons, List.pairwise_cons] at sorted
      rw [insertEntry]
      split
      · simp only [lookup]
        grind
      · split
        · rename_i same
          subst same
          simp only [lookup]
          grind
        · rename_i different
          rw [lookup, lookup, inductionHypothesis sorted.2]
          split
          · rename_i same
            rw [if_neg]
            rintro rfl
            exact different same.symm
          · rfl

/-- What is put is held, and what is held under other names stays. -/
@[simp] theorem get?_insert (dict : Dict α) (name other : String) (value : α) :
    (dict.insert name value).get? other =
      if other = name then some value else dict.get? other :=
  lookup_insertEntry name other value dict.sorted

@[simp] theorem get?_empty (name : String) : (empty : Dict α).get? name = none :=
  rfl

theorem get?_erase (dict : Dict α) (name other : String) :
    (dict.erase name).get? other =
      if other = name then none else dict.get? other := by
  obtain ⟨entries, sorted⟩ := dict
  simp only [get?, erase]
  clear sorted
  induction entries with
  | nil => simp [lookup]
  | cons entry entries inductionHypothesis =>
      obtain ⟨key, value⟩ := entry
      rw [List.filter_cons]
      split
      · rename_i kept
        have different : key ≠ name := by simpa using kept
        rw [lookup, lookup, inductionHypothesis]
        grind
      · rename_i dropped
        have same : key = name := by simpa using dropped
        rw [inductionHypothesis, lookup]
        grind

/-- What is looked for among the values is not found in a new one that fails the
test. -/
theorem find?_values_insert {dict : Dict α} {name : String} {value : α}
    {test : α → Bool} (absent : dict.get? name = none) (fails : test value = false) :
    (dict.insert name value).values.find? test = dict.values.find? test := by
  obtain ⟨entries, sorted⟩ := dict
  simp only [get?, insert, values] at absent ⊢
  clear sorted
  induction entries with
  | nil => simp [insertEntry, fails]
  | cons entry entries inductionHypothesis =>
      obtain ⟨key, old⟩ := entry
      rw [lookup] at absent
      split at absent
      · cases absent
      · rename_i different
        rw [insertEntry]
        split
        · rw [List.map_cons, List.find?_cons, fails]
        · rw [if_neg fun same => different same.symm, List.map_cons, List.map_cons,
            List.find?_cons, List.find?_cons, inductionHypothesis absent]

theorem mem_keys_iff {dict : Dict α} {name : String} :
    name ∈ dict.keys ↔ dict.contains name = true := by
  rw [contains, keys, Option.isSome_iff_ne_none, get?, Ne, lookup_eq_none_iff,
    not_not]

/-- What a list of entries puts into a table: the last value under each name, and
what the table held under the others. -/
theorem get?_foldl_insert (entries : List (String × α)) (dict : Dict α)
    (name : String) :
    (entries.foldl (fun dict entry => dict.insert entry.1 entry.2) dict).get? name =
      (lookup name entries.reverse).or (dict.get? name) := by
  induction entries generalizing dict with
  | nil => rfl
  | cons entry entries inductionHypothesis =>
      have last : lookup name ((entry :: entries).reverse) =
          (lookup name entries.reverse).or
            (if name = entry.1 then some entry.2 else none) := by
        rw [List.reverse_cons]
        induction entries.reverse with
        | nil =>
            simp only [List.nil_append, lookup]
            grind
        | cons first rest inductionHypothesis =>
            rw [List.cons_append, lookup, lookup, inductionHypothesis]
            split <;> rfl
      rw [List.foldl_cons, inductionHypothesis, get?_insert, last, Option.or_assoc]
      split <;> rfl

/-- The table of a list of entries with distinct names holds these entries. -/
theorem get?_ofList {entries : List (String × α)}
    (distinct : (entries.map Prod.fst).Nodup) (name : String) :
    (ofList entries).get? name = lookup name entries := by
  rw [ofList, get?_foldl_insert, get?_empty, Option.or_none]
  cases found : lookup name entries with
  | none =>
      rw [lookup_eq_none_iff] at found ⊢
      simpa using found
  | some value =>
      refine lookup_of_mem ?_ (List.mem_reverse.mpr (mem_of_lookup found))
      rw [List.map_reverse]
      exact List.nodup_reverse.mpr distinct

/-- Names that are put with one value hold it. -/
theorem get?_foldl_insert_same (names : List String) (value : α) (dict : Dict α)
    (name : String) :
    (names.foldl (fun dict name => dict.insert name value) dict).get? name =
      if name ∈ names then some value else dict.get? name := by
  induction names generalizing dict with
  | nil => rfl
  | cons first names inductionHypothesis =>
      rw [List.foldl_cons, inductionHypothesis, get?_insert]
      grind

theorem lookup_eq_find (name : String) (entries : List (String × α)) :
    lookup name entries =
      (entries.find? fun entry => entry.1 == name).map Prod.snd := by
  induction entries with
  | nil => rfl
  | cons entry entries inductionHypothesis =>
      obtain ⟨key, value⟩ := entry
      rw [lookup, List.find?_cons, inductionHypothesis]
      by_cases same : key = name
      · rw [if_pos same, beq_iff_eq.mpr same]
        rfl
      · rw [if_neg same, beq_eq_false_iff_ne.mpr same]

theorem lookup_map {β : Type} (f : α → β) (name : String)
    (entries : List (String × α)) :
    lookup name (entries.map fun entry => (entry.1, f entry.2)) =
      (lookup name entries).map f := by
  induction entries with
  | nil => rfl
  | cons entry entries inductionHypothesis =>
      rw [List.map_cons, lookup, lookup, inductionHypothesis]
      split <;> rfl

theorem get?_map {β : Type} (f : α → β) (dict : Dict α) (name : String) :
    (dict.map f).get? name = (dict.get? name).map f :=
  lookup_map f name dict.entries

/-- Where names are distinct, the last entry of a name is the first. -/
theorem lookup_reverse {entries : List (String × α)}
    (distinct : (entries.map Prod.fst).Nodup) (name : String) :
    lookup name entries.reverse = lookup name entries := by
  rw [← get?_ofList distinct, ofList, get?_foldl_insert, get?_empty,
    Option.or_none]

end Dict

theorem NameSet.contains_ofNames {names : List String} {name : String} :
    (NameSet.ofNames names).contains name ↔ name ∈ names := by
  have held : (NameSet.ofNames names).get? name =
      if name ∈ names then some () else none :=
    Dict.get?_foldl_insert_same names () Dict.empty name
  rw [Dict.contains, held]
  split <;> simp_all

end PackageLayers

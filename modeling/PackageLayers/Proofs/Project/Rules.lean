/-
Purpose: How several findings for one name are settled.
Main exports: Rule, Rule.revised, Rule.revised_again, Rule.put, Rule.puts_again,
  Rule.Absorbs, Rule.puts_of_fresh
-/
import Mathlib.Data.List.Sort
import PackageLayers.Proofs.Tables

namespace PackageLayers

/-!
A finding for a name either agrees with what is recorded under it and is merged
into the record, or it contradicts the record and then is dropped or takes its
place.  Findings that agree with the same record are of one kind.

To go through the same findings once more changes nothing.  If all findings that
can take a place are of one kind, a record of that kind is merged with them and
no more; and merging the same findings twice is merging them once.  If they are of
several kinds, then somewhere one takes the place of another kind, whatever was
recorded at first, and nothing of that is left.
-/

/-- Equal look-ups make equal tables. -/
theorem Dict.ext_get {α : Type} {left right : Dict α}
    (same : ∀ name, left.get? name = right.get? name) : left = right := by
  have holds (dict : Dict α) (entry : String × α) :
      entry ∈ dict.entries ↔ dict.get? entry.1 = some entry.2 := by
    have distinct : (dict.entries.map Prod.fst).Nodup :=
      dict.sorted.imp fun less => String.ne_of_lt less
    exact ⟨lookup_of_mem distinct, mem_of_lookup⟩
  have entries : left.entries = right.entries := by
    let before (first second : String × α) : Prop := first.1 < second.1
    have : Std.Irrefl before := ⟨fun entry => String.lt_irrefl entry.1⟩
    have : Std.Antisymm before :=
      ⟨fun first second less more => absurd more (String.lt_asymm less)⟩
    refine @List.Pairwise.eq_of_mem_iff _ before _ _ _ _
      (List.pairwise_map.mp left.sorted) (List.pairwise_map.mp right.sorted)
      fun entry => ?_
    rw [holds, holds, same]
  cases left
  cases right
  cases entries
  rfl

/-- What is held already may be put again. -/
theorem Dict.insert_held {α : Type} {dict : Dict α} {name : String} {value : α}
    (held : dict.get? name = some value) : dict.insert name value = dict := by
  refine ext_get fun other => ?_
  rw [get?_insert]
  split
  · rename_i same
    rw [same, held]
  · rfl

/-- How findings are recorded: what kind a record and a finding are of, what is
recorded for a finding on its own, and what becomes of a record of the same
kind. -/
structure Rule (Finding Record Kind : Type) where
  kindOf : Record → Kind
  claimed : Finding → Kind
  alone : Finding → Record
  merge : Record → Finding → Record
  kindOf_alone : ∀ finding, kindOf (alone finding) = claimed finding
  kindOf_merge : ∀ record finding, kindOf (merge record finding) = kindOf record
  merge_alone : ∀ finding, merge (alone finding) finding = alone finding
  merge_again : ∀ (findings : List Finding) (record : Record),
    findings.foldl merge (findings.foldl merge record) =
      findings.foldl merge record

namespace Rule

variable {Finding Record Kind : Type} {rule : Rule Finding Record Kind}

theorem kindOf_merges (record : Record) (findings : List Finding) :
    rule.kindOf (findings.foldl rule.merge record) = rule.kindOf record := by
  induction findings generalizing record with
  | nil => rfl
  | cons finding findings inductionHypothesis =>
      rw [List.foldl_cons, inductionHypothesis, rule.kindOf_merge]

variable [DecidableEq Kind] (rule) (prevails : Finding → Bool)

/-- The record after a finding that takes its place if it contradicts it and
prevails. -/
def revise (record : Record) (finding : Finding) : Record :=
  if rule.kindOf record = rule.claimed finding then rule.merge record finding
  else if prevails finding then rule.alone finding
  else record

/-- Whether nothing prevails, or else what does not prevail adds nothing either. -/
def IsClear : Prop :=
  (∀ finding, prevails finding = false) ∨
    ∀ finding, prevails finding = false → ∀ record, rule.merge record finding = record

/-- The record after some findings. -/
def revised (record : Record) (findings : List Finding) : Record :=
  findings.foldl (rule.revise prevails) record

variable {rule prevails}

theorem revised_cons (record : Record) (finding : Finding)
    (findings : List Finding) :
    rule.revised prevails record (finding :: findings) =
      rule.revised prevails (rule.revise prevails record finding) findings := rfl

omit [DecidableEq Kind] in
/-- Where either all findings prevail or none does, all is clear. -/
theorem isClear_constant (strong : Bool) : rule.IsClear fun _ => strong := by
  cases strong with
  | false => exact Or.inl fun _ => rfl
  | true => exact Or.inr fun _ weak => nomatch weak

theorem revise_alone (finding : Finding) :
    rule.revise prevails (rule.alone finding) finding = rule.alone finding := by
  rw [revise, if_pos (rule.kindOf_alone finding), rule.merge_alone]

/-! ### Findings that do not prevail -/

/-- Where nothing prevails, a record is merged with what is of its kind. -/
theorem revised_of_kept (kept : ∀ finding, prevails finding = false)
    (record : Record) (findings : List Finding) :
    rule.revised prevails record findings =
      (findings.filter fun finding =>
        rule.kindOf record = rule.claimed finding).foldl rule.merge record := by
  induction findings generalizing record with
  | nil => rfl
  | cons finding findings inductionHypothesis =>
      rw [revised_cons, revise]
      split
      · rename_i agrees
        rw [List.filter_cons_of_pos (by simpa using agrees), List.foldl_cons,
          inductionHypothesis, rule.kindOf_merge]
      · rename_i contradicts
        rw [List.filter_cons_of_neg (by simpa using contradicts), kept,
          if_neg Bool.false_ne_true, inductionHypothesis]

/-- Findings that neither prevail nor add anything may be left out. -/
theorem revised_filter
    (idle : ∀ finding, prevails finding = false →
      ∀ record, rule.merge record finding = record)
    (record : Record) (findings : List Finding) :
    rule.revised prevails record findings =
      rule.revised prevails record (findings.filter prevails) := by
  induction findings generalizing record with
  | nil => rfl
  | cons finding findings inductionHypothesis =>
      rw [revised_cons, inductionHypothesis]
      cases strong : prevails finding with
      | true => rw [List.filter_cons_of_pos strong, revised_cons]
      | false =>
          rw [List.filter_cons_of_neg (by rw [strong]; exact Bool.false_ne_true),
            revise, idle finding strong, strong, if_neg Bool.false_ne_true, ite_self]

/-! ### Findings that prevail -/

/-- Findings of one kind are merged. -/
theorem revised_of_kind {findings : List Finding} {record : Record}
    (alike : ∀ finding ∈ findings, rule.kindOf record = rule.claimed finding) :
    rule.revised prevails record findings = findings.foldl rule.merge record := by
  induction findings generalizing record with
  | nil => rfl
  | cons finding findings inductionHypothesis =>
      rw [List.forall_mem_cons] at alike
      rw [revised_cons, revise, if_pos alike.1, List.foldl_cons,
        inductionHypothesis]
      rw [rule.kindOf_merge]
      exact alike.2

/-- A finding that prevails leaves a record of its kind. -/
theorem kindOf_revise {finding : Finding} (strong : prevails finding)
    (record : Record) :
    rule.kindOf (rule.revise prevails record finding) = rule.claimed finding := by
  rw [revise, if_pos strong]
  split
  · rename_i agrees
    rw [rule.kindOf_merge, agrees]
  · exact rule.kindOf_alone finding

/-- Prevailing findings are all of one kind, or it does not matter what was
recorded before them. -/
theorem alike_or_constant {findings : List Finding}
    (strong : ∀ finding ∈ findings, prevails finding) :
    (∀ first ∈ findings, ∀ second ∈ findings,
        rule.claimed first = rule.claimed second) ∨
      ∃ final, ∀ record, rule.revised prevails record findings = final := by
  induction findings with
  | nil => exact Or.inl fun _ member => nomatch member
  | cons finding findings inductionHypothesis =>
      rw [List.forall_mem_cons] at strong
      rcases inductionHypothesis strong.2 with alike | ⟨final, same⟩
      · cases findings with
        | nil => simp
        | cons next findings =>
            have alike (other) (member : other ∈ next :: findings) :
                rule.claimed other = rule.claimed next :=
              alike other member next List.mem_cons_self
            by_cases equal : rule.claimed finding = rule.claimed next
            · have all (other) (member : other ∈ finding :: next :: findings) :
                  rule.claimed other = rule.claimed next := by
                rcases List.mem_cons.mp member with rfl | later
                · exact equal
                · exact alike other later
              exact Or.inl fun first member second memberToo =>
                (all first member).trans (all second memberToo).symm
            · -- `next` takes the place of whatever `finding` leaves.
              refine Or.inr ⟨rule.revised prevails (rule.alone next) findings,
                fun record => ?_⟩
              have contradicts : ¬rule.kindOf (rule.revise prevails record finding) =
                  rule.claimed next := by
                rw [kindOf_revise strong.1]
                exact equal
              have taken : rule.revise prevails
                  (rule.revise prevails record finding) next = rule.alone next := by
                generalize rule.revise prevails record finding = left at contradicts
                rw [revise, if_neg contradicts,
                  if_pos (List.forall_mem_cons.mp strong.2).1]
              rw [revised_cons, revised_cons, taken]
      · exact Or.inr ⟨final, fun record => same _⟩

/-- Prevailing findings leave the same record when they come once more. -/
theorem revised_again_of_strong {findings : List Finding}
    (strong : ∀ finding ∈ findings, prevails finding) (record : Record) :
    rule.revised prevails (rule.revised prevails record findings) findings =
      rule.revised prevails record findings := by
  rcases @alike_or_constant _ _ _ rule _ prevails findings strong with
    alike | ⟨final, same⟩
  · -- From the first finding on the record is of its kind and is merged.
    obtain ⟨start, ofKind, merges⟩ : ∃ start,
        (∀ finding ∈ findings, rule.kindOf start = rule.claimed finding) ∧
          rule.revised prevails record findings =
            findings.foldl rule.merge start := by
      cases findings with
      | nil => exact ⟨record, fun _ member => (nomatch member), rfl⟩
      | cons finding findings =>
          have alike := alike finding List.mem_cons_self
          by_cases agrees : rule.kindOf record = rule.claimed finding
          · have ofKind (other) (member : other ∈ finding :: findings) :
                rule.kindOf record = rule.claimed other :=
              agrees.trans (alike other member)
            exact ⟨record, ofKind, revised_of_kind ofKind⟩
          · have ofKind (other) (member : other ∈ finding :: findings) :
                rule.kindOf (rule.alone finding) = rule.claimed other :=
              (rule.kindOf_alone finding).trans (alike other member)
            refine ⟨rule.alone finding, ofKind, ?_⟩
            rw [revised_cons, revise, if_neg agrees,
              if_pos (strong finding List.mem_cons_self), List.foldl_cons,
              rule.merge_alone]
            exact revised_of_kind fun other member =>
              ofKind other (List.mem_cons_of_mem finding member)
    rw [merges, revised_of_kind, rule.merge_again]
    intro finding member
    rw [kindOf_merges, ofKind finding member]
  · rw [same, same]

/-- Findings leave the same record when they come once more. -/
theorem revised_again (clear : rule.IsClear prevails) (record : Record)
    (findings : List Finding) :
    rule.revised prevails (rule.revised prevails record findings) findings =
      rule.revised prevails record findings := by
  rcases clear with kept | idle
  · rw [revised_of_kept kept, revised_of_kept kept, kindOf_merges, rule.merge_again]
  · rw [revised_filter idle, revised_filter idle record, revised_again_of_strong]
    exact fun finding member => (List.mem_filter.mp member).2

/-! ### Tables of records -/

variable (rule prevails)

/-- What is recorded under a name after a finding for it. -/
def recorded (held : Option Record) (finding : Finding) : Record :=
  match held with
  | none => rule.alone finding
  | some record => rule.revise prevails record finding

/-- The table of records after a finding for a name. -/
def put (table : Dict Record) (entry : String × Finding) : Dict Record :=
  table.insert entry.1 (rule.recorded prevails (table.get? entry.1) entry.2)

/-- The findings for a name. -/
def findingsFor (name : String) (entries : List (String × Finding)) :
    List Finding :=
  (entries.filter fun entry => entry.1 = name).map Prod.snd

variable {rule prevails}

theorem get?_put (table : Dict Record) (entry : String × Finding) (name : String) :
    (rule.put prevails table entry).get? name =
      if entry.1 = name then some (rule.recorded prevails (table.get? name) entry.2)
      else table.get? name := by
  rw [put, Dict.get?_insert]
  by_cases same : entry.1 = name
  · rw [if_pos same.symm, if_pos same, same]
  · rw [if_neg fun other => same other.symm, if_neg same]

/-- What a table holds under a name after some findings is what the findings for
that name leave. -/
theorem get?_puts (table : Dict Record) (entries : List (String × Finding))
    (name : String) :
    (entries.foldl (rule.put prevails) table).get? name =
      (findingsFor name entries).foldl
        (fun held finding => some (rule.recorded prevails held finding))
        (table.get? name) := by
  induction entries generalizing table with
  | nil => rfl
  | cons entry entries inductionHypothesis =>
      rw [List.foldl_cons, inductionHypothesis, get?_put, findingsFor, findingsFor]
      by_cases here : entry.1 = name
      · rw [if_pos here, List.filter_cons_of_pos (by simpa using here),
          List.map_cons, List.foldl_cons]
      · rw [if_neg here, List.filter_cons_of_neg (by simpa using here)]

theorem recorded_some (record : Record) (findings : List Finding) :
    findings.foldl (fun held finding => some (rule.recorded prevails held finding))
        (some record) =
      some (rule.revised prevails record findings) := by
  induction findings generalizing record with
  | nil => rfl
  | cons finding findings inductionHypothesis =>
      rw [List.foldl_cons, revised_cons, ← inductionHypothesis]
      rfl

/-- The first finding for a name is recorded as it is. -/
theorem recorded_none (finding : Finding) (findings : List Finding) :
    (finding :: findings).foldl
        (fun held finding => some (rule.recorded prevails held finding)) none =
      some (rule.revised prevails (rule.alone finding) (finding :: findings)) := by
  rw [List.foldl_cons, revised_cons, revise_alone, ← recorded_some]
  rfl

/-- A table does not change when the same findings come once more. -/
theorem puts_again (clear : rule.IsClear prevails)
    (entries : List (String × Finding)) (table : Dict Record) :
    entries.foldl (rule.put prevails) (entries.foldl (rule.put prevails) table) =
      entries.foldl (rule.put prevails) table := by
  refine Dict.ext_get fun name => ?_
  rw [get?_puts, get?_puts]
  generalize findingsFor name entries = findings
  cases table.get? name with
  | some record =>
      rw [recorded_some, recorded_some, revised_again clear]
  | none =>
      cases findings with
      | nil => rfl
      | cons finding findings =>
          rw [recorded_none, recorded_some, revised_again clear]

/-! ### Findings that are nothing new -/

section

variable {table : Dict Record} {entries : List (String × Finding)}
  {entry fresh : String × Finding}

/-- Whether a table stays as it is when a finding for a name comes. -/
def Absorbs (rule : Rule Finding Record Kind) (prevails : Finding → Bool)
    (table : Dict Record) (entry : String × Finding) : Prop :=
  rule.put prevails table entry = table

theorem absorbs_iff : rule.Absorbs prevails table entry ↔
    ∃ record, table.get? entry.1 = some record ∧
      rule.revise prevails record entry.2 = record := by
  constructor
  · intro same
    have held := congrArg (fun table => table.get? entry.1) same
    rw [get?_put, if_pos rfl] at held
    cases found : table.get? entry.1 with
    | none =>
        rw [found] at held
        cases held
    | some record =>
        rw [found] at held
        exact ⟨record, rfl, Option.some.inj held⟩
  · rintro ⟨record, found, same⟩
    rw [Absorbs, put, found]
    apply Dict.insert_held
    rw [found]
    exact congrArg some same.symm

/-- A table that some findings leave as it is stays as it is with each of them, if
nothing prevails and merged findings have nothing to add. -/
theorem absorbs_of_puts (kept : ∀ finding, prevails finding = false)
    (settles : ∀ (findings : List Finding) (record : Record), ∀ finding ∈ findings,
      rule.merge (findings.foldl rule.merge record) finding =
        findings.foldl rule.merge record)
    (same : entries.foldl (rule.put prevails) table = table)
    (member : entry ∈ entries) : rule.Absorbs prevails table entry := by
  have held := congrArg (fun table => table.get? entry.1) same
  have listed : entry.2 ∈ findingsFor entry.1 entries := by
    rw [findingsFor, List.mem_map]
    exact ⟨entry, List.mem_filter.mpr ⟨member, decide_eq_true rfl⟩, rfl⟩
  rw [get?_puts] at held
  generalize findingsFor entry.1 entries = findings at held listed
  rw [absorbs_iff]
  cases found : table.get? entry.1 with
  | none =>
      rw [found] at held
      cases findings with
      | nil => cases listed
      | cons finding findings =>
          rw [recorded_none] at held
          cases held
  | some record =>
      rw [found, recorded_some, Option.some.injEq, revised_of_kept kept] at held
      refine ⟨record, rfl, ?_⟩
      rw [revise, kept, if_neg Bool.false_ne_true]
      split
      · rename_i agrees
        have counted : entry.2 ∈ findings.filter fun finding =>
            rule.kindOf record = rule.claimed finding :=
          List.mem_filter.mpr ⟨listed, decide_eq_true agrees⟩
        have merged := settles _ record entry.2 counted
        rwa [held] at merged
      · rfl

theorem puts_of_absorbs (absorbed : ∀ entry ∈ entries, rule.Absorbs prevails table entry) :
    entries.foldl (rule.put prevails) table = table := by
  induction entries with
  | nil => rfl
  | cons first entries inductionHypothesis =>
      rw [List.forall_mem_cons] at absorbed
      rw [List.foldl_cons, absorbed.1]
      exact inductionHypothesis absorbed.2

/-- Where one finding is new to a table and for a name of its own, it is all that
some findings may add. -/
theorem puts_of_fresh (absent : table.get? fresh.1 = none)
    (known : ∀ entry ∈ entries, rule.Absorbs prevails table entry ∨ entry = fresh) :
    entries.foldl (rule.put prevails) table = table ∨
      entries.foldl (rule.put prevails) table =
        table.insert fresh.1 (rule.alone fresh.2) := by
  have made : rule.put prevails table fresh =
      table.insert fresh.1 (rule.alone fresh.2) := by
    rw [put, absent]
    rfl
  have still (entry : String × Finding)
      (known : rule.Absorbs prevails table entry ∨ entry = fresh) :
      rule.Absorbs prevails (table.insert fresh.1 (rule.alone fresh.2)) entry := by
    rw [absorbs_iff, Dict.get?_insert]
    rcases known with absorbed | rfl
    · obtain ⟨record, found, same⟩ := absorbs_iff.mp absorbed
      have other : entry.1 ≠ fresh.1 := by
        intro equal
        rw [equal, absent] at found
        cases found
      rw [if_neg other]
      exact ⟨record, found, same⟩
    · rw [if_pos rfl]
      exact ⟨_, rfl, revise_alone _⟩
  induction entries with
  | nil => exact Or.inl rfl
  | cons first entries inductionHypothesis =>
      rw [List.forall_mem_cons] at known
      rw [List.foldl_cons]
      rcases known.1 with absorbed | rfl
      · rw [absorbed]
        exact inductionHypothesis known.2
      · rw [made]
        exact Or.inr (puts_of_absorbs fun entry member =>
          still entry (known.2 entry member))

end

end Rule

end PackageLayers

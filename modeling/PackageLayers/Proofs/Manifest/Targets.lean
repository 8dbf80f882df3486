/-
Purpose: The declarations of targets of a text, one behind the other.
Main exports: Written, TurnsOut, mem_findings, written_of_mem, blocks_apart
-/
import PackageLayers.Manifest.Patch
import PackageLayers.Proofs.Manifest.Outlines

namespace PackageLayers.Manifest

open Source (Span Insertion Quoted Matched)

/-!
Every declaration of a target says where its parts are written, and no two
declarations share a place.  So a change to one of them is a change to one entry
of the list of targets.
-/

/-- What a declaration of a target says of the text that it was read from. -/
structure Written (source : Source) (block : Block) : Prop where
  matched : Matched source block.parens
  opens : source.charAt? block.parens.start = some '('
  order : block.dot < block.parens.start
  argument : block.argument = dependencyArgument source block.parens
  entries : block.entries = block.argument.entries source
  dependencies :
    block.target.dependencies = block.entries.filterMap Entry.dependency
  name : ∃ quoted, labelLiteral? source block.parens "name" = some quoted ∧
    block.target.name = quoted.value ∧
    block.nameLiteral = ⟨quoted.start, quoted.stop⟩

section

variable {source : Source}

theorem written_of_blockAt {candidate : Candidate} {stop : Nat} {block : Block}
    (matched : Matched source ⟨candidate.paren, stop⟩)
    (opens : source.charAt? candidate.paren = some '(')
    (order : candidate.dot < candidate.paren)
    (found : blockAt? source candidate stop = some block) :
    Written source block ∧ block.dot = candidate.dot ∧
      block.parens = ⟨candidate.paren, stop⟩ := by
  unfold blockAt? at found
  dsimp only at found
  cases name : labelLiteral? source ⟨candidate.paren, stop⟩ "name" with
  | none =>
      rw [name] at found
      cases found
  | some quoted =>
      rw [name] at found
      simp only [Option.bind_eq_bind, Option.bind_some] at found
      split at found
      · cases found
      · cases found
        exact ⟨⟨matched, opens, order, rfl, rfl, rfl, quoted, name, rfl, rfl⟩,
          rfl, rfl⟩

theorem order_of_candidate {candidate : Candidate}
    (member : candidate ∈ candidates source) : candidate.dot < candidate.paren := by
  obtain ⟨name, known, -, next, -⟩ := call_of_candidate member
  have sought : name ∈ soughtCalls :=
    List.mem_append_left _ (List.mem_map_of_mem (f := Prod.fst) known)
  have filled := List.length_pos_of_ne_nil
    (Source.Words.filled (isWord_of_sought sought))
  have bound := (Source.next_eq_some_iff.mp next).1
  omega

/-- What a constructor turns out to be: what its balanced parentheses write, or
skipped where it has none. -/
inductive TurnsOut (source : Source) (candidate : Candidate) : Finding → Prop
  | block {stop : Nat} {block : Block}
      (partner : source.partner? candidate.paren = some stop)
      (read : blockAt? source candidate stop = some block) :
      TurnsOut source candidate (.block block)
  | skipped (unbalanced : source.partner? candidate.paren = none) :
      TurnsOut source candidate
        (.skipped ⟨candidate.dot, leadingName? source candidate.paren⟩)

/-- Every finding is what a constructor turned out to be. -/
theorem mem_findings {found : List Candidate} {covered : Nat} {finding : Finding}
    (member : finding ∈ findings source covered found) :
    ∃ candidate ∈ found, TurnsOut source candidate finding := by
  induction found generalizing covered with
  | nil => cases member
  | cons candidate found inductionHypothesis =>
      have later {covered : Nat}
          (behind : finding ∈ findings source covered found) :
          ∃ other ∈ candidate :: found, TurnsOut source other finding := by
        obtain ⟨other, here, turns⟩ := inductionHypothesis behind
        exact ⟨other, List.mem_cons_of_mem _ here, turns⟩
      rw [findings] at member
      split at member
      · exact later member
      · split at member
        · rename_i unbalanced
          rcases List.mem_cons.mp member with rfl | behind
          · exact ⟨candidate, List.mem_cons_self, .skipped unbalanced⟩
          · exact later behind
        · rename_i stop partner
          split at member
          · rename_i block read
            rcases List.mem_cons.mp member with rfl | behind
            · exact ⟨candidate, List.mem_cons_self, .block partner read⟩
            · exact later behind
          · exact later member

/-- A declaration of a target is what a constructor with balanced parentheses
writes. -/
theorem constructor_of_mem {block : Block} (member : block ∈ blocksOf source) :
    ∃ candidate ∈ candidates source, ∃ stop,
      source.partner? candidate.paren = some stop ∧
        blockAt? source candidate stop = some block := by
  obtain ⟨finding, here, same⟩ := List.mem_filterMap.mp member
  obtain ⟨candidate, known, turns⟩ := mem_findings here
  cases turns with
  | skipped => cases same
  | block partner read =>
      cases same
      exact ⟨candidate, known, _, partner, read⟩

/-- The declarations that are found are written in the text, one behind the
other. -/
theorem findings_apart {found : List Candidate} {covered : Nat}
    (opens : ∀ candidate ∈ found, source.charAt? candidate.paren = some '(' ∧
      candidate.dot < candidate.paren) :
    (∀ block ∈ (findings source covered found).filterMap Finding.block?,
        Written source block ∧ covered ≤ block.dot) ∧
      ((findings source covered found).filterMap Finding.block?).Pairwise
        fun first second => first.parens.stop < second.dot := by
  induction found generalizing covered with
  | nil => exact ⟨by simp [findings], List.Pairwise.nil⟩
  | cons candidate found inductionHypothesis =>
      have later := @inductionHypothesis covered fun other member =>
        opens other (List.mem_cons_of_mem candidate member)
      rw [findings]
      split
      · exact later
      · rename_i passed
        cases partner : source.partner? candidate.paren with
        | none =>
            simp only [List.filterMap_cons, Finding.block?]
            exact later
        | some stop =>
            cases read : blockAt? source candidate stop with
            | none =>
                simp only [read]
                exact later
            | some block =>
                obtain ⟨here, dot, parens⟩ := written_of_blockAt
                  (Source.matched_of_partner partner)
                  (opens candidate List.mem_cons_self).1
                  (opens candidate List.mem_cons_self).2 read
                have behind := @inductionHypothesis (stop + 1)
                  fun other member =>
                    opens other (List.mem_cons_of_mem candidate member)
                have start : covered ≤ candidate.dot := by
                  simp only [Bool.or_eq_true, decide_eq_true_eq, not_or] at passed
                  omega
                have order : candidate.dot < stop := by
                  have width := here.matched.order
                  have front := here.order
                  rw [parens] at width front
                  rw [dot] at front
                  exact front.trans width
                simp only [read, List.filterMap_cons, Finding.block?]
                refine ⟨fun other member => ?_, List.pairwise_cons.mpr
                  ⟨fun other member => ?_, behind.2⟩⟩
                · rcases List.mem_cons.mp member with rfl | member
                  · exact ⟨here, by rw [dot]; exact start⟩
                  · have bound := behind.1 other member
                    exact ⟨bound.1, by omega⟩
                · have bound := (behind.1 other member).2
                  rw [parens]
                  exact bound

theorem written_of_mem {block : Block} (member : block ∈ blocksOf source) :
    Written source block :=
  ((findings_apart fun _ member =>
    ⟨mem_candidates member, order_of_candidate member⟩).1 block member).1

/-- No two declarations have the same parentheses. -/
theorem blocks_apart : (blocksOf source).Pairwise fun first second =>
    first.parens.start < second.parens.start := by
  have apart := (@findings_apart source _ 0 fun _ member =>
      ⟨mem_candidates member, order_of_candidate member⟩).2
  refine List.Pairwise.imp_of_mem ?_ apart
  intro first second here there order
  have left := (written_of_mem here).matched.order
  have right := (written_of_mem there).order
  omega

/-- Two declarations with the same parentheses are one. -/
theorem eq_of_start {source : Source} {first second : Block}
    (here : first ∈ blocksOf source) (there : second ∈ blocksOf source)
    (same : first.parens.start = second.parens.start) : first = second := by
  obtain ⟨left, inside, rfl⟩ := List.mem_iff_getElem.mp here
  obtain ⟨right, inside', rfl⟩ := List.mem_iff_getElem.mp there
  have apart := List.pairwise_iff_getElem.mp (@blocks_apart source)
  rcases Nat.lt_trichotomy left right with early | equal | late
  · have order := apart left right inside inside' early
    omega
  · subst equal
    rfl
  · have order := apart right left inside' inside late
    omega

end

end PackageLayers.Manifest

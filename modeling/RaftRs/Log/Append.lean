import RaftRs.Library.Fallible
import RaftRs.Log.Window

namespace RaftRs

open Library

/-- Entries that start inside of the unstable part replace its end; earlier ones move its offset. -/
theorem Unstable.truncateAndAppend_ok {unstable unstable' : Unstable} {first : Nat} {ents : List Entry}
    (nonempty : ents ≠ []) (contiguous : Contiguous first ents)
    (done : unstable.truncateAndAppend ents = .ok unstable') :
    first ≤ unstable.offset + unstable.entries.length ∧ unstable'.snapshot = unstable.snapshot ∧
      unstable'.offset = min unstable.offset first ∧
      unstable'.entries = unstable.entries.take (first - unstable.offset) ++ ents := by
  obtain ⟨entry, rest, rfl⟩ := List.exists_cons_of_ne_nil nonempty
  have index := (contiguous_cons.1 contiguous).1
  simp only [truncateAndAppend, List.head?_cons, index] at done
  split at done
  · rename_i atEnd
    cases done
    refine ⟨by omega, rfl, by simp only; omega, ?_⟩
    simp only
    rw [List.take_of_length_le (by omega)]
  split at done
  · rename_i before
    cases done
    refine ⟨by omega, rfl, by simp only; omega, ?_⟩
    simp only
    rw [Nat.sub_eq_zero_of_le before, List.take_zero, List.nil_append]
  · rename_i inside
    obtain ⟨checked, bounded, done⟩ := bind_eq_ok.1 done
    cases done
    unfold mustCheckOutofbounds at bounded
    split at bounded
    · cases bounded
    split at bounded
    · cases bounded
    rename_i range
    exact ⟨by omega, rfl, by simp only; omega, rfl⟩

/-- Entries that start inside of the unstable part or before it are always taken. -/
theorem Unstable.truncateAndAppend_total {unstable : Unstable} {first : Nat} {ents : List Entry}
    (nonempty : ents ≠ []) (contiguous : Contiguous first ents)
    (reach : first ≤ unstable.offset + unstable.entries.length) :
    ∃ unstable', unstable.truncateAndAppend ents = .ok unstable' := by
  obtain ⟨entry, rest, rfl⟩ := List.exists_cons_of_ne_nil nonempty
  have index := (contiguous_cons.1 contiguous).1
  simp only [truncateAndAppend, List.head?_cons, index]
  split
  · exact ⟨_, rfl⟩
  split
  · exact ⟨_, rfl⟩
  · unfold mustCheckOutofbounds
    rw [if_neg (by omega), if_neg (by omega), ok_bind]
    exact ⟨_, rfl⟩

namespace RaftLog

variable {log log' : RaftLog}

theorem append_ok {ents : List Entry} (nonempty : ents ≠ []) {first : Nat}
    (contiguous : Contiguous first ents) (done : log.append ents = .ok log') :
    log.committed < first ∧ ∃ unstable, log.unstable.truncateAndAppend ents = .ok unstable ∧
      log' = { log with unstable } := by
  obtain ⟨entry, rest, rfl⟩ := List.exists_cons_of_ne_nil nonempty
  have index := (contiguous_cons.1 contiguous).1
  simp only [append, List.head?_cons, index] at done
  split at done
  · cases done
  split at done
  · cases done
  obtain ⟨unstable, truncated, done⟩ := bind_eq_ok.1 done
  cases done
  exact ⟨by omega, unstable, truncated, rfl⟩

/-- What an append of contiguous entries does to a log. -/
structure Appended (log log' : RaftLog) (first : Nat) (ents : List Entry) : Prop where
  wf : log'.WF
  above : log.committed < first
  reach : first ≤ log.lastIndex + 1
  last : log'.lastIndex + 1 = first + ents.length
  firstIndex : log'.firstIndex = log.firstIndex
  boundary : log'.boundaryTerm = log.boundaryTerm
  offset : log'.unstable.offset = min log.unstable.offset first
  snapshot : log'.unstable.snapshot = log.unstable.snapshot
  rest : log' = { log with unstable := log'.unstable }
  entryAt : ∀ i, log'.entryAt i = if i < first then log.entryAt i else ents[i - first]?

theorem WF.append (wf : log.WF) {first : Nat} {ents : List Entry} (nonempty : ents ≠ [])
    (contiguous : Contiguous first ents) (done : log.append ents = .ok log') :
    log.Appended log' first ents := by
  obtain ⟨above, unstable, truncated, rfl⟩ := append_ok nonempty contiguous done
  obtain ⟨reach, snapshot, offset, entries⟩ :=
    Unstable.truncateAndAppend_ok nonempty contiguous truncated
  have last := wf.last
  have low := wf.low
  have high := wf.high
  have firstLe := wf.first_le
  have sameFirst : ({ log with unstable } : RaftLog).firstIndex = log.firstIndex := by
    simp [RaftLog.firstIndex, Unstable.maybeFirstIndex, snapshot]
  have kept : (log.unstable.entries.take (first - log.unstable.offset)).length =
      first - log.unstable.offset := by
    rw [List.length_take]
    omega
  have size : 0 < ents.length := List.length_pos_iff.2 nonempty
  have newContiguous : Contiguous unstable.offset unstable.entries := by
    rw [offset, entries]
    rcases Nat.le_total first log.unstable.offset with before | after
    · rw [min_eq_right before, Nat.sub_eq_zero_of_le before, List.take_zero, List.nil_append]
      exact contiguous
    · rw [min_eq_left after]
      apply (wf.contiguous.take _).append
      rw [kept, show log.unstable.offset + (first - log.unstable.offset) = first by omega]
      exact contiguous
  have length : unstable.offset + unstable.entries.length = first + ents.length := by
    rw [offset, entries, List.length_append, kept]
    omega
  have lastEq : ({ log with unstable } : RaftLog).lastIndex + 1 = first + ents.length := by
    have some : unstable.entries.length ≠ 0 := by
      rw [entries, List.length_append]
      omega
    have : ({ log with unstable } : RaftLog).lastIndex = unstable.offset +
        unstable.entries.length - 1 := by
      unfold lastIndex Unstable.maybeLastIndex
      cases count : unstable.entries.length with
      | zero => exact absurd count some
      | succ n => simp
    omega
  have wf' : WF { log with unstable } := by
    refine ⟨wf.store, newContiguous, ?_, ?_, ?_, ?_⟩
    · intro s pending
      have old : log.unstable.snapshot = some s := snapshot ▸ pending
      have := wf.snapshot s old
      rw [firstIndex_of_snapshot old] at low
      simp only
      omega
    · intro none
      have old : log.unstable.snapshot = Option.none := snapshot ▸ none
      obtain ⟨storeLow, storeHigh, -⟩ := wf.joined old
      rw [firstIndex_of_none old] at low
      refine ⟨by simp only; omega, by simp only; omega, fun empty => ?_⟩
      simp only at empty
      rw [entries] at empty
      exact absurd (List.append_eq_nil_iff.1 empty).2 nonempty
    · rw [sameFirst]
      exact low
    · simp only
      omega
  refine ⟨wf', above, by omega, lastEq, sameFirst, ?_, offset, snapshot, rfl, fun i => ?_⟩
  · simp [boundaryTerm, snapshot]
  · simp only [RaftLog.entryAt, snapshot]
    rcases Nat.lt_or_ge i first with below | beyond
    · rw [if_pos below]
      rcases Nat.lt_or_ge i log.unstable.offset with stored | unstored
      · rw [if_pos (by omega), if_pos stored]
      · rw [if_neg (by omega), if_neg (by omega), entries, offset, min_eq_left (by omega),
          List.getElem?_append_left (by omega), List.getElem?_take_of_lt (by omega)]
    · rw [if_neg (by omega), if_neg (by omega), entries, List.getElem?_append_right (by omega), kept]
      congr 1
      omega

/-- Contiguous entries above the commit index that leave no gap are always appended. -/
theorem WF.append_total (wf : log.WF) {first : Nat} {ents : List Entry} (nonempty : ents ≠ [])
    (contiguous : Contiguous first ents) (above : log.committed < first)
    (reach : first ≤ log.lastIndex + 1) :
    ∃ log', log.append ents = .ok log' ∧ log.Appended log' first ents := by
  obtain ⟨entry, rest, rfl⟩ := List.exists_cons_of_ne_nil nonempty
  have index := (contiguous_cons.1 contiguous).1
  rw [wf.last] at reach
  obtain ⟨unstable, truncated⟩ := Unstable.truncateAndAppend_total nonempty contiguous reach
  have done : log.append (entry :: rest) = .ok { log with unstable } := by
    simp only [RaftLog.append, List.head?_cons, index]
    rw [if_neg (by omega), if_neg (by omega), truncated]
    rfl
  exact ⟨_, done, wf.append nonempty contiguous done⟩

theorem commitTo_ok {toCommit : Nat} (done : log.commitTo toCommit = .ok log') :
    log' = { log with committed := max log.committed toCommit } ∧
      (toCommit ≤ log.committed ∨ toCommit ≤ log.lastIndex) := by
  unfold commitTo at done
  split at done
  · rename_i old
    cases done
    exact ⟨by simp [max_eq_left old], Or.inl old⟩
  split at done
  · cases done
  · rename_i new inside
    cases done
    exact ⟨by simp [max_eq_right (Nat.le_of_not_ge new)], Or.inr (by omega)⟩

theorem WF.commit (wf : log.WF) {i : Nat} (up : log.committed ≤ i) (inside : i ≤ log.lastIndex) :
    WF { log with committed := i } :=
  ⟨wf.store, wf.contiguous, wf.snapshot, wf.joined, wf.low.trans (Nat.succ_le_succ up), inside⟩

theorem WF.commitTo (wf : log.WF) {toCommit : Nat} (done : log.commitTo toCommit = .ok log') :
    log'.WF := by
  obtain ⟨rfl, old | inside⟩ := commitTo_ok done
  · rw [max_eq_left old]
    exact wf
  · exact wf.commit (le_max_left _ _) (max_le wf.high inside)

/-- The conflict search stops at the first entry that does not match. -/
theorem findConflict_spec (log : RaftLog) {first : Nat} {ents : List Entry}
    (contiguous : Contiguous first ents) (positive : 1 ≤ first) :
    (log.findConflict ents = 0 ∧ ∀ e ∈ ents, log.matchTerm e.index e.term = true) ∨
      ∃ k, k < ents.length ∧ log.findConflict ents = first + k ∧
        (∀ e ∈ ents.take k, log.matchTerm e.index e.term = true) ∧
        ∃ e, ents[k]? = some e ∧ log.matchTerm e.index e.term = false := by
  induction ents generalizing first with
  | nil => exact Or.inl ⟨rfl, by simp⟩
  | cons entry rest ih =>
      obtain ⟨index, continues⟩ := contiguous_cons.1 contiguous
      cases agrees : log.matchTerm entry.index entry.term with
      | false =>
          refine Or.inr ⟨0, by simp, ?_, by simp, entry, rfl, agrees⟩
          rw [findConflict, if_neg (by simp [agrees]), index, Nat.add_zero]
      | true =>
          have step : log.findConflict (entry :: rest) = log.findConflict rest := by
            simp [findConflict, agrees]
          rcases ih continues (by omega) with ⟨none, all⟩ | ⟨k, inside, found, before, e, present, fails⟩
          · refine Or.inl ⟨by rw [step, none], ?_⟩
            rintro e (_ | ⟨_, member⟩)
            · exact agrees
            · exact all e member
          · refine Or.inr ⟨k + 1, by simpa using inside, by rw [step, found]; omega, ?_,
              e, by simpa using present,
              fails⟩
            rw [List.take_succ_cons]
            rintro e (_ | ⟨_, member⟩)
            · exact agrees
            · exact before e member

theorem WF.persist (wf : log.WF) (persisted : Nat) : WF { log with persisted } :=
  ⟨wf.store, wf.contiguous, wf.snapshot, wf.joined, wf.low, wf.high⟩

theorem maybePersist_ok {index term : Nat} {moved : Bool}
    (done : log.maybePersist index term = (log', moved)) :
    (moved = false ∧ log' = log) ∨
      (moved = true ∧ log' = { log with persisted := index } ∧ log.persisted < index ∧
      log.store.term index = .ok term ∧
        (∀ s, log.unstable.snapshot = some s → index < s.metadata.index) ∧
      (log.unstable.snapshot = none → index < log.unstable.offset)) := by
  unfold RaftLog.maybePersist at done
  cases stored : log.store.term index with
  | error e =>
      simp only [stored, Bool.and_false, Bool.false_eq_true, if_false, Prod.mk.injEq] at done
      exact Or.inl ⟨done.2.symm, done.1.symm⟩
  | ok t =>
      cases pending : log.unstable.snapshot with
      | none =>
          simp only [stored, pending] at done
          split at done
          · rename_i moves
            cases done
            simp only [Bool.and_eq_true, decide_eq_true_eq, beq_iff_eq] at moves
            obtain ⟨⟨up, below⟩, rfl⟩ := moves
            exact Or.inr ⟨rfl, rfl, up, rfl, nofun, fun _ => below⟩
          · cases done
            exact Or.inl ⟨rfl, rfl⟩
      | some s =>
          simp only [stored, pending] at done
          split at done
          · rename_i moves
            cases done
            simp only [Bool.and_eq_true, decide_eq_true_eq, beq_iff_eq] at moves
            obtain ⟨⟨up, below⟩, rfl⟩ := moves
            exact Or.inr ⟨rfl, rfl, up, rfl, fun _ same => Option.some.inj same ▸ below, nofun⟩
          · cases done
            exact Or.inl ⟨rfl, rfl⟩

/-- A reported position lies below the unstable entries. -/
theorem WF.maybePersist_below (wf : log.WF) {index term : Nat}
    (done : log.maybePersist index term = (log', true)) :
    index < log.unstable.offset ∧ log' = { log with persisted := index } := by
  rcases maybePersist_ok done with ⟨stays, -⟩ | ⟨-, same, -, -, pending, none⟩
  · cases stays
  · refine ⟨?_, same⟩
    cases snapshot : log.unstable.snapshot with
    | none => exact none snapshot
    | some s =>
        have := pending s snapshot
        have := wf.snapshot s snapshot
        omega

/-- The append from a conflict above the commit index appends the rest and bounds the persisted
index. -/
theorem appendFrom_conflict {idx k : Nat} {ents : List Entry} (inside : k < ents.length)
    (above : log.committed < idx + 1 + k) :
    log.appendFrom idx (idx + 1 + k) ents = (do
      let mid ← log.append (ents.drop k)
      return { mid with persisted := min mid.persisted (idx + k) }) := by
  unfold RaftLog.appendFrom
  rw [if_neg (by omega), if_neg (by omega), if_neg (by omega), show idx + 1 + k - (idx + 1) = k by omega]
  congr 1
  funext mid
  congr 1
  split
  · rename_i lower
    rw [min_eq_right (by omega)]
    congr 1
    omega
  · rename_i upper
    rw [min_eq_left (by omega)]

/-- Two logs that differ at most in their marks. -/
structure Marks (log log' : RaftLog) : Prop where
  store : log'.store = log.store
  unstable : log'.unstable = log.unstable

theorem Marks.firstIndex (marks : log.Marks log') : log'.firstIndex = log.firstIndex := by
  simp only [RaftLog.firstIndex, marks.store, marks.unstable]

theorem Marks.lastIndex (marks : log.Marks log') : log'.lastIndex = log.lastIndex := by
  simp only [RaftLog.lastIndex, marks.store, marks.unstable]

theorem Marks.entryAt (marks : log.Marks log') (i : Nat) : log'.entryAt i = log.entryAt i := by
  simp only [RaftLog.entryAt, marks.store, marks.unstable]

theorem marks_commitTo {toCommit : Nat} (done : log.commitTo toCommit = .ok log') : log.Marks log' := by
  obtain ⟨rfl, -⟩ := commitTo_ok done
  exact ⟨rfl, rfl⟩

theorem marks_maybeCommit {maxIndex term : Nat} {moved : Bool}
    (done : log.maybeCommit maxIndex term = .ok (log', moved)) : log.Marks log' := by
  unfold RaftLog.maybeCommit at done
  split at done
  · obtain ⟨middle, committed, done⟩ := bind_eq_ok.1 done
    cases done
    exact marks_commitTo committed
  · cases done
    exact ⟨rfl, rfl⟩

theorem marks_maybePersist {index term : Nat} {moved : Bool}
    (done : log.maybePersist index term = (log', moved)) :
    log.Marks log' := by
  rcases maybePersist_ok done with ⟨-, rfl⟩ | ⟨-, rfl, -⟩ <;> exact ⟨rfl, rfl⟩

theorem marks_maybePersistSnap {index : Nat} {moved : Bool}
    (done : log.maybePersistSnap index = .ok (log', moved)) :
    log.Marks log' := by
  unfold RaftLog.maybePersistSnap at done
  split_ifs at done <;> cases done <;> exact ⟨rfl, rfl⟩

theorem marks_appliedTo {idx : Nat} (done : log.appliedTo idx = .ok log') : log.Marks log' := by
  unfold RaftLog.appliedTo at done
  split_ifs at done <;> cases done <;> exact ⟨rfl, rfl⟩

/-- An append of contiguous entries keeps the shape of the log. -/
theorem WF.append_wf (wf : log.WF) {first : Nat} {ents : List Entry} (contiguous : Contiguous first ents)
    (done : log.append ents = .ok log') : log'.WF ∧ log'.unstable.snapshot = log.unstable.snapshot := by
  by_cases empty : ents = []
  · rw [empty] at done
    cases done
    exact ⟨wf, rfl⟩
  · have appended := wf.append empty contiguous done
    exact ⟨appended.wf, appended.snapshot⟩

/-- Contiguous entries of any position keep the shape of the log whenever they are accepted. -/
theorem WF.maybeAppend_wf (wf : log.WF) {idx term committed first : Nat} {ents : List Entry}
    (contiguous : Contiguous first ents) {result : Option (Nat × Nat)}
    (done : log.maybeAppend idx term committed ents = .ok (log', result)) :
    log'.WF ∧ log'.unstable.snapshot = log.unstable.snapshot := by
  unfold RaftLog.maybeAppend at done
  split at done
  · obtain ⟨mid, spliced, done⟩ := bind_eq_ok.1 done
    obtain ⟨final, moved, done⟩ := bind_eq_ok.1 done
    cases done
    have kept : mid.WF ∧ mid.unstable.snapshot = log.unstable.snapshot := by
      unfold RaftLog.appendFrom at spliced
      split at spliced
      · cases spliced
        exact ⟨wf, rfl⟩
      split_ifs at spliced
      obtain ⟨appended, done, rest⟩ := bind_eq_ok.1 spliced
      obtain ⟨appendedWf, same⟩ := wf.append_wf (contiguous.drop _) done
      cases rest
      split
      · exact ⟨appendedWf.persist _, same⟩
      · exact ⟨appendedWf, same⟩
    refine ⟨kept.1.commitTo moved, ?_⟩
    obtain ⟨rfl, -⟩ := commitTo_ok moved
    exact kept.2
  · cases done
    exact ⟨wf, rfl⟩

end RaftLog

end RaftRs

import RaftRs.Library.History
import RaftRs.Log.Read

namespace RaftRs

open Library

instance : Termed Entry := ⟨Entry.term⟩

theorem lastTerm_of_getElem? {full : List Entry} {i : Nat} {entry : Entry}
    (present : full[i]? = some entry) :
    lastTerm (full.take (i + 1)) = entry.term := by
  rw [lastTerm_take, present]
  rfl

namespace RaftLog

/-- A log shows a window of a whole log whose beginning may have been compacted. -/
structure Shows (log : RaftLog) (full : List Entry) : Prop where
  wf : log.WF
  length : full.length = log.lastIndex
  entry : ∀ i entry, log.entryAt i = some entry → full[i - 1]? = some entry
  pending : ∀ s, log.unstable.snapshot = some s →
    Library.lastTerm (full.take s.metadata.index) = s.metadata.term
  base : log.unstable.snapshot = none →
    Library.lastTerm (full.take log.store.snapshotMetadata.index) = log.store.snapshotMetadata.term

variable {log log' : RaftLog} {full : List Entry}

/-- The boundary has the last term of the compacted part. -/
theorem Shows.boundary (view : log.Shows full) (t : Nat) (known : log.boundaryTerm = some t) :
    Library.lastTerm (full.take (log.firstIndex - 1)) = t := by
  unfold boundaryTerm at known
  cases pending : log.unstable.snapshot with
  | some s =>
      simp only [pending, Option.some.injEq] at known
      rw [firstIndex_of_snapshot pending, Nat.add_sub_cancel, ← known]
      exact view.pending s pending
  | none =>
      simp only [pending] at known
      split at known
      · rename_i joined
        cases known
        rw [firstIndex_of_none pending, ← joined, Nat.add_sub_cancel]
        exact view.base pending
      · cases known

/-- The term of a position of the log. -/
theorem Shows.term (view : log.Shows full) {i t : Nat} (known : log.term i = .ok t)
    (inside : log.firstIndex ≤ i + 1) (bounded : i ≤ log.lastIndex) :
    Library.lastTerm (full.take i) = t := by
  have positive := view.wf.first_pos
  rcases Nat.lt_or_ge i log.firstIndex with below | above
  · have boundary : i + 1 = log.firstIndex := by omega
    rw [view.wf.term_boundary boundary] at known
    cases term : log.boundaryTerm with
    | none => simp [term] at known
    | some s =>
        simp only [term, Except.ok.injEq] at known
        have result := view.boundary s term
        rw [show log.firstIndex - 1 = i by omega] at result
        exact result.trans known
  · obtain ⟨entry, present⟩ := view.wf.exists_entry above bounded
    rw [view.wf.term_of_entryAt present, Except.ok.injEq] at known
    have inFull := lastTerm_of_getElem? (view.entry i entry present)
    rw [show i - 1 + 1 = i by omega] at inFull
    exact inFull.trans known

theorem Shows.commit (view : log.Shows full) {i : Nat} (up : log.committed ≤ i)
    (inside : i ≤ log.lastIndex) :
    Shows { log with committed := i } full :=
  ⟨view.wf.commit up inside, view.length, view.entry, view.pending, view.base⟩

theorem Shows.append (view : log.Shows full) {first : Nat} {ents : List Entry}
    (appended : log.Appended log' first ents) : log'.Shows (full.take (first - 1) ++ ents) := by
  have last := appended.last
  have reach := appended.reach
  have above := appended.above
  have low := view.wf.low
  have length := view.length
  have positive := view.wf.first_pos
  have kept : (full.take (first - 1)).length = first - 1 := by
    rw [List.length_take]
    omega
  have beginning : ∀ n, n + 1 ≤ log.firstIndex →
      (full.take (first - 1) ++ ents).take n = full.take n := by
    intro n compacted
    rw [List.take_append_of_le_length (by omega), List.take_take, min_eq_left (by omega)]
  refine ⟨appended.wf, ?_, ?_, ?_, ?_⟩
  · rw [List.length_append, kept]
    omega
  · intro i entry present
    obtain ⟨lowBound, -⟩ := appended.wf.bounds present
    rw [appended.firstIndex] at lowBound
    rw [appended.entryAt] at present
    split at present
    · rename_i below
      rw [List.getElem?_append_left (by omega), List.getElem?_take_of_lt (by omega)]
      exact view.entry i entry present
    · rw [List.getElem?_append_right (by omega), kept, ← present]
      congr 1
      omega
  · intro s pending
    rw [appended.snapshot] at pending
    rw [beginning _ (firstIndex_of_snapshot pending).ge]
    exact view.pending s pending
  · intro none
    rw [appended.snapshot] at none
    have sameStore : log'.store = log.store := by rw [appended.rest]
    have after := view.wf.store.after
    rw [sameStore, beginning _ (by rw [firstIndex_of_none none]; exact after)]
    exact view.base none

theorem Shows.persist (view : log.Shows full) (persisted : Nat) : Shows { log with persisted } full :=
  ⟨view.wf.persist persisted, view.length, view.entry, view.pending, view.base⟩

end RaftLog

/-- A storage shows a window of a whole log. -/
structure MemStorage.Shows (store : MemStorage) (full : List Entry) : Prop where
  wf : store.WF
  length : full.length = store.lastIndex
  entry : ∀ i entry, store.entryAt i = some entry → full[i - 1]? = some entry
  base : lastTerm (full.take store.snapshotMetadata.index) = store.snapshotMetadata.term

namespace MemStorage

variable {store store' : MemStorage} {full : List Entry}

theorem shows_entries {entries : List Entry} (contiguous : Contiguous 1 entries) :
    ({ entries } : MemStorage).Shows entries := by
  have first : ({ entries } : MemStorage).firstIndex = 1 := by
    cases entries with
    | nil => rfl
    | cons entry rest => exact (contiguous_cons.1 contiguous).1
  have wf : ({ entries } : MemStorage).WF :=
    ⟨by rw [first]; exact contiguous, by rw [first]; exact Nat.zero_lt_one⟩
  refine ⟨wf, ?_, ?_, rfl⟩
  · have last := wf.last
    rw [first] at last
    simp only at last ⊢
    omega
  · intro i entry present
    rw [entryAt, first] at present
    split at present
    · cases present
    · exact present

theorem Shows.new (view : store.Shows full) (limit : Nat) : (RaftLog.new store limit).Shows full := by
  refine ⟨RaftLog.wf_new view.wf limit, view.length, ?_, nofun, fun _ => view.base⟩
  intro i entry present
  rw [RaftLog.entryAt_new view.wf] at present
  exact view.entry i entry present

end MemStorage

end RaftRs

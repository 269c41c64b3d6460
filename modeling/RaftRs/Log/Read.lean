import RaftRs.Log.Append

namespace RaftRs

open Library

theorem limitSize_start (ents : List Entry) (max : Option Nat) : limitSize ents max <+: ents := by
  unfold limitSize
  split
  · exact List.prefix_rfl
  split
  · exact List.prefix_rfl
  split
  · exact List.prefix_rfl
  · exact List.take_prefix _ _

theorem limitSize_ne_nil {ents : List Entry} (nonempty : ents ≠ []) (max : Option Nat) :
    limitSize ents max ≠ [] := by
  obtain ⟨entry, rest, rfl⟩ := List.exists_cons_of_ne_nil nonempty
  unfold limitSize
  split
  · simp
  split
  · simp
  split
  · simp
  · simp [limitCount]

theorem sliceVec_ok {α : Type} {items result : List α} {low high : Nat}
    (done : sliceVec items low high = .ok result) :
    low ≤ high ∧ high ≤ items.length ∧ result = (items.drop low).take (high - low) := by
  unfold sliceVec at done
  split at done
  · rename_i range
    cases done
    exact ⟨range.1, range.2, rfl⟩
  · cases done

/-- Entries are read from a source at consecutive indexes. -/
def ReadsFrom (source : Nat → Option Entry) (low : Nat) (ents : List Entry) : Prop :=
  ∀ k entry, ents[k]? = some entry → source (low + k) = some entry

/-- A beginning of read entries is read. -/
theorem ReadsFrom.of_start {source : Nat → Option Entry} {low : Nat} {ents more : List Entry}
    (reads : ReadsFrom source low more) (begins : ents <+: more) : ReadsFrom source low ents := by
  intro k entry present
  obtain ⟨tail, rfl⟩ := begins
  exact reads k entry
    (by rw [List.getElem?_append_left (List.getElem?_eq_some_iff.1 present).1, present])

theorem ReadsFrom.append {source : Nat → Option Entry} {low : Nat} {ents more : List Entry}
    (left : ReadsFrom source low ents) (right : ReadsFrom source (low + ents.length) more) :
    ReadsFrom source low (ents ++ more) := by
  intro k entry present
  rcases Nat.lt_or_ge k ents.length with inside | beyond
  · rw [List.getElem?_append_left inside] at present
    exact left k entry present
  · rw [List.getElem?_append_right beyond] at present
    have read := right (k - ents.length) entry present
    rwa [show low + ents.length + (k - ents.length) = low + k by omega] at read

theorem MemStorage.entriesIn_ok {store : MemStorage} {low high : Nat} (ordered : low < high)
    {maxSize : Option Nat} {context : GetEntriesFor} {ents : List Entry}
    (done : store.entriesIn low high maxSize context = .ok (.ok ents)) :
    ReadsFrom store.entryAt low ents ∧ ents.length ≤ high - low ∧ ents ≠ [] := by
  unfold MemStorage.entriesIn at done
  split at done
  · cases done
  split at done
  · cases done
  split at done
  · cases done
  rename_i notBelow _ _
  split at done
  · cases done
  · rename_i first head
    obtain ⟨slice, sliced, done⟩ := bind_eq_ok.1 done
    cases done
    rw [← MemStorage.firstIndex_of_head head] at sliced
    obtain ⟨-, bounded, rfl⟩ := sliceVec_ok sliced
    have length : ((store.entries.drop (low - store.firstIndex)).take
        (high - store.firstIndex - (low - store.firstIndex))).length = high - low := by
      rw [List.length_take, List.length_drop]
      omega
    have whole : ReadsFrom store.entryAt low ((store.entries.drop (low - store.firstIndex)).take
        (high - store.firstIndex - (low - store.firstIndex))) := by
      intro k entry present
      have inside := (List.getElem?_eq_some_iff.1 present).1
      rw [List.getElem?_take_of_lt (by omega), List.getElem?_drop] at present
      rw [MemStorage.entryAt, if_neg (by omega), ← present]
      congr 1
      omega
    refine ⟨whole.of_start (limitSize_start _ _), ?_, ?_⟩
    · exact (limitSize_start _ _).length_le.trans length.le
    · apply limitSize_ne_nil
      rw [← List.length_pos_iff, length]
      omega

/-- The storage answers for a range that it holds with its limited beginning, unless the log is
unavailable. -/
theorem MemStorage.WF.entriesIn_eq {store : MemStorage} (wf : store.WF) {low high : Nat}
    (first : store.firstIndex ≤ low) (ordered : low < high) (last : high ≤ store.lastIndex + 1) :
    ∃ ents, ReadsFrom store.entryAt low ents ∧ ents.length = high - low ∧
      ∀ maxSize context, store.entriesIn low high maxSize context =
        if store.triggerLogUnavailable && context.canAsync then .ok (.error .logTemporarilyUnavailable)
        else .ok (.ok (limitSize ents maxSize)) := by
  have length := wf.last
  obtain ⟨entry, rest, shape⟩ : ∃ entry rest, store.entries = entry :: rest := by
    apply List.exists_cons_of_ne_nil
    intro empty
    rw [empty, List.length_nil] at length
    omega
  have head : store.entries.head? = some entry := by rw [shape, List.head?_cons]
  refine ⟨(store.entries.drop (low - store.firstIndex)).take
    (high - store.firstIndex - (low - store.firstIndex)), fun k other present => ?_, ?_,
      fun maxSize context => ?_⟩
  · have inside := (List.getElem?_eq_some_iff.1 present).1
    rw [List.length_take, List.length_drop] at inside
    rw [List.getElem?_take_of_lt (by omega), List.getElem?_drop] at present
    rw [MemStorage.entryAt, if_neg (by omega), ← present]
    congr 1
    omega
  · rw [List.length_take, List.length_drop]
    omega
  · unfold MemStorage.entriesIn
    rw [if_neg (by omega), if_neg (by omega), head]
    simp only [sliceVec, ← MemStorage.firstIndex_of_head head]
    by_cases blocked : (store.triggerLogUnavailable && context.canAsync) = true
    · rw [if_pos blocked, if_pos blocked]
    · rw [if_neg blocked, if_neg blocked, if_pos ⟨by omega, by omega⟩, ok_bind]
      rfl

namespace RaftLog

variable {log log' : RaftLog}

/-- The unstable part returns its entries of the range. -/
theorem WF.unstableSlice {low high : Nat} {ents : List Entry}
    (done : log.unstable.slice low high = .ok ents) :
    log.unstable.offset ≤ low ∧ ReadsFrom log.entryAt low ents ∧ ents.length = high - low := by
  obtain ⟨_, checked, sliced⟩ := bind_eq_ok.1 done
  unfold Unstable.mustCheckOutofbounds at checked
  split at checked
  · cases checked
  split at checked
  · cases checked
  rename_i ordered range
  obtain ⟨-, bounded, rfl⟩ := sliceVec_ok sliced
  have length : ((log.unstable.entries.drop (low - log.unstable.offset)).take
      (high - log.unstable.offset - (low - log.unstable.offset))).length = high - low := by
    rw [List.length_take, List.length_drop]
    omega
  refine ⟨by omega, fun k entry present => ?_, length⟩
  have inside := (List.getElem?_eq_some_iff.1 present).1
  rw [List.getElem?_take_of_lt (by omega), List.getElem?_drop] at present
  rw [entryAt, if_neg (by omega), ← present]
  congr 1
  omega

/-- The stored part of a range holds entries of the log. -/
theorem WF.storedSlice (wf : log.WF) {low high : Nat} (ordered : low < high)
    (first : log.firstIndex ≤ low) {maxSize : Option Nat} {context : GetEntriesFor}
    {ents : List Entry} {short : Bool}
    (done : log.storedSlice low high maxSize context = .ok (.ok (ents, short))) :
    ReadsFrom log.entryAt low ents ∧ ents.length ≤ high - low ∧
      (low < log.unstable.offset → ents ≠ [] ∧ ents.length ≤ log.unstable.offset - low) ∧
      (log.unstable.offset ≤ low → ents = []) ∧
      (short = false → low < log.unstable.offset →
        ents.length = min high log.unstable.offset - low) := by
  unfold RaftLog.storedSlice at done
  split at done
  · rename_i below
    -- The range starts in the storage, so no snapshot is pending.
    have none : log.unstable.snapshot = none := by
      cases pending : log.unstable.snapshot with
      | none => rfl
      | some s =>
          rw [firstIndex_of_snapshot pending] at first
          have := wf.snapshot s pending
          omega
    obtain ⟨result, read, done⟩ := bind_eq_ok.1 done
    split at done
    · cases done
    · cases done
    · cases done
    · cases done
      obtain ⟨reads, length, nonempty⟩ := MemStorage.entriesIn_ok (by omega) read
      refine ⟨?_, by omega, fun _ => ⟨nonempty, by omega⟩, fun above => by omega, fun complete _ => ?_⟩
      · intro k entry present
        have inside := (List.getElem?_eq_some_iff.1 present).1
        rw [entryAt, if_pos (by omega), none]
        exact reads k entry present
      · have := of_decide_eq_false complete
        omega
  · rename_i above
    cases done
    refine ⟨by intro k entry present; simp at present, by simp, fun below => absurd below above,
      fun _ => rfl, fun _ below => absurd below above⟩

/-- A range of the log is read from its start without a gap. -/
theorem WF.slice (wf : log.WF) {low high : Nat} {maxSize : Option Nat} {context : GetEntriesFor}
    {ents : List Entry} (done : log.slice low high maxSize context = .ok (.ok ents)) :
    ReadsFrom log.entryAt low ents ∧ ents.length ≤ high - low ∧ (low < high → ents ≠ []) := by
  obtain ⟨error, checked, done⟩ := bind_eq_ok.1 done
  cases error with
  | some error => cases done
  | none =>
      have range : low ≤ high ∧ log.firstIndex ≤ low := by
        unfold mustCheckOutofbounds at checked
        split at checked
        · cases checked
        split at checked
        · cases checked
        exact ⟨by omega, by omega⟩
      simp only at done
      split at done
      · cases done
        refine ⟨by intro k entry present; simp at present, by simp, fun less => by omega⟩
      · rename_i different
        obtain ⟨result, stored, done⟩ := bind_eq_ok.1 done
        cases result with
        | error error => cases done
        | ok result =>
            obtain ⟨first, short⟩ := result
            obtain ⟨reads, length, inStore, beyond, complete⟩ := wf.storedSlice (by omega) range.2 stored
            simp only at done
            split at done
            · rename_i cut
              cases done
              refine ⟨reads, length, fun _ => ?_⟩
              rcases Nat.lt_or_ge low log.unstable.offset with below | above
              · exact (inStore below).1
              · unfold RaftLog.storedSlice at stored
                rw [if_neg (by omega)] at stored
                cases stored
                cases cut
            · rename_i whole
              have notShort : short = false := by simpa using whole
              split at done
              · rename_i more
                obtain ⟨rest, unstableRead, done⟩ := bind_eq_ok.1 done
                cases done
                obtain ⟨-, restReads, restLength⟩ := WF.unstableSlice unstableRead
                have joint : low + first.length = max low log.unstable.offset := by
                  rcases Nat.lt_or_ge low log.unstable.offset with below | above
                  · have := complete notShort below
                    omega
                  · rw [beyond above, List.length_nil]
                    omega
                rw [← joint] at restReads
                have total : (first ++ rest).length = high - low := by
                  rw [List.length_append, restLength]
                  omega
                refine ⟨(reads.append restReads).of_start (limitSize_start _ _), ?_, fun _ => ?_⟩
                · exact (limitSize_start _ _).length_le.trans total.le
                · apply limitSize_ne_nil
                  rw [← List.length_pos_iff, total]
                  omega
              · rename_i noMore
                cases done
                refine ⟨reads.of_start (limitSize_start _ _), ?_, fun _ => ?_⟩
                · exact (limitSize_start _ _).length_le.trans length
                · exact limitSize_ne_nil (inStore (by omega)).1 _

/-- The entries from an index on are read without a gap. -/
theorem WF.entries (wf : log.WF) {idx : Nat} {maxSize : Option Nat} {context : GetEntriesFor}
    {ents : List Entry} (done : log.entries idx maxSize context = .ok (.ok ents)) :
    ReadsFrom log.entryAt idx ents ∧ (idx ≤ log.lastIndex → ents ≠ []) := by
  unfold RaftLog.entries at done
  split at done
  · cases done
    exact ⟨by intro k entry present; simp at present, fun inside => by omega⟩
  · obtain ⟨reads, -, nonempty⟩ := wf.slice done
    exact ⟨reads, fun inside => nonempty (by omega)⟩

end RaftLog

end RaftRs

import RaftRs.Log.Read
import RaftRs.Model.Election

namespace RaftRs

open Library

theorem limitCount_append {max size : Nat} {ents more : List Entry}
    (stops : limitCount max size ents < ents.length) :
    limitCount max size (ents ++ more) = limitCount max size ents := by
  induction ents generalizing size with
  | nil => cases stops
  | cons entry rest ih =>
      simp only [List.cons_append, limitCount, List.length_cons] at stops ⊢
      split
      · rename_i first
        rw [if_pos first] at stops
        rw [ih (Nat.lt_of_succ_lt_succ stops)]
      · rename_i later
        rw [if_neg later] at stops
        split
        · rename_i fits
          rw [if_pos fits] at stops
          rw [ih (Nat.lt_of_succ_lt_succ stops)]
        · rfl

theorem limitSize_append {ents more : List Entry} {max : Option Nat}
    (short : (limitSize ents max).length < ents.length) :
    limitSize (ents ++ more) max = limitSize ents max := by
  unfold limitSize at short ⊢
  by_cases few : ents.length ≤ 1
  · rw [if_pos few] at short
    exact absurd short (Nat.lt_irrefl _)
  rw [if_neg few] at short ⊢
  rw [if_neg (by rw [List.length_append]; omega)]
  cases max with
  | none => exact absurd short (Nat.lt_irrefl _)
  | some max =>
      simp only at short ⊢
      by_cases free : max = noLimit
      · rw [if_pos free] at short
        exact absurd short (Nat.lt_irrefl _)
      rw [if_neg free] at short ⊢
      rw [if_neg free]
      rw [List.length_take] at short
      rw [limitCount_append (by omega), List.take_append_of_le_length (by omega)]

theorem limitSize_eq_self {ents : List Entry} {max : Option Nat}
    (whole : ents.length ≤ (limitSize ents max).length) :
    limitSize ents max = ents :=
  (limitSize_start ents max).eq_of_length_le whole

theorem limitSize_none (ents : List Entry) : limitSize ents none = ents := by
  unfold limitSize
  split <;> rfl

/-- A list is cut into pages of a size limit. -/
def pagesOf (pageSize : Nat) (ents : List Entry) : List (List Entry) :=
  match ents with
  | [] => []
  | entry :: rest =>
      limitSize (entry :: rest) (some pageSize) ::
        pagesOf pageSize ((entry :: rest).drop (limitSize (entry :: rest) (some pageSize)).length)
termination_by ents.length
decreasing_by
  have positive := List.length_pos_iff.2 (limitSize_ne_nil (List.cons_ne_nil entry rest) (some pageSize))
  rw [List.length_drop, List.length_cons]
  omega

theorem pagesOf_of_ne_nil {pageSize : Nat} {ents : List Entry} (filled : ents ≠ []) :
    pagesOf pageSize ents = limitSize ents (some pageSize) ::
      pagesOf pageSize (ents.drop (limitSize ents (some pageSize)).length) := by
  obtain ⟨entry, rest, rfl⟩ := List.exists_cons_of_ne_nil filled
  rw [pagesOf]

/-- The pages are not empty and make up the list. -/
theorem pagesOf_flatten (pageSize : Nat) (ents : List Entry) :
    (pagesOf pageSize ents).flatten = ents ∧ ∀ page ∈ pagesOf pageSize ents, page ≠ [] := by
  induction size : ents.length using Nat.strong_induction_on generalizing ents with
  | _ n ih =>
      cases ents with
      | nil =>
          rw [pagesOf]
          exact ⟨rfl, List.forall_mem_nil _⟩
      | cons entry rest =>
          have nonempty := limitSize_ne_nil (List.cons_ne_nil entry rest) (some pageSize)
          have positive := List.length_pos_iff.2 nonempty
          obtain ⟨joined, filled⟩ := ih _ (by rw [List.length_drop, ← size, List.length_cons]; omega)
            ((entry :: rest).drop (limitSize (entry :: rest) (some pageSize)).length) rfl
          rw [pagesOf_of_ne_nil (List.cons_ne_nil entry rest), List.flatten_cons, joined]
          refine ⟨?_, List.forall_mem_cons.2 ⟨nonempty, filled⟩⟩
          have begins := List.prefix_iff_eq_take.1 (limitSize_start (entry :: rest) (some pageSize))
          conv_lhs => rw [begins, List.length_take]
          rw [min_eq_left (limitSize_start _ _).length_le, List.take_append_drop]

/-- A visitor sees page after page until it stops. -/
def visitPages {α : Type} (visit : α → List Entry → α × Bool) : α → List (List Entry) → α
  | acc, [] => acc
  | acc, page :: pages => if (visit acc page).2 then visitPages visit (visit acc page).1 pages
      else (visit acc page).1

namespace RaftLog

variable {log : RaftLog} {low high : Nat}

/-- The entries of the log in a range, stored and unstable ones together. -/
def range (log : RaftLog) (low high : Nat) : List Entry :=
  (List.range' low (high - low)).filterMap log.entryAt

theorem range_eq {ents : List Entry} (reads : ReadsFrom log.entryAt low ents)
    (whole : ents.length = high - low) :
    log.range low high = ents := by
  unfold range
  rw [← whole]
  clear whole
  induction ents generalizing low with
  | nil => rfl
  | cons entry rest ih =>
      have first : log.entryAt low = some entry := reads 0 entry rfl
      rw [List.length_cons, List.range'_succ, List.filterMap_cons_some first]
      congr 1
      refine ih fun k other present => ?_
      have read := reads (k + 1) other present
      rwa [show low + (k + 1) = low + 1 + k by omega] at read

theorem range_self (log : RaftLog) (low : Nat) : log.range low low = [] := by
  rw [range, Nat.sub_self]
  rfl

theorem range_append (log : RaftLog) {mid : Nat} (first : low ≤ mid) (second : mid ≤ high) :
    log.range low mid ++ log.range mid high = log.range low high := by
  have joined := List.range'_append_1 (s := low) (m := mid - low) (n := high - mid)
  rw [show low + (mid - low) = mid by omega,
    show mid - low + (high - mid) = high - low by omega] at joined
  rw [range, range, range, ← List.filterMap_append, joined]

theorem WF.index_range (wf : log.WF) {entry : Entry} (inside : entry ∈ log.range low high) :
    low ≤ entry.index ∧ entry.index < high := by
  obtain ⟨i, member, present⟩ := List.mem_filterMap.1 inside
  obtain ⟨least, most⟩ := List.mem_range'_1.1 member
  rw [wf.entryAt_index present]
  exact ⟨least, by omega⟩

/-- The unstable part answers for a range that it holds. -/
theorem WF.unstable_total (wf : log.WF) (first : log.unstable.offset ≤ low) (ordered : low ≤ high)
    (last : high ≤ log.lastIndex + 1) :
    ∃ rest, log.unstable.slice low high = .ok rest ∧ ReadsFrom log.entryAt low rest ∧
      rest.length = high - low := by
  have ends := wf.last
  obtain ⟨rest, sliced⟩ : ∃ rest, log.unstable.slice low high = .ok rest := by
    unfold Unstable.slice Unstable.mustCheckOutofbounds sliceVec
    rw [if_neg (by omega), if_neg (by omega), ok_bind, if_pos ⟨by omega, by omega⟩]
    exact ⟨_, rfl⟩
  obtain ⟨-, reads, length⟩ := WF.unstableSlice sliced
  exact ⟨rest, sliced, reads, length⟩

/-- The stored part of a range is a beginning of it, limited in size. -/
theorem WF.stored_total (wf : log.WF) (first : log.firstIndex ≤ low) (ordered : low < high)
    (stored : low < log.unstable.offset) :
    ∃ ents, ReadsFrom log.entryAt low ents ∧ ents.length = min high log.unstable.offset - low ∧
      ∀ maxSize context, log.storedSlice low high maxSize context =
        if log.store.triggerLogUnavailable &&
          context.canAsync then .ok (.error .logTemporarilyUnavailable)
        else .ok (.ok (limitSize ents maxSize,
          decide ((limitSize ents maxSize).length < ents.length))) := by
  -- The range starts in the storage, so no snapshot is pending.
  have none : log.unstable.snapshot = none := by
    cases pending : log.unstable.snapshot with
    | none => rfl
    | some s =>
        rw [firstIndex_of_snapshot pending] at first
        have := wf.snapshot s pending
        omega
  have joined := wf.joined none
  rw [firstIndex_of_none none] at first
  have inside : min high log.unstable.offset ≤ log.store.lastIndex + 1 := by omega
  obtain ⟨ents, reads, length, answer⟩ := wf.store.entriesIn_eq first (by omega) inside
  refine ⟨ents, fun k entry present => ?_, length, fun maxSize context => ?_⟩
  · have bound := (List.getElem?_eq_some_iff.1 present).1
    rw [entryAt, if_pos (by omega), none]
    exact reads k entry present
  · unfold RaftLog.storedSlice
    simp only [if_pos stored, answer, ← length]
    split <;> rfl

/-- A read of a range starts in the storage while the log is reported as temporarily unavailable. -/
def Unavailable (log : RaftLog) (low high : Nat) (context : GetEntriesFor) : Prop :=
  low < high ∧ low < log.unstable.offset ∧ (log.store.triggerLogUnavailable && context.canAsync) = true

theorem WF.slice_eq (wf : log.WF) (first : log.firstIndex ≤ low) (ordered : low ≤ high)
    (last : high ≤ log.lastIndex + 1) (maxSize : Option Nat) {context : GetEntriesFor}
    (available : ¬ log.Unavailable low high context) :
    log.slice low high maxSize context = .ok (.ok (limitSize (log.range low high) maxSize)) := by
  have checked : log.mustCheckOutofbounds low high = .ok none := by
    unfold mustCheckOutofbounds
    rw [if_neg (by omega), if_neg (by omega), if_neg (by omega)]
  unfold RaftLog.slice
  rw [checked, ok_bind]
  simp only
  split
  next equal =>
    subst equal
    rw [range_self]
    rfl
  next different =>
    rcases Nat.lt_or_ge low log.unstable.offset with stored | unstable
    · have less : low < high := by omega
      obtain ⟨ents, reads, length, answer⟩ := wf.stored_total first less stored
      rw [answer, if_neg fun blocked => available ⟨less, stored, blocked⟩, ok_bind]
      simp only
      rcases Nat.lt_or_ge log.unstable.offset high with more | all
      · -- The range continues in the unstable part.
        obtain ⟨rest, sliced, reads', length'⟩ := wf.unstable_total le_rfl more.le last
        have whole : log.range low high = ents ++ rest := by
          refine range_eq (reads.append ?_) (by rw [List.length_append]; omega)
          rwa [show low + ents.length = log.unstable.offset by omega]
        rw [whole]
        by_cases short : (limitSize ents maxSize).length < ents.length
        · rw [if_pos (decide_eq_true short), limitSize_append short]
          rfl
        · rw [if_neg (by simp [short]), if_pos more, max_eq_right stored.le, sliced, ok_bind,
            limitSize_eq_self (Nat.le_of_not_lt short)]
          rfl
      · have whole : log.range low high = ents := range_eq reads (by omega)
        rw [whole]
        by_cases short : (limitSize ents maxSize).length < ents.length
        · rw [if_pos (decide_eq_true short)]
          rfl
        · rw [if_neg (by simp [short]), if_neg (by omega), limitSize_eq_self (Nat.le_of_not_lt short)]
          exact congrArg (fun kept => Except.ok (Except.ok kept))
            (limitSize_eq_self (Nat.le_of_not_lt short))
    · obtain ⟨rest, sliced, reads, length⟩ := wf.unstable_total unstable ordered last
      have none : log.storedSlice low high maxSize context = .ok (.ok ([], false)) := by
        unfold RaftLog.storedSlice
        rw [if_neg (by omega)]
      rw [none, ok_bind]
      simp only [Bool.false_eq_true, if_false]
      rw [if_pos (by omega), max_eq_left unstable, sliced, ok_bind, range_eq reads length]
      rfl

/-- A slice of stored entries reports a log that is temporarily unavailable. -/
theorem WF.slice_unavailable (wf : log.WF) (first : log.firstIndex ≤ low)
    (last : high ≤ log.lastIndex + 1) (maxSize : Option Nat) {context : GetEntriesFor}
    (blocked : log.Unavailable low high context) :
    log.slice low high maxSize context = .ok (.error .logTemporarilyUnavailable) := by
  obtain ⟨less, stored, blocked⟩ := blocked
  have checked : log.mustCheckOutofbounds low high = .ok none := by
    unfold mustCheckOutofbounds
    rw [if_neg (by omega), if_neg (by omega), if_neg (by omega)]
  obtain ⟨ents, -, -, answer⟩ := wf.stored_total first less stored
  unfold RaftLog.slice
  rw [checked, ok_bind]
  simp only
  rw [if_neg (by omega), answer, if_pos blocked, ok_bind]
  rfl

theorem range_cons {entry : Entry} (less : low < high) (present : log.entryAt low = some entry) :
    log.range low high = entry :: log.range (low + 1) high := by
  unfold range
  rw [show high - low = high - (low + 1) + 1 by omega, List.range'_succ,
    List.filterMap_cons_some present]

/-- A slice from a compacted index is refused. -/
theorem slice_compacted (ordered : low ≤ high) (compacted : low < log.firstIndex) (maxSize : Option Nat)
    (context : GetEntriesFor) : log.slice low high maxSize context = .ok (.error .compacted) := by
  have checked : log.mustCheckOutofbounds low high = .ok (some .compacted) := by
    unfold mustCheckOutofbounds
    rw [if_neg (by omega), if_pos compacted]
  unfold slice
  rw [checked]
  rfl

/-- The entries from an index on lie behind the log, cannot be read, or are a limited beginning of
their range. -/
theorem WF.entries_cases (wf : log.WF) (idx : Nat) (maxSize : Option Nat) (context : GetEntriesFor) :
    (log.lastIndex < idx ∧ log.entries idx maxSize context = .ok (.ok [])) ∨
      (∃ e, (idx < log.firstIndex ∨ e = .logTemporarilyUnavailable) ∧
        log.entries idx maxSize context = .ok (.error e)) ∨
      (log.firstIndex ≤ idx ∧ idx ≤ log.lastIndex ∧
        log.entries idx maxSize context =
          .ok (.ok (limitSize (log.range idx (log.lastIndex + 1)) maxSize))) := by
  unfold RaftLog.entries
  split
  next beyond => exact .inl ⟨beyond, rfl⟩
  next inside =>
    right
    by_cases compacted : idx < log.firstIndex
    · exact .inl ⟨_, .inl compacted, slice_compacted (by omega) compacted maxSize context⟩
    have first : log.firstIndex ≤ idx := Nat.le_of_not_lt compacted
    by_cases blocked : log.Unavailable idx (log.lastIndex + 1) context
    · exact .inl ⟨_, .inr rfl, wf.slice_unavailable first le_rfl maxSize blocked⟩
    · exact .inr ⟨first, by omega, wf.slice_eq first (by omega) le_rfl maxSize blocked⟩

theorem range_of_le (le : high ≤ low) : log.range low high = [] := by
  rw [range, Nat.sub_eq_zero_of_le le]
  rfl

/-- A range of the log from a later index is the end of the range. -/
theorem WF.range_drop (wf : log.WF) (first : log.firstIndex ≤ low) (last : high ≤ log.lastIndex + 1)
    (n : Nat) :
    (log.range low high).drop n = log.range (low + n) high := by
  induction n generalizing low with
  | zero => rfl
  | succ n ih =>
      rcases Nat.lt_or_ge low high with less | le
      · obtain ⟨entry, present⟩ := wf.exists_entry first (by omega)
        rw [range_cons less present, List.drop_succ_cons, ih (by omega)]
        congr 1
        omega
      · rw [range_of_le le, range_of_le (by omega), List.drop_nil]

theorem WF.range_ne_nil (wf : log.WF) (first : log.firstIndex ≤ low) (less : low < high)
    (last : high ≤ log.lastIndex + 1) : log.range low high ≠ [] := by
  obtain ⟨entry, present⟩ := wf.exists_entry first (by omega)
  rw [range_cons less present]
  exact List.cons_ne_nil _ _

theorem WF.getElem?_range (wf : log.WF) (first : log.firstIndex ≤ low)
    (last : high ≤ log.lastIndex + 1) {k : Nat} (inside : k < high - low) :
    (log.range low high)[k]? = log.entryAt (low + k) := by
  obtain ⟨entry, present⟩ := wf.exists_entry (show log.firstIndex ≤ low + k by omega) (by omega)
  rw [← List.head?_drop, wf.range_drop first last, range_cons (by omega) present, present,
    List.head?_cons]

/-- A range has as many entries as indexes. -/
theorem WF.length_range (wf : log.WF) (first : log.firstIndex ≤ low) (last : high ≤ log.lastIndex + 1) :
    (log.range low high).length = high - low := by
  apply Nat.le_antisymm
  · exact (List.length_filterMap_le _ _).trans (List.length_range').le
  · by_contra short
    have present := wf.getElem?_range first last (Nat.lt_of_not_le short)
    obtain ⟨entry, found⟩ :=
      wf.exists_entry (show log.firstIndex ≤ low + (log.range low high).length by omega) (by omega)
    rw [List.getElem?_eq_none le_rfl, found] at present
    cases present

theorem Unavailable.earlier {context : GetEntriesFor} {later : Nat} (le : low ≤ later)
    (blocked : log.Unavailable later high context) : log.Unavailable low high context :=
  ⟨le.trans_lt blocked.1, le.trans_lt blocked.2.1, blocked.2.2⟩

theorem WF.scan_eq {α : Type} (wf : log.WF) (first : log.firstIndex ≤ low)
    (last : high ≤ log.lastIndex + 1) (pageSize : Nat) {context : GetEntriesFor}
    (available : ¬ log.Unavailable low high context) (visit : α → List Entry → α × Bool)
    {fuel : Nat} (enough : high - low ≤ fuel) (acc : α) :
    log.scan high pageSize context visit fuel low acc =
      .ok (.ok (visitPages visit acc (pagesOf pageSize (log.range low high)))) := by
  induction fuel generalizing low acc with
  | zero =>
      rw [range_of_le (by omega), scan, if_neg (by omega), pagesOf]
      rfl
  | succ fuel ih =>
      unfold scan
      split
      next less =>
        have filled := wf.range_ne_nil first less last
        obtain ⟨entry, rest, shape⟩ :=
          List.exists_cons_of_ne_nil (limitSize_ne_nil filled (some pageSize))
        have positive : 0 < (entry :: rest).length := Nat.succ_pos _
        have continued : ∀ acc, log.scan high pageSize context visit fuel
            (low + (entry :: rest).length) acc = _ :=
          ih (by omega) (fun blocked => available (blocked.earlier (Nat.le_add_right _ _))) (by omega)
        rw [wf.slice_eq first less.le last _ available, ok_bind, shape, pagesOf_of_ne_nil filled, shape,
          wf.range_drop first last]
        simp only [visitPages]
        split
        · exact continued _
        · rfl
      next passed =>
        rw [range_of_le (by omega), pagesOf]
        rfl

/-- A scan of stored entries reports a log that is temporarily unavailable. -/
theorem WF.scan_unavailable {α : Type} (wf : log.WF) (first : log.firstIndex ≤ low)
    (last : high ≤ log.lastIndex + 1) (pageSize : Nat) {context : GetEntriesFor}
    (blocked : log.Unavailable low high context) (visit : α → List Entry → α × Bool) {fuel : Nat}
    (enough : high - low ≤ fuel) (acc : α) :
    log.scan high pageSize context visit fuel low acc = .ok (.error .logTemporarilyUnavailable) := by
  have less := blocked.1
  cases fuel with
  | zero => omega
  | succ fuel =>
      unfold scan
      rw [if_pos less, wf.slice_unavailable first last _ blocked, ok_bind]
      rfl

end RaftLog

namespace Raft

/-- The search for a configuration change page by page finds one exactly when there is one. -/
theorem visitPages_confChange (pages : List (List Entry)) :
    visitPages (fun (_ : Bool) ents => if hasConfChange ents then (true, false) else (false, true))
      false pages =
      hasConfChange pages.flatten := by
  induction pages with
  | nil => rfl
  | cons page pages ih =>
      unfold hasConfChange at ih ⊢
      rw [visitPages, List.flatten_cons, List.any_append]
      cases found : page.any fun e => e.entryType == .entryConfChange ||
        e.entryType == .entryConfChangeV2 with
      | true => rfl
      | false => exact ih

/-- The search for an unapplied configuration change looks at the range of the log and not at the
page size. -/
theorem hasUnappliedConfChanges_eq {r : Raft} (wf : r.raftLog.WF) {low high : Nat}
    (first : r.raftLog.firstIndex ≤ low) (last : high ≤ r.raftLog.lastIndex + 1)
    {context : GetEntriesFor} (available : ¬ r.raftLog.Unavailable low high context) :
    r.hasUnappliedConfChanges low high context =
      .ok (decide (r.raftLog.applied < r.raftLog.committed) &&
        hasConfChange (r.raftLog.range low high)) := by
  unfold hasUnappliedConfChanges
  split
  next applied => rw [decide_eq_false (by omega), Bool.false_and]
  next behind =>
    simp only [wf.scan_eq first last _ available _ le_rfl, visitPages_confChange,
      (pagesOf_flatten _ _).1]
    rw [decide_eq_true (by omega), Bool.true_and]
    rfl

end Raft

/-- Slices and scans of a log read its entries in order, whatever the limits of size are. -/
theorem paged_reading {r : Raft} (wf : r.raftLog.WF) {low high : Nat}
    (first : r.raftLog.firstIndex ≤ low) (ordered : low ≤ high) (last : high ≤ r.raftLog.lastIndex + 1) :
    (r.raftLog.range low high).length = high - low ∧
      (∀ k < high - low, (r.raftLog.range low high)[k]? = r.raftLog.entryAt (low + k)) ∧
      (∀ maxSize context, ¬ r.raftLog.Unavailable low high context →
        r.raftLog.slice low high maxSize context =
          .ok (.ok (limitSize (r.raftLog.range low high) maxSize)) ∧
          (low < high → limitSize (r.raftLog.range low high) maxSize ≠ [])) ∧
      (∀ pageSize, (pagesOf pageSize (r.raftLog.range low high)).flatten = r.raftLog.range low high ∧
        ∀ page ∈ pagesOf pageSize (r.raftLog.range low high), page ≠ []) ∧
      (∀ (α : Type) (visit : α → List Entry → α × Bool) (acc : α) (pageSize : Nat)
          (context : GetEntriesFor),
        ¬ r.raftLog.Unavailable low high context → ∀ fuel, high - low ≤ fuel →
          r.raftLog.scan high pageSize context visit fuel low acc =
            .ok (.ok (visitPages visit acc (pagesOf pageSize (r.raftLog.range low high))))) ∧
      (∀ context, r.raftLog.Unavailable low high context →
        (∀ maxSize, r.raftLog.slice low high maxSize context =
          .ok (.error .logTemporarilyUnavailable))) ∧
      ∀ context size, Raft.hasUnappliedConfChanges { r with
        maxCommittedSizePerReady := size } low high context =
        r.hasUnappliedConfChanges low high context := by
  refine ⟨wf.length_range first last, fun k => wf.getElem?_range first last,
    fun maxSize context available => ?_, fun pageSize => pagesOf_flatten _ _,
    fun α visit acc pageSize context available fuel enough => wf.scan_eq first last _ available
      visit enough acc,
    fun context blocked maxSize => wf.slice_unavailable first last maxSize blocked,
      fun context size => ?_⟩
  · exact ⟨wf.slice_eq first ordered last maxSize available,
      fun less => limitSize_ne_nil (wf.range_ne_nil first less last) maxSize⟩
  · by_cases blocked : r.raftLog.Unavailable low high context
    · unfold Raft.hasUnappliedConfChanges
      simp only [wf.scan_unavailable first last _ blocked _ le_rfl]
    · rw [Raft.hasUnappliedConfChanges_eq wf first last blocked]
      exact Raft.hasUnappliedConfChanges_eq (r := { r with maxCommittedSizePerReady := size }) wf
        first last blocked

/-- Three stored entries are read as one slice. -/
theorem paged_reading_three :
    let store : MemStorage := { entries := [{ index := 1 }, { index := 2 }, { index := 3 }] }
    let log := RaftLog.new store 0
    log.range 1 4 = store.entries ∧
      log.slice 1 4 (some 0) (.empty false) = .ok (.ok [{ index := 1 }]) := by
  intro store log
  have wf : store.WF := by
    refine ⟨contiguous_cons.2
      ⟨rfl, contiguous_cons.2 ⟨rfl, contiguous_cons.2 ⟨rfl, contiguous_nil _⟩⟩⟩, ?_⟩
    exact Nat.zero_lt_one
  let r : Raft :=
    { prs := ProgressTracker.new 256, id := 1, raftLog := log, maxMsgSize := 0,
      readOnly := ReadOnly.new .safe
      checkQuorum := false, preVote := false, skipBcastCommit := false, batchAppend := false
      disableProposalForwarding := false, heartbeatTimeout := 1, electionTimeout :=
        10, minElectionTimeout := 10
      maxElectionTimeout := 20, priority := 0, uncommittedState := { maxUncommittedSize := 0 }
      maxCommittedSizePerReady := 0, rng := id }
  have read : (log.range 1 4).length = 4 - 1 ∧ _ :=
    paged_reading (r := r) (RaftLog.wf_new wf 0) (by decide) (by decide) (by decide)
  have whole : log.range 1 4 = store.entries := by decide +kernel
  refine ⟨whole, ((read.2.2.1 (some 0) (.empty false) ?_).1).trans ?_⟩
  · rintro ⟨-, -, blocked⟩
    cases blocked
  · rw [whole]
    decide +kernel

end RaftRs

import RaftRs.Log.Shows
import RaftRs.Model.Host

namespace RaftRs

open Library

/-- The storage after the pending snapshot and the unstable entries of a log have been written. -/
structure RaftLog.Written (log : RaftLog) (store : MemStorage) : Prop where
  wf : store.WF
  last : store.lastIndex = log.lastIndex
  first : store.firstIndex = log.firstIndex
  snapshot : ∀ s, log.unstable.snapshot = some s → store.snapshotMetadata = s.metadata
  base : log.unstable.snapshot = none → store.snapshotMetadata = log.store.snapshotMetadata
  entryAt : ∀ i, store.entryAt i = log.entryAt i

/-- A pending snapshot and the unstable entries are written to the storage. -/
theorem RaftLog.WF.written {log : RaftLog} (wf : log.WF) {middle store : MemStorage}
    (applied : ∀ s, log.unstable.snapshot = some s → log.store.applySnapshot s = .ok middle)
    (unapplied : log.unstable.snapshot = none → middle = log.store)
    (appended : middle.append log.unstable.entries = .ok store) : log.Written store := by
  have last := wf.last
  have entryAt_eq : ∀ i, log.entryAt i = if i < log.unstable.offset then
      (if log.unstable.snapshot.isSome then none else log.store.entryAt i)
      else log.unstable.entries[i - log.unstable.offset]? := fun _ => rfl
  cases pending : log.unstable.snapshot with
  | none =>
      obtain rfl := unapplied pending
      obtain ⟨low, high, whenEmpty⟩ := wf.joined pending
      by_cases empty : log.unstable.entries = []
      · rw [empty] at appended last
        cases appended
        have offset := whenEmpty empty
        rw [List.length_nil] at last
        refine ⟨wf.store, by omega, (RaftLog.firstIndex_of_none pending).symm, ?_, fun _ => rfl,
          fun i => ?_⟩
        · intro s other
          cases pending.symm.trans other
        · rw [entryAt_eq, pending, empty]
          split
          · rfl
          · rename_i beyond
            have := wf.store.entryAt_isSome (i := i)
            rw [List.getElem?_nil, ← Option.not_isSome_iff_eq_none, this]
            omega
      · obtain ⟨storeWf, first, -, -, lastEq, snapshot, -, entries⟩ :=
          wf.store.append empty wf.contiguous appended
        refine ⟨storeWf, by omega, by rw [first, RaftLog.firstIndex_of_none pending], ?_,
          fun _ => snapshot, fun i => ?_⟩
        · intro s other
          cases pending.symm.trans other
        · rw [entries, entryAt_eq, pending]
          rfl
  | some s =>
      obtain ⟨middleWf, first, middleLast, metadata, entries⟩ :=
        MemStorage.WF.applySnapshot (applied s pending)
      have offset := wf.snapshot s pending
      have noEntry : ∀ i, middle.entryAt i = none := by
        intro i
        rw [MemStorage.entryAt, entries]
        simp
      by_cases empty : log.unstable.entries = []
      · rw [empty] at appended last
        cases appended
        rw [List.length_nil] at last
        refine ⟨middleWf, by omega, by rw [first, RaftLog.firstIndex_of_snapshot pending], ?_, ?_,
          fun i => ?_⟩
        · rintro s' other
          cases pending.symm.trans other
          exact metadata
        · intro none
          cases pending.symm.trans none
        · rw [entryAt_eq, pending, empty, noEntry]
          simp
      · obtain ⟨storeWf, sameFirst, -, -, lastEq, snapshot, -, newEntries⟩ :=
          middleWf.append empty wf.contiguous appended
        refine ⟨storeWf, by omega, by rw [sameFirst, first, RaftLog.firstIndex_of_snapshot pending],
          ?_, ?_, fun i => ?_⟩
        · rintro s' other
          cases pending.symm.trans other
          rw [snapshot, metadata]
        · intro none
          cases pending.symm.trans none
        · rw [newEntries, entryAt_eq, pending, noEntry]
          rfl

/-- The pending snapshot and the unstable entries can be written unless the storage has gone beyond
the snapshot. -/
theorem RaftLog.WF.written_total {log : RaftLog} (wf : log.WF)
    (fresh : ∀ s, log.unstable.snapshot = some s → log.store.firstIndex ≤ s.metadata.index) :
    ∃ middle store, (∀ s, log.unstable.snapshot = some s → log.store.applySnapshot s = .ok middle) ∧
      (log.unstable.snapshot = none → middle = log.store) ∧
        middle.append log.unstable.entries = .ok store := by
  have appends : ∀ middle : MemStorage, middle.firstIndex ≤ log.unstable.offset →
      log.unstable.offset ≤ middle.lastIndex + 1 →
        ∃ store, middle.append log.unstable.entries = .ok store := by
    intro middle low high
    cases shape : log.unstable.entries with
    | nil => exact ⟨middle, rfl⟩
    | cons entry rest =>
        have contiguous := wf.contiguous
        rw [shape] at contiguous
        have index := (contiguous_cons.1 contiguous).1
        simp only [MemStorage.append]
        rw [if_neg (by omega), if_neg (by omega)]
        exact ⟨_, rfl⟩
  cases pending : log.unstable.snapshot with
  | none =>
      obtain ⟨low, high, -⟩ := wf.joined pending
      obtain ⟨store, appended⟩ := appends log.store low high
      exact ⟨log.store, store, by simp, fun _ => rfl, appended⟩
  | some s =>
      have offset := wf.snapshot s pending
      have below := fresh s pending
      obtain ⟨middle, applied⟩ : ∃ middle, log.store.applySnapshot s = .ok middle := by
        unfold MemStorage.applySnapshot
        simp only
        rw [if_neg (by omega)]
        exact ⟨_, rfl⟩
      obtain ⟨-, first, last, -, -⟩ := MemStorage.WF.applySnapshot applied
      obtain ⟨store, appended⟩ := appends middle (by omega) (by omega)
      exact ⟨middle, store, fun _ same => Option.some.inj same ▸ applied, by simp, appended⟩

/-- The pending snapshot and the unstable entries become stable. -/
def RaftLog.stable (log : RaftLog) : Except Fatal RaftLog := do
  let settled ← (match log.unstable.snapshot with
    | none => pure log
    | some snapshot => log.stableSnap snapshot.metadata.index)
  match log.unstable.entries.getLast? with
  | none => return settled
  | some entry => settled.stableEntries entry.index entry.term

/-- The unstable entries leave the unstable part when their last one is named. -/
theorem RaftLog.stableEntries_last {log : RaftLog} {entry : Entry} (none : log.unstable.snapshot = none)
    (ends : log.unstable.entries.getLast? = some entry) :
    log.stableEntries entry.index entry.term =
      .ok { log with unstable := { entriesSize := 0, offset := entry.index + 1 } } := by
  unfold RaftLog.stableEntries Unstable.stableEntries
  rw [none, ends]
  simp

/-- The unstable part is empty after it has become stable. -/
theorem RaftLog.WF.stable {log : RaftLog} (wf : log.WF) (store : MemStorage) :
    ∃ entriesSize, RaftLog.stable { log with store } =
      .ok { log with store, unstable := { entriesSize, offset := log.lastIndex + 1 } } := by
  have last := wf.last
  obtain ⟨settled, done, same⟩ : ∃ settled : RaftLog, (match log.unstable.snapshot with
      | none => pure { log with store }
      | some snapshot => RaftLog.stableSnap { log with store } snapshot.metadata.index) =
        (.ok settled : Except Fatal RaftLog) ∧
      settled = { log with store, unstable := { log.unstable with snapshot := none } } := by
    cases pending : log.unstable.snapshot with
    | none => exact ⟨{ log with store }, rfl, by rw [← pending]⟩
    | some s => exact ⟨_, by simp [RaftLog.stableSnap, Unstable.stableSnap, pending], rfl⟩
  have shape : RaftLog.stable { log with store } = (match log.unstable.entries.getLast? with
      | none => (.ok settled : Except Fatal RaftLog)
      | some entry => settled.stableEntries entry.index entry.term) := by
    have bound := congrArg (fun run : Except Fatal RaftLog => run >>= fun settled =>
      match log.unstable.entries.getLast? with
      | none => return settled
      | some entry => settled.stableEntries entry.index entry.term) done
    exact bound
  rw [shape]
  cases ends : log.unstable.entries.getLast? with
  | none =>
      have empty := List.getLast?_eq_none_iff.1 ends
      simp only [empty, List.length_nil, Nat.add_zero] at last
      exact ⟨log.unstable.entriesSize, by simp only [same, empty, last]⟩
  | some entry =>
      have index := wf.contiguous.last ends
      refine ⟨0, ?_⟩
      have none : settled.unstable.snapshot = none := by rw [same]
      have done := RaftLog.stableEntries_last none (by rw [same]; exact ends)
      rw [last, ← index]
      show settled.stableEntries entry.index entry.term = _
      rw [done, same]

/-- Two logs with the same content and the same marks. -/
structure RaftLog.Alike (log log' : RaftLog) : Prop where
  first : log'.firstIndex = log.firstIndex
  last : log'.lastIndex = log.lastIndex
  boundary : log'.boundaryTerm = log.boundaryTerm
  entryAt : ∀ i, log'.entryAt i = log.entryAt i
  committed : log'.committed = log.committed
  persisted : log'.persisted = log.persisted
  applied : log'.applied = log.applied

theorem RaftLog.Alike.join {log log' log'' : RaftLog} (left : log.Alike log') (right : log.Alike log'') :
    log'.Alike log'' :=
  ⟨right.first.trans left.first.symm, right.last.trans left.last.symm,
    right.boundary.trans left.boundary.symm, fun i => (right.entryAt i).trans (left.entryAt i).symm,
      right.committed.trans left.committed.symm,
    right.persisted.trans left.persisted.symm, right.applied.trans left.applied.symm⟩

theorem RaftLog.Written.busy {log : RaftLog} {store : MemStorage} (written : log.Written store) :
    log.Alike { log with store } := by
  have beyond : ∀ i, log.unstable.offset ≤ i →
      ({ log with store } : RaftLog).entryAt i = log.entryAt i := by
    intro i above
    simp [RaftLog.entryAt, not_lt.2 above]
  cases pending : log.unstable.snapshot with
  | some s =>
      refine ⟨?_, ?_, ?_, fun i => ?_, rfl, rfl, rfl⟩
      · simp [RaftLog.firstIndex, Unstable.maybeFirstIndex, pending]
      · unfold RaftLog.lastIndex Unstable.maybeLastIndex
        cases log.unstable.entries.length <;> simp [pending]
      · simp [RaftLog.boundaryTerm, pending]
      · simp [RaftLog.entryAt, pending]
  | none =>
      have first := RaftLog.firstIndex_of_none pending
      refine ⟨?_, ?_, ?_, fun i => ?_, rfl, rfl, rfl⟩
      · rw [← written.first]
        simp [RaftLog.firstIndex, Unstable.maybeFirstIndex, pending]
      · have last := written.last
        unfold RaftLog.lastIndex Unstable.maybeLastIndex at last ⊢
        cases size : log.unstable.entries.length with
        | zero => simpa [pending, size] using last
        | succ n => simp
      · simp only [RaftLog.boundaryTerm, pending, written.base pending, written.first, first]
      · rcases Nat.lt_or_ge i log.unstable.offset with below | above
        · rw [← written.entryAt]
          simp [RaftLog.entryAt, pending, below]
        · exact beyond i above

/-- A log whose unstable part has been written keeps its content when that part becomes stable. -/
theorem RaftLog.Written.settle {log : RaftLog} {store : MemStorage} (written : log.Written store)
    (wf : log.WF) (entriesSize : Nat) {log' : RaftLog}
    (same : log' = { log with store, unstable := { entriesSize, offset := log.lastIndex + 1 } }) :
    log'.WF ∧ log.Alike log' := by
  have last := written.last
  have ends := wf.last
  have begins := wf.first_le
  have firstEq : log'.firstIndex = log.firstIndex := by
    rw [same, RaftLog.firstIndex_of_none rfl]
    exact written.first
  have lastEq : log'.lastIndex = log.lastIndex := by
    rw [same]
    exact last
  refine ⟨⟨?_, ?_, ?_, ?_, ?_, ?_⟩, firstEq, lastEq, ?_, fun i => ?_, ?_, ?_, ?_⟩
  · rw [same]
    exact written.wf
  · rw [same]
    exact contiguous_nil _
  · rw [same]
    intro s pending
    cases pending
  · rw [same]
    intro _
    have first := written.first
    refine ⟨?_, ?_, fun _ => ?_⟩
    · simp only
      omega
    · simp only
      omega
    · simp only
      omega
  · rw [firstEq, same]
    exact wf.low
  · rw [lastEq, same]
    exact wf.high
  · have joined : log'.boundaryTerm = if store.snapshotMetadata.index + 1 = store.firstIndex then
        some store.snapshotMetadata.term else none := by
      rw [same]
      rfl
    rw [joined, RaftLog.boundaryTerm, written.first]
    cases pending : log.unstable.snapshot with
    | none => rw [written.base pending, RaftLog.firstIndex_of_none pending]
    | some s => rw [written.snapshot s pending, RaftLog.firstIndex_of_snapshot pending, if_pos rfl]
  · rw [← written.entryAt, same]
    simp only [RaftLog.entryAt, Option.isSome_none, Bool.false_eq_true, if_false]
    split
    · rfl
    · rename_i beyond
      rw [List.getElem?_nil, eq_comm, ← Option.not_isSome_iff_eq_none, written.wf.entryAt_isSome]
      omega
  · rw [same]
  · rw [same]
  · rw [same]

theorem Host.writeReady_ok {store store' : MemStorage} {rd : Ready}
    (done : Host.writeReady store rd = .ok store') :
    ∃ middle last, (rd.snapshot.isEmpty = true → middle = store) ∧
      (rd.snapshot.isEmpty = false → store.applySnapshot rd.snapshot = .ok middle) ∧
      middle.append rd.entries = .ok last ∧
      store' = match rd.hs with
        | some hs => last.setHardstate hs
        | none => last := by
  obtain ⟨middle, first, done⟩ := bind_eq_ok.1 done
  obtain ⟨last, second, done⟩ := bind_eq_ok.1 done
  refine ⟨middle, last, ?_, ?_, second, ?_⟩
  · intro empty
    rw [if_pos empty] at first
    cases first
    rfl
  · intro nonempty
    rw [if_neg (by simp [nonempty])] at first
    cases applied : store.applySnapshot rd.snapshot with
    | ok result =>
        rw [applied] at first
        cases first
        rfl
    | error error =>
        rw [applied] at first
        cases first
  · cases done
    rfl

end RaftRs

import RaftRs.Log.Page
import RaftRs.Log.Plain

namespace RaftRs

open Library

namespace RaftLog

/-- The pending snapshot and the unstable entries are written to the storage and become stable. -/
def stabilise (log : RaftLog) : Except Fatal RaftLog := do
  let store ← (match log.unstable.snapshot with
    | none => pure log.store
    | some snapshot => match log.store.applySnapshot snapshot with
      | .ok store => pure store
      | .error _ => throw .unexpectedStorageError)
  let store ← store.append log.unstable.entries
  RaftLog.stable { log with store }

/-- The operations on the stored and the unstable part. -/
def exec (log : RaftLog) : LogOp → Except Fatal RaftLog
  | .append ents => log.append ents
  | .maybeAppend idx term committed ents => do
      let (log, _) ← log.maybeAppend idx term committed ents
      return log
  | .commitTo toCommit => log.commitTo toCommit
  | .maybeCommit maxIndex term => do
      let (log, _) ← log.maybeCommit maxIndex term
      return log
  | .restore snapshot => log.restore snapshot
  | .stabilise => log.stabilise
  | .maybePersist index term => .ok (log.maybePersist index term).1
  | .maybePersistSnap index => do
      let (log, _) ← log.maybePersistSnap index
      return log
  | .appliedTo idx => log.appliedTo idx
  | .compact compactIndex => do
      let store ← log.store.compact compactIndex
      return { log with store }

/-- The operations that a node performs in the states of its log. -/
def Permits (log : RaftLog) : LogOp → Prop
  | .append ents => Contiguous (log.lastIndex + 1) ents
  | .maybeAppend idx term _ ents =>
      Contiguous (idx + 1) ents ∧ (log.findConflict ents = 0 ∨ log.committed < log.findConflict ents) ∧
        (∀ e ∈ ents, e.term ≠ 0) ∧ (log.lastIndex < idx → term ≠ 0)
  | .commitTo toCommit => toCommit ≤ log.lastIndex
  | .maybeCommit _ term => term ≠ 0
  | .restore snapshot =>
      log.committed ≤ snapshot.metadata.index ∧ log.store.firstIndex ≤ snapshot.metadata.index
  | .stabilise => True
  | .maybePersist _ _ => True
  -- A snapshot that has become stable lies below the first index.
  | .maybePersistSnap index => index < log.firstIndex
  -- Committed entries are applied after the unstable part before them was handed out.
  | .appliedTo idx => idx = 0 ∨ (log.applied ≤ idx ∧ idx ≤ log.committed ∧ idx < log.unstable.offset)
  | .compact compactIndex => compactIndex ≤ log.applied ∧ compactIndex ≤ log.store.lastIndex

/-- A sequence of operations that a node performs. -/
def Orderly (log : RaftLog) : List LogOp → Prop
  | [] => True
  | op :: rest => log.Permits op ∧ ∀ log', log.exec op = .ok log' → log'.Orderly rest

theorem Orderly.cons {log log' : RaftLog} {op : LogOp} {rest : List LogOp} (permitted : log.Permits op)
    (done : log.exec op = .ok log') (later : log'.Orderly rest) : log.Orderly (op :: rest) := by
  refine ⟨permitted, fun other same => ?_⟩
  cases done.symm.trans same
  exact later

/-- The stored and the unstable part represent one list. -/
structure Refines (log : RaftLog) (plain : PlainLog) : Prop where
  wf : log.WF
  first : log.firstIndex = plain.firstIndex
  last : log.lastIndex = plain.lastIndex
  boundary : log.boundaryTerm = plain.baseTerm
  entry : ∀ i, log.entryAt i = plain.entryAt i
  committed : log.committed = plain.committed
  applied : log.applied = plain.applied
  ready : plain.applied ≤ plain.committed
  persisted : log.persisted < log.unstable.offset
  settled : plain.applied < log.unstable.offset
  pending : ∀ s, log.unstable.snapshot = some s → log.store.firstIndex ≤ s.metadata.index

variable {log log' : RaftLog} {plain : PlainLog}

theorem Refines.matchTerm (refines : log.Refines plain) (i t : Nat) :
    log.matchTerm i t = plain.matchTerm i t := by
  have first := refines.first
  have last := refines.last
  rw [Bool.eq_iff_iff, refines.wf.matchTerm_iff, refines.boundary, refines.entry, first, last]
  have range := plain.entryAt_isSome (i := i)
  unfold PlainLog.matchTerm
  simp only [PlainLog.firstIndex] at range first ⊢
  split
  · rename_i outside
    have none : plain.entryAt i = none := by
      rw [← Option.not_isSome_iff_eq_none, range]
      omega
    rw [none, beq_iff_eq]
    constructor
    · rintro (⟨entry, present, -⟩ | ⟨boundary, -⟩ | ⟨zero, -⟩)
      · cases present
      · unfold PlainLog.lastIndex at outside
        omega
      · exact zero
    · intro zero
      exact Or.inr (Or.inr ⟨zero, by omega⟩)
  · rename_i inside
    split
    · rename_i boundary
      rw [beq_iff_eq]
      constructor
      · rintro (⟨entry, present, -⟩ | ⟨-, known⟩ | ⟨-, outside⟩)
        · rw [present] at range
          simp at range
          omega
        · exact known
        · omega
      · intro known
        exact Or.inr (Or.inl ⟨by omega, known⟩)
    · rename_i beyond
      obtain ⟨entry, present⟩ := Option.isSome_iff_exists.1 (range.2 (by omega))
      have term : plain.term i = entry.term := by simp [PlainLog.term, present]
      rw [term, present, beq_iff_eq]
      constructor
      · rintro (⟨other, same, known⟩ | ⟨boundary, -⟩ | ⟨-, outside⟩)
        · cases same
          exact known
        · omega
        · omega
      · intro same
        exact Or.inl ⟨entry, rfl, same⟩

theorem Refines.append (refines : log.Refines plain) {first : Nat} {ents : List Entry}
    (appended : log.Appended log' first ents) (entries : List Entry)
    (joined : entries = plain.entries.take (first - plain.firstIndex) ++ ents) {persisted : Nat}
    (below : persisted < log'.unstable.offset) :
    Refines { log' with persisted } { plain with entries } := by
  have above := appended.above
  have reach := appended.reach
  have low := refines.wf.low
  have ready := refines.ready
  rw [refines.first] at low
  rw [refines.last] at reach
  rw [refines.committed] at above low
  unfold PlainLog.firstIndex at low joined
  unfold PlainLog.lastIndex at reach
  have kept : (plain.entries.take (first - (plain.base + 1))).length = first - (plain.base + 1) := by
    rw [List.length_take]
    omega
  have rest := appended.rest
  refine ⟨appended.wf.persist persisted, ?_, ?_, ?_, ?_, ?_, ?_, refines.ready, below, ?_, ?_⟩
  · exact appended.firstIndex.trans refines.first
  · change log'.lastIndex = _
    have last := appended.last
    unfold PlainLog.lastIndex
    simp only [joined, List.length_append, kept]
    omega
  · exact appended.boundary.trans refines.boundary
  · intro i
    change log'.entryAt i = _
    rw [appended.entryAt, refines.entry]
    simp only [PlainLog.entryAt, PlainLog.firstIndex, joined]
    split
    · split
      · rfl
      · rw [List.getElem?_append_left (by omega), List.getElem?_take_of_lt (by omega)]
    · rw [if_neg (by omega), List.getElem?_append_right (by omega), kept]
      congr 1
      omega
  · rw [rest]
    exact refines.committed
  · rw [rest]
    exact refines.applied
  · have := refines.settled
    simp only [appended.offset]
    omega
  · intro s pending
    rw [appended.snapshot] at pending
    rw [rest]
    exact refines.pending s pending

/-- Moving the commit index inside of the log moves it in both logs. -/
theorem Refines.commit (refines : log.Refines plain) {i : Nat} (up : log.committed ≤ i)
    (inside : i ≤ log.lastIndex) :
    Refines { log with committed := i } { plain with committed := i } := by
  have ready := refines.ready
  rw [refines.committed] at up
  exact ⟨refines.wf.commit (refines.committed ▸ up) inside, refines.first, refines.last,
    refines.boundary, refines.entry, rfl, refines.applied, ready.trans up, refines.persisted,
      refines.settled, refines.pending⟩

/-- The commit index moves in both logs. -/
theorem Refines.commitTo (refines : log.Refines plain) {toCommit : Nat}
    (inside : toCommit ≤ log.lastIndex) :
    ∃ log', log.commitTo toCommit = .ok log' ∧
      log'.Refines { plain with committed := max plain.committed toCommit } := by
  unfold RaftLog.commitTo
  rw [← refines.committed]
  split
  · rename_i old
    rw [max_eq_left old, refines.committed]
    exact ⟨log, rfl, refines⟩
  · rename_i new
    rw [if_neg (by omega), max_eq_right (by omega)]
    exact ⟨_, rfl, refines.commit (by omega) inside⟩

theorem WF.matchTerm_inside (wf : log.WF) {i t : Nat} (agrees : log.matchTerm i t = true)
    (nonzero : t ≠ 0) :
    i ≤ log.lastIndex := by
  have last := wf.last
  have first := wf.first_le
  rcases wf.matchTerm_iff.1 agrees with ⟨entry, present, -⟩ | ⟨boundary, -⟩ | ⟨zero, -⟩
  · exact (wf.bounds present).2
  · omega
  · exact absurd zero nonzero

/-- The entries before a conflict lie inside of the log. -/
theorem WF.matching_inside (wf : log.WF) {idx term : Nat} {ents : List Entry}
    (contiguous : Contiguous (idx + 1) ents) (agrees : log.matchTerm idx term = true)
    (terms : ∀ e ∈ ents, e.term ≠ 0) (beyond : log.lastIndex < idx → term ≠ 0) {k : Nat}
    (length : k ≤ ents.length) (all : ∀ e ∈ ents.take k, log.matchTerm e.index e.term = true) :
    idx + k ≤ log.lastIndex := by
  cases k with
  | zero =>
      by_contra outside
      exact outside (wf.matchTerm_inside agrees (beyond (by omega)))
  | succ k =>
      have present : ents[k]? = some ents[k] := List.getElem?_eq_getElem (by omega)
      have member : ents[k] ∈ ents.take (k + 1) := by
        rw [List.mem_take_iff_getElem]
        exact ⟨k, by omega, rfl⟩
      have index := contiguous k _ present
      have inside := wf.matchTerm_inside (all _ member) (terms _ (List.mem_of_mem_take member))
      omega

/-- Entries that follow a matching position are spliced into both logs. -/
theorem Refines.maybeAppend (refines : log.Refines plain) {idx term committed : Nat} {ents : List Entry}
    (permitted : log.Permits (.maybeAppend idx term committed ents)) :
    ∃ log' result, log.maybeAppend idx term committed ents = .ok (log', result) ∧
      log'.Refines (plain.exec (.maybeAppend idx term committed ents)) := by
  obtain ⟨contiguous, above, terms, beyond⟩ := permitted
  have wf := refines.wf
  cases agrees : log.matchTerm idx term with
  | false =>
      refine ⟨log, none, ?_, ?_⟩
      · rw [RaftLog.maybeAppend, if_neg (by simp [agrees])]
      · rw [PlainLog.exec, ← refines.matchTerm, agrees]
        exact refines
  | true =>
      rw [PlainLog.exec, ← refines.matchTerm, agrees, if_pos rfl]
      unfold RaftLog.maybeAppend
      rw [if_pos agrees]
      rcases log.findConflict_spec contiguous (by omega) with ⟨none, all⟩
        | ⟨k, inside, found, before, conflict⟩
      · have reach : idx + ents.length ≤ log.lastIndex :=
          wf.matching_inside contiguous agrees terms beyond le_rfl (by rwa [List.take_length])
        obtain ⟨log', moved, result⟩ := refines.commitTo (inf_le_of_right_le reach (a := committed))
        rw [plain.splice_same fun e member => by rw [← refines.matchTerm]; exact all e member]
        refine ⟨log', some (0, idx + ents.length), ?_, result⟩
        rw [none]
        simp only [RaftLog.appendFrom, if_true, ok_bind, moved]
        rfl
      · obtain ⟨e, present, differs⟩ := conflict
        have index := contiguous k e present
        have reach : idx + k ≤ log.lastIndex :=
          wf.matching_inside contiguous agrees terms beyond inside.le before
        have conflicts : log.committed < idx + 1 + k := by omega
        have nonempty : ents.drop k ≠ [] := by
          rw [ne_eq, List.drop_eq_nil_iff]
          omega
        obtain ⟨mid, done, appended⟩ := wf.append_total nonempty (contiguous.drop k) conflicts (by omega)
        have spliced : plain.splice ents = plain.entries.take (idx + 1 + k - plain.firstIndex) ++
            ents.drop k := by
          rw [← index]
          refine plain.splice_conflict (fun e member => ?_) present ?_
          · rw [← refines.matchTerm]
            exact before e member
          · rw [← refines.matchTerm]
            exact differs
        have persisted : min mid.persisted (idx + k) < mid.unstable.offset := by
          have := refines.persisted
          rw [appended.rest, appended.offset]
          simp only
          omega
        have next := refines.append appended _ spliced persisted
        have last := appended.last
        rw [List.length_drop] at last
        have room : min committed (idx + ents.length) ≤ mid.lastIndex := by omega
        obtain ⟨log', moved, result⟩ := next.commitTo room
        have overwritten : log.appendFrom idx (idx + 1 + k) ents =
            .ok { mid with persisted := min mid.persisted (idx + k) } := by
          rw [appendFrom_conflict inside conflicts, done]
          rfl
        refine ⟨log', some (idx + 1 + k, idx + ents.length), ?_, result⟩
        simp only [found, overwritten, ok_bind, moved]
        rfl

/-- The commit index moves to a position of a term in both logs. -/
theorem Refines.maybeCommit (refines : log.Refines plain) {maxIndex term : Nat} (nonzero : term ≠ 0) :
    ∃ log' moved, log.maybeCommit maxIndex term = .ok (log', moved) ∧
      log'.Refines (plain.exec (.maybeCommit maxIndex term)) := by
  rw [PlainLog.exec, ← refines.matchTerm]
  unfold RaftLog.maybeCommit
  split
  · rename_i moves
    obtain ⟨log', moved, result⟩ := refines.commitTo (refines.wf.matchTerm_inside moves.2 nonzero)
    rw [if_pos moves.2]
    refine ⟨log', true, ?_, result⟩
    rw [moved]
    rfl
  · rename_i stays
    refine ⟨log, false, rfl, ?_⟩
    split
    · rename_i agrees
      have old : maxIndex ≤ plain.committed := by
        rw [← refines.committed]
        by_contra new
        exact stays ⟨by omega, agrees⟩
      rw [max_eq_left old]
      exact refines
    · exact refines

/-- A snapshot becomes the boundary of both logs. -/
theorem Refines.restore (refines : log.Refines plain) {snapshot : Snapshot}
    (permitted : log.Permits (.restore snapshot)) :
    ∃ log', log.restore snapshot = .ok log' ∧ log'.Refines (plain.exec (.restore snapshot)) := by
  obtain ⟨above, fresh⟩ := permitted
  have ready := refines.ready
  have committed := refines.committed
  unfold RaftLog.restore
  simp only
  rw [if_neg (by omega)]
  refine ⟨_, rfl, ⟨refines.wf.store, by simp [Unstable.restore], ?_, ?_, ?_, ?_⟩, ?_, ?_, ?_, ?_,
    rfl, refines.applied, ?_, ?_, ?_, ?_⟩
  · intro s pending
    cases pending
    rfl
  · intro none
    cases none
  · rw [firstIndex_of_snapshot rfl]
  · simp [RaftLog.lastIndex, Unstable.restore, Unstable.maybeLastIndex]
  · rw [firstIndex_of_snapshot rfl]
    rfl
  · simp [RaftLog.lastIndex, Unstable.restore, Unstable.maybeLastIndex, PlainLog.lastIndex,
      PlainLog.exec]
  · rfl
  · intro i
    simp [RaftLog.entryAt, Unstable.restore, PlainLog.entryAt, PlainLog.exec]
  · change plain.applied ≤ snapshot.metadata.index
    omega
  · change (if log.persisted > log.committed then log.committed else log.persisted) <
      snapshot.metadata.index + 1
    split <;> omega
  · change plain.applied < snapshot.metadata.index + 1
    omega
  · intro s pending
    cases pending
    exact fresh

theorem Refines.persist (refines : log.Refines plain) {persisted : Nat}
    (below : persisted < log.unstable.offset) :
    Refines { log with persisted } plain :=
  ⟨refines.wf.persist persisted, refines.first, refines.last, refines.boundary, refines.entry,
    refines.committed, refines.applied, refines.ready, below, refines.settled, refines.pending⟩

theorem Refines.maybePersist (refines : log.Refines plain) (index term : Nat) :
    (log.maybePersist index term).1.Refines plain := by
  cases done : log.maybePersist index term with
  | mk log' moved =>
      cases moved with
      | false =>
          rcases maybePersist_ok done with ⟨-, rfl⟩ | ⟨moves, -⟩
          · exact refines
          · cases moves
      | true =>
          obtain ⟨below, rfl⟩ := refines.wf.maybePersist_below done
          exact refines.persist below

/-- A persisted snapshot does not change the list. -/
theorem Refines.maybePersistSnap (refines : log.Refines plain) {index : Nat}
    (below : index < log.firstIndex) :
    ∃ log' moved, log.maybePersistSnap index = .ok (log', moved) ∧ log'.Refines plain := by
  have low := refines.wf.low
  have first := refines.wf.first_le
  unfold RaftLog.maybePersistSnap
  split
  · rw [if_neg (by omega), if_neg (by omega)]
    exact ⟨_, _, rfl, refines.persist (by omega)⟩
  · exact ⟨log, false, rfl, refines⟩

/-- An applied index moves in both logs. -/
theorem Refines.appliedTo (refines : log.Refines plain) {idx : Nat}
    (permitted : log.Permits (.appliedTo idx)) :
    ∃ log', log.appliedTo idx = .ok log' ∧ log'.Refines (plain.exec (.appliedTo idx)) := by
  have ready := refines.ready
  have committed := refines.committed
  have applied := refines.applied
  unfold RaftLog.appliedTo
  rw [PlainLog.exec]
  rcases permitted with rfl | ⟨up, inside, stable⟩
  · rw [if_pos rfl, max_eq_left (Nat.zero_le _)]
    exact ⟨log, rfl, refines⟩
  · split
    · rename_i zero
      rw [zero, max_eq_left (Nat.zero_le _)]
      exact ⟨log, rfl, refines⟩
    · rw [if_neg (by omega), max_eq_right (by omega)]
      exact ⟨_, rfl,
        ⟨refines.wf.store, refines.wf.contiguous, refines.wf.snapshot, refines.wf.joined,
          refines.wf.low, refines.wf.high⟩, refines.first, refines.last, refines.boundary,
            refines.entry, refines.committed, rfl,
        committed ▸ inside, refines.persisted, stable, refines.pending⟩

theorem Refines.stabilise (refines : log.Refines plain) :
    ∃ log', log.stabilise = .ok log' ∧ log'.Refines (plain.exec .stabilise) := by
  have wf := refines.wf
  have high := wf.high
  have ready := refines.ready
  have committed := refines.committed
  obtain ⟨middle, store, applied, unapplied, appended⟩ :=
    wf.written_total refines.pending
  have written := wf.written applied unapplied appended
  obtain ⟨entriesSize, settled⟩ := wf.stable store
  obtain ⟨wf', alike⟩ := written.settle wf entriesSize rfl
  have done : log.stabilise = .ok { log with
      store, unstable := { entriesSize, offset := log.lastIndex + 1 } } := by
    rw [← settled]
    unfold RaftLog.stabilise
    cases pending : log.unstable.snapshot with
    | none =>
        obtain rfl := unapplied pending
        simp only [pure_bind, appended, ok_bind]
    | some s =>
        simp only [applied s pending, pure_bind, appended, ok_bind]
  refine ⟨_, done, ⟨wf', alike.first.trans refines.first, alike.last.trans refines.last,
    alike.boundary.trans refines.boundary, ?_, committed, refines.applied, ready, ?_, ?_, nofun⟩⟩
  · intro i
    rw [alike.entryAt, refines.entry]
    rfl
  · have persisted := refines.persisted
    have ends := wf.last
    simp only
    omega
  · change plain.applied < log.lastIndex + 1
    omega

/-- Compaction below a pending snapshot is not visible. -/
theorem Refines.compact_hidden (refines : log.Refines plain) {s : Snapshot}
    (pending : log.unstable.snapshot = some s) {index : Nat} (applied : index ≤ log.applied)
    (stored : index ≤ log.store.lastIndex) {store : MemStorage}
    (done : log.store.compact index = .ok store) : Refines { log with store } plain := by
  have ready := refines.ready
  have settled := refines.settled
  have appliedEq := refines.applied
  have committedEq := refines.committed
  have offset := refines.wf.snapshot s pending
  have fresh := refines.pending s pending
  obtain ⟨-, storeFirst, -⟩ := refines.wf.store.compact stored done
  obtain ⟨wf, last, first, -, -⟩ := refines.wf.compact (by omega) stored
    (fun none => nomatch pending.symm.trans none) done rfl
  refine ⟨wf, (first s pending).trans refines.first, last.trans refines.last, ?_, ?_,
    refines.committed, refines.applied, ready, refines.persisted, settled, ?_⟩
  · rw [← refines.boundary]
    simp [boundaryTerm, pending]
  · intro i
    rw [← refines.entry]
    simp [RaftLog.entryAt, pending]
  · intro s' same
    cases pending.symm.trans same
    simp only
    omega

/-- Compaction of applied entries moves the boundary. -/
theorem Refines.compact_visible (refines : log.Refines plain) (none : log.unstable.snapshot = none)
    {index : Nat} (applied : index ≤ log.applied) (beyond : log.firstIndex < index)
    (stored : index ≤ log.store.lastIndex) {store : MemStorage}
    (done : log.store.compact index = .ok store) :
    Refines { log with store }
      { plain with
        base := index - 1, baseTerm := Option.none,
          entries := plain.entries.drop (index - plain.firstIndex) } := by
  have ready := refines.ready
  have settled := refines.settled
  have appliedEq := refines.applied
  have committedEq := refines.committed
  have firstEq := refines.first
  have lastEq := refines.last
  have high := refines.wf.high
  obtain ⟨wf, last, -, first, kept⟩ := refines.wf.compact (by omega) stored (fun _ => by omega) done rfl
  have newFirst := first none
  rw [max_eq_right beyond.le] at newFirst
  unfold PlainLog.firstIndex at firstEq
  unfold PlainLog.lastIndex at lastEq
  refine ⟨wf, ?_, ?_, ?_, ?_, refines.committed, refines.applied, ready, refines.persisted,
    refines.settled, ?_⟩
  · rw [newFirst]
    simp only [PlainLog.firstIndex]
    omega
  · rw [last]
    simp only [PlainLog.lastIndex, PlainLog.firstIndex, List.length_drop]
    omega
  · obtain ⟨-, storeFirst, -, metadata, -⟩ := refines.wf.store.compact stored done
    have after := refines.wf.store.after
    rw [firstIndex_of_none none] at beyond
    have apart : ¬ store.snapshotMetadata.index + 1 = store.firstIndex := by
      rw [metadata]
      omega
    simp only [boundaryTerm, none, if_neg apart]
  · intro i
    by_cases compacted : i < index
    · have missing := wf.entryAt_isSome (i := i)
      rw [newFirst] at missing
      rw [PlainLog.entryAt, if_pos (by simp only; omega), ← Option.not_isSome_iff_eq_none, missing]
      omega
    · rw [kept i (by omega), refines.entry]
      simp only [PlainLog.entryAt, PlainLog.firstIndex]
      rw [if_neg (by omega), if_neg (by omega), List.getElem?_drop]
      congr 1
      omega
  · intro s pending
    cases none.symm.trans pending

/-- Compaction moves the boundary of both logs. -/
theorem Refines.compact (refines : log.Refines plain) {compactIndex : Nat}
    (permitted : log.Permits (.compact compactIndex)) :
    ∃ store, log.store.compact compactIndex = .ok store ∧
      Refines { log with store } (plain.exec (.compact compactIndex)) := by
  obtain ⟨applied, stored⟩ := permitted
  obtain ⟨store, done⟩ := MemStorage.compact_total stored
  refine ⟨store, done, ?_⟩
  have firstEq := refines.first
  have appliedEq := refines.applied
  have settled := refines.settled
  rw [PlainLog.exec]
  cases pending : log.unstable.snapshot with
  | some s =>
      have offset := refines.wf.snapshot s pending
      have first := firstIndex_of_snapshot pending
      rw [if_pos (by omega)]
      exact refines.compact_hidden pending applied stored done
  | none =>
      split
      · have first := firstIndex_of_none pending
        have unchanged : log.store.compact compactIndex = .ok log.store := by
          rw [MemStorage.compact, if_pos (by omega)]
        cases unchanged.symm.trans done
        exact refines
      · exact refines.compact_visible pending applied (by omega) stored done

/-- One operation is performed by both logs. -/
theorem Refines.exec (refines : log.Refines plain) {op : LogOp} (permitted : log.Permits op) :
    ∃ log', log.exec op = .ok log' ∧ log'.Refines (plain.exec op) := by
  cases op with
  | append ents =>
      cases shape : ents with
      | nil =>
          refine ⟨log, rfl, ?_⟩
          rw [PlainLog.exec, List.append_nil]
          exact refines
      | cons entry rest =>
          rw [shape] at permitted
          have last := refines.last
          have offset := refines.wf.last
          have high := refines.wf.high
          obtain ⟨log', done, appended⟩ :=
            refines.wf.append_total (by simp) permitted (Nat.lt_succ_of_le high) le_rfl
          have below : log'.persisted < log'.unstable.offset := by
            have persisted := refines.persisted
            rw [appended.offset, appended.rest]
            simp only
            omega
          refine ⟨log', done, refines.append appended _ ?_ below⟩
          rw [List.take_of_length_le]
          simp only [last, PlainLog.lastIndex, PlainLog.firstIndex]
          omega
  | maybeAppend idx term committed ents =>
      obtain ⟨log', result, done, next⟩ := refines.maybeAppend permitted
      exact ⟨log', by rw [RaftLog.exec, done]; rfl, next⟩
  | commitTo toCommit => exact refines.commitTo permitted
  | maybeCommit maxIndex term =>
      obtain ⟨log', moved, done, next⟩ := refines.maybeCommit permitted
      exact ⟨log', by rw [RaftLog.exec, done]; rfl, next⟩
  | restore snapshot => exact refines.restore permitted
  | stabilise => exact refines.stabilise
  | maybePersist index term => exact ⟨_, rfl, refines.maybePersist index term⟩
  | maybePersistSnap index =>
      obtain ⟨log', moved, done, next⟩ := refines.maybePersistSnap permitted
      exact ⟨log', by rw [RaftLog.exec, done]; rfl, next⟩
  | appliedTo idx => exact refines.appliedTo permitted
  | compact compactIndex =>
      obtain ⟨store, done, next⟩ := refines.compact permitted
      exact ⟨_, by rw [RaftLog.exec, done]; rfl, next⟩

/-- A sequence of operations is performed by both logs. -/
theorem Refines.run (refines : log.Refines plain) {ops : List LogOp} (orderly : log.Orderly ops) :
    ∃ log', ops.foldlM RaftLog.exec log = .ok log' ∧ log'.Refines (ops.foldl PlainLog.exec plain) := by
  induction ops generalizing log plain with
  | nil => exact ⟨log, rfl, refines⟩
  | cons op rest ih =>
      obtain ⟨permitted, later⟩ := orderly
      obtain ⟨next, done, follows⟩ := refines.exec permitted
      obtain ⟨log', finished, final⟩ := ih follows (later next done)
      refine ⟨log', ?_, final⟩
      rw [List.foldlM_cons, done, ok_bind]
      exact finished

theorem refines_new {store : MemStorage} (wf : store.WF) (limit : Nat) :
    (new store limit).Refines (PlainLog.ofStore store) := by
  have last := wf.last
  have after := wf.after
  have first : store.firstIndex = (PlainLog.ofStore store).firstIndex := by
    simp only [PlainLog.ofStore, PlainLog.firstIndex]
    omega
  refine ⟨wf_new wf limit, (firstIndex_new store limit).trans first, ?_, rfl, ?_, rfl, rfl, le_rfl,
    ?_, ?_, nofun⟩
  · rw [lastIndex_new]
    simp only [PlainLog.ofStore, PlainLog.lastIndex]
    omega
  · intro i
    rw [entryAt_new wf, MemStorage.entryAt, PlainLog.entryAt, ← first]
    simp only [PlainLog.ofStore]
    congr 1
    rw [eq_iff_iff]
    omega
  · exact Nat.lt_succ_self _
  · change store.firstIndex - 1 < store.lastIndex + 1
    omega

/-- The terms of the list are those of the parts. -/
theorem Refines.term (refines : log.Refines plain) {i : Nat} (low : plain.firstIndex ≤ i)
    (high : i ≤ plain.lastIndex) :
    log.term i = .ok (plain.term i) := by
  obtain ⟨entry, present⟩ := Option.isSome_iff_exists.1 (plain.entryAt_isSome.2 ⟨low, high⟩)
  rw [refines.wf.term_of_entryAt ((refines.entry i).trans present), PlainLog.term, present]
  rfl

/-- The ranges of the list are those of the parts. -/
theorem Refines.slice (refines : log.Refines plain) {low high : Nat} {context : GetEntriesFor}
    (first : plain.firstIndex ≤ low) (ordered : low ≤ high) (last : high ≤ plain.lastIndex + 1)
    (available : log.store.triggerLogUnavailable = false ∨ context.canAsync = false) :
    log.slice low high none context = .ok (.ok (plain.slice low high)) := by
  rw [← refines.last] at last
  have answers : ¬ log.Unavailable low high context := by
    rintro ⟨-, -, blocked⟩
    rcases available with off | blocking
    · simp [off] at blocked
    · simp [blocking] at blocked
  rw [refines.wf.slice_eq (refines.first.trans_le first) ordered last none answers, limitSize_none]
  congr 2
  refine range_eq (fun k entry present => ?_) (plain.length_slice first (refines.last ▸ last))
  rw [plain.getElem?_slice first] at present
  split at present
  · rw [refines.entry]
    exact present
  · cases present

/-- The positions of a log stay in order. -/
structure InOrder (log : RaftLog) : Prop where
  contiguous : ∀ k entry, log.unstable.entries[k]? = some entry → entry.index = log.unstable.offset + k
  pending : ∀ s, log.unstable.snapshot = some s → s.metadata.index + 1 = log.unstable.offset
  joined : log.unstable.snapshot = none → log.store.firstIndex ≤ log.unstable.offset ∧
    log.unstable.offset ≤ log.store.lastIndex + 1
  persisted : log.persisted < log.unstable.offset
  applied : log.applied ≤ log.committed
  first : log.firstIndex ≤ log.committed + 1
  last : log.committed ≤ log.lastIndex

theorem Refines.inOrder (refines : log.Refines plain) : log.InOrder := by
  have wf := refines.wf
  have applied : log.applied ≤ log.committed := by
    rw [refines.applied, refines.committed]
    exact refines.ready
  exact ⟨wf.contiguous, fun s pending => (wf.snapshot s pending).symm,
    fun none => ⟨(wf.joined none).1, (wf.joined none).2.1⟩, refines.persisted, applied, wf.low, wf.high⟩

/-- A log behaves as one list of entries after a boundary in every run of its operations. -/
theorem run_refines_plain {store : MemStorage} (wf : store.WF) (limit : Nat) {ops : List LogOp}
    (orderly : (new store limit).Orderly ops) :
    let plain := ops.foldl PlainLog.exec (PlainLog.ofStore store)
    ∃ log, ops.foldlM RaftLog.exec (new store limit) = .ok log ∧ log.firstIndex = plain.firstIndex ∧
      log.lastIndex = plain.lastIndex ∧
      (∀ i, log.firstIndex ≤ i → i ≤ log.lastIndex → log.term i = .ok (plain.term i)) ∧
      (∀ low high context, log.firstIndex ≤ low → low ≤ high → high ≤ log.lastIndex + 1 →
        log.store.triggerLogUnavailable = false ∨ context.canAsync = false →
        log.slice low high none context = .ok (.ok (plain.slice low high))) ∧ log.InOrder := by
  intro plain
  obtain ⟨log, done, refines⟩ := (refines_new wf limit).run orderly
  refine ⟨log, done, refines.first, refines.last, ?_, ?_, refines.inOrder⟩
  · intro i low high
    rw [refines.first] at low
    rw [refines.last] at high
    exact refines.term low high
  · intro low high context first ordered last available
    rw [refines.first] at first
    rw [refines.last] at last
    exact refines.slice first ordered last available

/-- A stored entry is overwritten, applied and compacted. -/
theorem run_refines_plain_overwrite :
    let store : MemStorage := { entries := [{ index := 1, term := 1 }, { index := 2, term := 1 }] }
    let ops := [LogOp.maybeAppend 1 1 2 [{ index := 2, term := 2 }], .stabilise, .appliedTo 2,
      .compact 2]
    store.WF ∧ (new store 0).Orderly ops ∧
      ∃ log, ops.foldlM RaftLog.exec (new store 0) = .ok log ∧ log.firstIndex = 2 ∧
        log.term 2 = .ok 2 := by
  intro store ops
  have wf : store.WF :=
    ⟨contiguous_cons.2 ⟨rfl, contiguous_cons.2 ⟨rfl, contiguous_nil _⟩⟩, Nat.zero_lt_one⟩
  let replaced : List Entry := [{ index := 2, term := 2 }]
  let stored : MemStorage := { entries := [{ index := 1, term := 1 }, { index := 2, term := 2 }] }
  let appended : RaftLog :=
    { store, unstable := { entries := replaced, entriesSize := 12, offset := 2 }, committed := 2,
      persisted := 1
      applied := 0, maxApplyUnpersistedLogLimit := 0 }
  let settled : RaftLog := { appended with store := stored, unstable := { offset := 3 } }
  have first : (new store 0).exec (.maybeAppend 1 1 2 replaced) = .ok appended := rfl
  have second : appended.exec .stabilise = .ok settled := rfl
  have third : settled.exec (.appliedTo 2) = .ok { settled with applied := 2 } := rfl
  have last : RaftLog.exec { settled with applied := 2 } (.compact 2) =
      .ok { settled with applied := 2, store := { entries := replaced } } := rfl
  have continues : Contiguous 2 replaced := contiguous_cons.2 ⟨rfl, contiguous_nil _⟩
  have orderly : (new store 0).Orderly ops :=
    .cons ⟨continues, by decide, by decide, by decide⟩ first <| .cons trivial second <|
      .cons (Or.inr ⟨by decide, by decide, by decide⟩) third <| .cons ⟨by decide, by decide⟩ last trivial
  obtain ⟨log, done, low, high, term, -, -⟩ := run_refines_plain wf 0 orderly
  have lowEq : log.firstIndex = 2 := low
  have highEq : log.lastIndex = 2 := high
  exact ⟨wf, orderly, log, done, lowEq, term 2 (by omega) (by omega)⟩

end RaftLog

end RaftRs

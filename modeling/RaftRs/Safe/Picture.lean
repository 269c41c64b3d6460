import RaftRs.Node.InFlight
import RaftRs.Safe.Recount

namespace RaftRs

open Library

/-- The role of a node among the roles of a replica; a node that asks for pre-votes still
follows. -/
def StateRole.role : StateRole → Role
  | .leader => .leader
  | .candidate => .candidate
  | .follower => .follower
  | .preCandidate => .follower

/-- The node that a vote is for; the invalid identity is no vote. -/
def voteFor (vote : Nat) : Option Nat := if vote = invalidId then none else some vote

/-- A node has the state of a replica with a whole log. -/
structure Core.Pictures (c : Core) (v : Replica Nat Entry) : Prop where
  term : v.term = c.term
  vote : v.vote = voteFor c.vote
  role : v.role = c.state.role
  log : c.log.Shows v.log
  commit : v.commit = c.log.committed

/-- A storage holds the state of a replica, and the term of its commit index. -/
structure MemStorage.Pictures (store : MemStorage) (v : Replica Nat Entry) : Prop where
  term : v.term = store.raftState.hardState.term
  vote : v.vote = voteFor store.raftState.hardState.vote
  log : store.Shows v.log
  commit : v.commit = store.raftState.hardState.commit
  anchored : store.firstIndex ≤ store.raftState.hardState.commit ∨
    store.snapshotMetadata.index + 1 = store.firstIndex

namespace MemStorage

variable {store : MemStorage} {full : List Entry}

theorem Shows.term (view : store.Shows full) {i t : Nat} (known : store.term i = .ok t) :
    i ≤ full.length ∧ termAt full i = t := by
  have last := view.wf.last
  have after := view.wf.after
  have length := view.length
  unfold MemStorage.term at known
  split at known
  next same =>
    subst same
    refine ⟨by omega, ?_⟩
    rw [termAt, view.base]
    exact Except.ok.inj known
  split at known
  · cases known
  split at known
  · cases known
  next retained inside =>
    split at known
    next entry present =>
      have stored : store.entryAt i = some entry := by rw [entryAt, if_neg retained]; exact present
      have whole := lastTerm_of_getElem? (view.entry i entry stored)
      rw [show i - 1 + 1 = i by omega] at whole
      exact ⟨by omega, whole.trans (Except.ok.inj known)⟩
    · cases known

/-- The snapshot of a storage stands at its commit index. -/
theorem Shows.snapshot (view : store.Shows full) {store' : MemStorage} {snapshot : Snapshot}
    (taken : store.snapshot 0 = .ok (store', .ok snapshot)) :
    snapshot.metadata.index = store.raftState.hardState.commit ∧ snapshot.metadata.index ≤ full.length ∧
      termAt full snapshot.metadata.index = snapshot.metadata.term := by
  unfold MemStorage.snapshot at taken
  split at taken
  · cases taken
  obtain ⟨snap, core, taken⟩ := bind_eq_ok.1 taken
  rw [if_neg (Nat.not_lt_zero _)] at taken
  obtain ⟨-, same⟩ := ok_pair_inj taken
  obtain rfl := Except.ok.inj same
  have last := view.wf.last
  have after := view.wf.after
  have length := view.length
  unfold snapshotCore at core
  simp only at core
  split at core
  next joined =>
    obtain rfl := Except.ok.inj core
    refine ⟨rfl, by simp only; omega, ?_⟩
    simp only [termAt]
    rw [joined]
    exact view.base
  split at core
  · split at core
    · cases core
    next first head =>
      split at core
      · cases core
      next retained =>
        split at core
        next entry present =>
          obtain rfl := Except.ok.inj core
          have start := firstIndex_of_head head
          have stored : store.entryAt store.raftState.hardState.commit = some entry := by
            rw [entryAt, start, if_neg retained]
            exact present
          have bounds := view.wf.entryAt_isSome.1 (Option.isSome_of_eq_some stored)
          have whole := lastTerm_of_getElem? (view.entry _ entry stored)
          rw [show store.raftState.hardState.commit - 1 +
            1 = store.raftState.hardState.commit by omega] at whole
          exact ⟨rfl, by simp only; omega, whole⟩
        · cases core
  · cases core

end MemStorage

namespace RaftLog

variable {log log' : RaftLog} {full : List Entry}

theorem WF.first_le_last (wf : log.WF) : log.firstIndex ≤ log.lastIndex + 1 :=
  wf.low.trans (Nat.succ_le_succ wf.high)

theorem Shows.marks (view : log.Shows full) (marks : log.Marks log') (wf : log'.WF) :
    log'.Shows full := by
  refine ⟨wf, ?_, ?_, ?_, ?_⟩
  · rw [marks.lastIndex]
    exact view.length
  · intro i entry present
    rw [marks.entryAt] at present
    exact view.entry i entry present
  · rw [marks.unstable]
    exact view.pending
  · rw [marks.unstable, marks.store]
    exact view.base

/-- The marks behind the commit index have no influence on the shown log. -/
theorem Shows.mark (view : log.Shows full) (persisted applied maxApplyUnpersistedLogLimit : Nat) :
    Shows { log with persisted, applied, maxApplyUnpersistedLogLimit } full :=
  view.marks ⟨rfl, rfl⟩ ⟨view.wf.store, view.wf.contiguous, view.wf.snapshot, view.wf.joined,
    view.wf.low, view.wf.high⟩

theorem Shows.trigger (view : log.Shows full) (triggerSnapUnavailable triggerLogUnavailable : Bool) :
    Shows { log with store := { log.store with triggerSnapUnavailable, triggerLogUnavailable } } full :=
  ⟨⟨⟨view.wf.store.contiguous, view.wf.store.after⟩, view.wf.contiguous, view.wf.snapshot,
    view.wf.joined, view.wf.low, view.wf.high⟩, view.length, view.entry, view.pending, view.base⟩

theorem Shows.lastTerm (view : log.Shows full) {t : Nat} (known : log.lastTerm = .ok t) :
    Library.lastTerm full = t := by
  unfold RaftLog.lastTerm at known
  split at known
  next term found =>
    have whole := view.term found view.wf.first_le_last le_rfl
    rw [← view.length, List.take_length] at whole
    exact whole.trans (Except.ok.inj known)
  · cases known

/-- A log that is found complete enough is at least as complete as the whole log. -/
theorem Shows.upToDate (view : log.Shows full) {own : List Entry}
    (complete : log.isUpToDate own.length (Library.lastTerm own) = .ok true) : UpToDate full own := by
  unfold isUpToDate at complete
  obtain ⟨t, known, complete⟩ := bind_eq_ok.1 complete
  have last := view.lastTerm known
  have complete := Except.ok.inj complete
  rw [← view.length] at complete
  simp only [gt_iff_lt, ge_iff_le, Bool.or_eq_true, decide_eq_true_eq, Bool.and_eq_true,
    beq_iff_eq] at complete
  rw [← last] at complete
  exact complete.imp_right fun both => ⟨both.1.symm, both.2⟩

/-- The term of the commit index is known when the storage knows it. -/
theorem WF.anchored_of_store (wf : log.WF)
    (stored : log.store.firstIndex ≤ log.committed ∨
      log.store.snapshotMetadata.index + 1 = log.store.firstIndex) :
    ∃ t, log.term log.committed = .ok t := by
  have low := wf.low
  rcases Nat.lt_or_ge log.committed log.firstIndex with before | retained
  · have boundary : log.committed + 1 = log.firstIndex := by omega
    rw [wf.term_boundary boundary]
    cases pending : log.unstable.snapshot with
    | some s => exact ⟨s.metadata.term, by simp only [boundaryTerm, pending]⟩
    | none =>
        have first := firstIndex_of_none pending
        have joined := stored.resolve_left (by omega)
        exact ⟨log.store.snapshotMetadata.term, by simp only [boundaryTerm, pending, if_pos joined]⟩
  · obtain ⟨entry, present⟩ := wf.exists_entry retained wf.high
    exact ⟨_, wf.term_of_entryAt present⟩

/-- A position that does not match from the commit index on has another term or lies beyond the
log. -/
theorem Shows.unmatched (view : log.Shows full) (anchored : ∃ t, log.term log.committed = .ok t)
    {i t : Nat} (low : log.committed ≤ i) (fails : log.matchTerm i t = false)
    (inside : i ≤ full.length) : termAt full i ≠ t := by
  rintro rfl
  have known := view.known anchored low (by rwa [← view.length])
  simp [matchTerm, known] at fails

/-- A position that matches a term has that term in the whole log. -/
theorem Shows.matched (view : log.Shows full) {i t : Nat} (agrees : log.matchTerm i t = true)
    (nonzero : t ≠ 0) :
    i ≤ full.length ∧ termAt full i = t := by
  unfold matchTerm at agrees
  split at agrees
  next term known =>
    obtain rfl : term = t := by simpa using agrees
    exact view.term_of_lt known (Nat.pos_of_ne_zero nonzero)
  · cases agrees

/-- The commit position has its term in the whole log. -/
theorem Shows.commitInfo (view : log.Shows full) {commit commitTerm : Nat}
    (info : log.commitInfo = .ok (commit, commitTerm)) :
    commit = log.committed ∧ termAt full commit = commitTerm := by
  unfold RaftLog.commitInfo at info
  split at info
  next term known =>
    obtain ⟨rfl, rfl⟩ := ok_pair_inj info
    exact ⟨rfl, view.term known view.wf.low view.wf.high⟩
  · cases info

/-- A commit index that moves by position moves inside of the log to an entry of the term. -/
theorem Shows.maybeCommit (view : log.Shows full) {i t : Nat}
    (done : log.maybeCommit i t = .ok (log', true)) :
    log' = { log with committed := i } ∧ log.committed < i ∧ i ≤ full.length ∧ termAt full i = t ∧
      log'.Shows full := by
  unfold RaftLog.maybeCommit at done
  split at done
  next moves =>
    obtain ⟨moved, committed, done⟩ := bind_eq_ok.1 done
    obtain ⟨rfl, -⟩ := ok_pair_inj done
    obtain ⟨same, bound⟩ := commitTo_ok committed
    rw [max_eq_right moves.1.le] at same
    have inside : i ≤ log.lastIndex := bound.resolve_left (Nat.not_le.2 moves.1)
    refine ⟨same, moves.1, by rwa [view.length], ?_, same ▸ view.commit moves.1.le inside⟩
    have agrees := moves.2
    unfold matchTerm at agrees
    split at agrees
    next term known =>
      obtain rfl : term = t := by simpa using agrees
      have low := view.wf.low
      exact view.term known (by have := moves.1; omega) inside
    · cases agrees
  · obtain ⟨-, same⟩ := ok_pair_inj done
    cases same

theorem Shows.commitTo (view : log.Shows full) {i : Nat} (done : log.commitTo i = .ok log') :
    log' = { log with committed := max log.committed i } ∧ (log.committed < i → i ≤ full.length) ∧
      log'.Shows full := by
  obtain ⟨same, bound⟩ := commitTo_ok done
  refine ⟨same, fun up => ?_, view.marks (marks_commitTo done) (view.wf.commitTo done)⟩
  rw [view.length]
  exact bound.resolve_left (Nat.not_le.2 up)

/-- A restored snapshot replaces the whole log. -/
theorem Shows.restore (view : log.Shows full) {snapshot : Snapshot} {whole : List Entry}
    (done : log.restore snapshot = .ok log') (length : whole.length = snapshot.metadata.index)
    (term : Library.lastTerm whole = snapshot.metadata.term) :
    log.committed ≤ snapshot.metadata.index ∧ log'.committed = snapshot.metadata.index ∧
      log'.Shows whole := by
  unfold RaftLog.restore at done
  simp only at done
  split at done
  · cases done
  next above =>
    obtain rfl := Except.ok.inj done
    have last : ∀ persisted, ({ log with
        persisted, committed := snapshot.metadata.index,
          unstable := log.unstable.restore snapshot } : RaftLog).lastIndex =
          snapshot.metadata.index := by
      intro persisted
      simp [RaftLog.lastIndex, Unstable.restore, Unstable.maybeLastIndex]
    refine ⟨Nat.le_of_not_lt above, rfl, ⟨view.wf.store, contiguous_nil _, ?_, ?_, ?_, ?_⟩, ?_, ?_,
      ?_, ?_⟩
    · intro s pending
      cases pending
      rfl
    · intro none
      cases none
    · rw [firstIndex_of_snapshot rfl]
    · exact (last _).ge
    · rw [length, last]
    · intro i entry present
      simp [RaftLog.entryAt, Unstable.restore] at present
    · intro s pending
      cases pending
      rw [← length, List.take_length]
      exact term
    · intro none
      cases none

/-- A leader appends entries at the end of its whole log. -/
theorem Shows.grow (view : log.Shows full) {term : Nat} {es : List Entry}
    (done : log.append (Raft.assignPositions term log.lastIndex es) = .ok log') :
    log'.Shows (full ++ Raft.assignPositions term log.lastIndex es) ∧
      log'.committed = log.committed := by
  by_cases none : Raft.assignPositions term log.lastIndex es = []
  · rw [none] at done ⊢
    obtain rfl := Except.ok.inj done
    rw [List.append_nil]
    exact ⟨view, rfl⟩
  · have appended := view.wf.append none (contiguous_assignPositions term log.lastIndex es) done
    have shows := view.append appended
    rw [Nat.add_sub_cancel, ← view.length, List.take_length] at shows
    exact ⟨view.length ▸ shows, by rw [appended.rest]⟩

/-- The entries that are read from an index on are those of the whole log. -/
theorem Shows.entries (view : log.Shows full) {idx : Nat} {maxSize : Option Nat}
    {context : GetEntriesFor} {ents : List Entry} (inside : idx ≤ full.length + 1) (positive : 0 < idx)
    (read : log.entries idx maxSize context = .ok (.ok ents)) :
    idx - 1 + ents.length ≤ full.length ∧ ents = (full.drop (idx - 1)).take ents.length := by
  obtain ⟨reads, -⟩ := view.wf.entries read
  have present : ∀ k entry, ents[k]? = some entry → full[idx - 1 + k]? = some entry := by
    intro k entry found
    have whole := view.entry _ entry (reads k entry found)
    rwa [show idx + k - 1 = idx - 1 + k by omega] at whole
  have bounded : idx - 1 + ents.length ≤ full.length := by
    rcases Nat.eq_zero_or_pos ents.length with none | some
    · omega
    · have last := present (ents.length - 1) _ (List.getElem?_eq_getElem (by omega))
      have := (List.getElem?_eq_some_iff.1 last).1
      omega
  refine ⟨bounded, List.ext_getElem? fun k => ?_⟩
  rcases Nat.lt_or_ge k ents.length with short | long
  · rw [List.getElem?_take_of_lt short, List.getElem?_drop, List.getElem?_eq_getElem short]
    exact (present k _ (List.getElem?_eq_getElem short)).symm
  · rw [List.getElem?_eq_none long, List.getElem?_take_eq_none long]

/-- An index from which entries are read is that of an entry or lies beyond the log. -/
theorem entries_first {idx : Nat} {maxSize : Option Nat} {context : GetEntriesFor} {ents : List Entry}
    (read : log.entries idx maxSize context = .ok (.ok ents)) :
    log.lastIndex < idx ∨ log.firstIndex ≤ idx := by
  unfold RaftLog.entries at read
  split at read
  next beyond => exact .inl beyond
  · right
    unfold RaftLog.slice at read
    obtain ⟨result, checked, read⟩ := bind_eq_ok.1 read
    unfold mustCheckOutofbounds at checked
    split at checked
    · cases checked
    split at checked
    · obtain rfl := Except.ok.inj checked
      cases read
    next retained => exact Nat.le_of_not_lt retained

end RaftLog

end RaftRs

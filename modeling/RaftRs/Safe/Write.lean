import RaftRs.Safe.Mirror

namespace RaftRs

open Library

namespace RaftLog

variable {log : RaftLog} {store : MemStorage} {full : List Entry}

theorem Written.wf_busy (written : log.Written store) (wf : log.WF) : WF { log with store } := by
  have alike := written.busy
  have last := wf.last
  refine ⟨written.wf, wf.contiguous, wf.snapshot, fun absent => ?_, ?_, ?_⟩
  · have absent : log.unstable.snapshot = none := absent
    obtain ⟨low, -, whenEmpty⟩ := wf.joined absent
    have first := written.first
    rw [firstIndex_of_none absent] at first
    have ends := written.last
    refine ⟨by simp only; omega, by simp only; omega, fun empty => ?_⟩
    have empty : log.unstable.entries = [] := empty
    rw [empty, List.length_nil] at last
    simp only
    omega
  · rw [alike.first]
    exact wf.low
  · rw [alike.last]
    exact wf.high

theorem Shows.busy (view : log.Shows full) (written : log.Written store) :
    Shows { log with store } full := by
  have alike := written.busy
  refine ⟨written.wf_busy view.wf, ?_, fun i entry present => ?_, view.pending, fun absent => ?_⟩
  · rw [alike.last]
    exact view.length
  · rw [alike.entryAt] at present
    exact view.entry i entry present
  · have absent : log.unstable.snapshot = none := absent
    simp only [written.base absent]
    exact view.base absent

theorem Written.shows (written : log.Written store) (view : log.Shows full) : store.Shows full := by
  refine ⟨written.wf, ?_, fun i entry present => ?_, ?_⟩
  · rw [written.last]
    exact view.length
  · rw [written.entryAt] at present
    exact view.entry i entry present
  · cases pending : log.unstable.snapshot with
    | some s =>
        rw [written.snapshot s pending]
        exact view.pending s pending
    | none =>
        rw [written.base pending]
        exact view.base pending

/-- A log shows the same when its written part becomes stable. -/
theorem Shows.settle {log' : RaftLog} (view : log.Shows full) (wf : log'.WF) (alike : log.Alike log')
    (snapshot : log'.unstable.snapshot = none) (stored : log'.store.Shows full) : log'.Shows full := by
  refine ⟨wf, ?_, fun i entry present => ?_, fun s pending => ?_, fun _ => stored.base⟩
  · rw [alike.last]
    exact view.length
  · rw [alike.entryAt] at present
    exact view.entry i entry present
  · cases snapshot.symm.trans pending

/-- A log with another storage shows the same as long as it only loses entries. -/
theorem Shows.shrink (view : log.Shows full) (wf : WF { log with store })
    (shrinks : log.Shrinks { log with store })
    (metadata : store.snapshotMetadata = log.store.snapshotMetadata) :
    Shows { log with store } full := by
  refine ⟨wf, ?_, fun i entry present => view.entry i entry (shrinks.entryAt i entry present),
    view.pending, ?_⟩
  · rw [shrinks.last]
    exact view.length
  · intro none
    simp only [metadata]
    exact view.base none

end RaftLog

/-- A busy node shows the same after its Ready has become stable. -/
theorem RawNode.Busy.shows {rn rn' : RawNode} {rd : Ready} {log : RaftLog} {full : List Entry}
    (busy : rn.Busy rd log) (done : rn.commitReady rd = .ok rn')
    (view : rn.raft.raftLog.Shows full) : rn'.raft.raftLog.Shows full := by
  obtain ⟨wf, snapshot, -, alike, store, -⟩ := busy.settle done
  refine view.settle wf alike snapshot ?_
  have ends := busy.written.last
  have last : rn.raft.raftLog.lastIndex = log.lastIndex := by
    rw [busy.same]
    exact busy.written.busy.last
  rw [store]
  refine ⟨busy.written.wf, ?_, fun i entry present => ?_, ?_⟩
  · rw [view.length, last, ends]
  · refine view.entry i entry ?_
    rw [busy.same, busy.written.busy.entryAt, ← busy.written.entryAt]
    exact present
  · have unstable : rn.raft.raftLog.unstable = log.unstable := by rw [busy.same]
    cases pending : log.unstable.snapshot with
    | some s =>
        rw [busy.written.snapshot s pending]
        exact view.pending s (unstable ▸ pending)
    | none => exact view.base (unstable ▸ pending)

namespace MemStorage

variable {store store' : MemStorage} {full : List Entry}

/-- A compacted storage shows the same. -/
theorem Shows.compact (view : store.Shows full) {index : Nat} (stored : index ≤ store.lastIndex)
    (done : store.compact index = .ok store') : store'.Shows full := by
  obtain ⟨wf, -, last, metadata, -, entryAt⟩ := view.wf.compact stored done
  refine ⟨wf, ?_, fun i entry present => ?_, ?_⟩
  · rw [last]
    exact view.length
  · refine view.entry i entry ?_
    rw [← entryAt i (wf.entryAt_isSome.1 (Option.isSome_of_eq_some present)).1]
    exact present
  · rw [metadata]
    exact view.base

theorem Shows.setHardstate (view : store.Shows full) (hs : HardState) :
    (store.setHardstate hs).Shows full :=
  ⟨⟨view.wf.contiguous, view.wf.after⟩, view.length, view.entry, view.base⟩

end MemStorage

/-- The hard state that a node has handed out last is that of its latest write up to the commit
index, which may be larger in a term of which the node was elected the leader. -/
structure Handed (h : History Nat Entry) (x : Nat) (U V : Replica Nat Entry) (hs : HardState) :
    Prop where
  term : U.term = hs.term
  vote : U.vote = voteFor hs.vote
  above : U.commit ≤ hs.commit
  bounded : hs.commit ≤ U.log.length
  committed : h.Committed (U.log.take hs.commit)
  source : hs.commit = U.commit ∨ ∃ e ∈ h.elections, e.term = U.term ∧ e.leader = x
  low : hs.commit ≤ V.commit

variable {cs : ConfState} {h h' : History Nat Entry} {x : Nat} {U V V' : Replica Nat Entry}
  {hs : HardState}

theorem Handed.mono (handed : Handed h x U V hs) (ext : h.Extends h') (up : V.commit ≤ V'.commit) :
    Handed h' x U V' hs where
  term := handed.term
  vote := handed.vote
  above := handed.above
  bounded := handed.bounded
  committed := ext.committed handed.committed
  source := handed.source.imp_right fun found => found.imp fun _ both => ⟨ext.election both.1, both.2⟩
  low := handed.low.trans up

theorem lastTerm_le_of_proper (proper : h.Proper V) (i : Nat) : lastTerm (V.log.take i) ≤ V.term := by
  by_cases empty : V.log.take i = []
  · rw [empty]
    exact Nat.zero_le _
  · obtain ⟨e, inside, same⟩ := lastTerm_mem empty
    rw [← same]
    exact proper.terms e (List.mem_of_mem_take inside)

/-- A written Ready leaves the state of its node, up to the commit index in a term of an own
election. -/
theorem Host.writeReady_pictures {rn rn' : RawNode} {rd : Ready} {store : MemStorage}
    (readies : rn.Readies rn' rd) (sound : rn.raft.raftLog.Sound)
    (picture : rn.raft.core.Pictures V) (proper : h.Proper V)
    (stored : rn.raft.raftLog.store.Pictures U) (handed : Handed h x U V rn.prevHs)
    (pending : ∀ s, rn.raft.raftLog.unstable.snapshot = some s →
      rn.prevHs.commit ≤ s.metadata.index) (done : writeReady rn'.raft.raftLog.store rd = .ok store) :
    ∃ c, c ≤ V.commit ∧
      (c = V.commit ∨ ((∃ e ∈ h.elections, e.term = V.term ∧ e.leader = x) ∧ c = U.commit)) ∧
      store.Pictures { V with commit := c } := by
  have view : rn.raft.raftLog.Shows V.log := picture.log
  have written := readies.written sound done
  have log : rn'.raft.raftLog = rn.raft.raftLog := congrArg Core.log readies.core
  rw [log] at done
  obtain ⟨middle, last, unapplied, applied, appended, same⟩ := writeReady_ok done
  have anchored : ∀ c, U.commit ≤ c → store.firstIndex ≤ c ∨
      store.snapshotMetadata.index + 1 = store.firstIndex := by
    intro c above
    cases snapshot : rn.raft.raftLog.unstable.snapshot with
    | some s =>
        rw [written.first, written.snapshot s snapshot, RaftLog.firstIndex_of_snapshot snapshot]
        exact .inr rfl
    | none =>
        rw [written.first, written.base snapshot, RaftLog.firstIndex_of_none snapshot]
        exact stored.anchored.imp_left fun retained => (stored.commit ▸ retained).trans above
  by_cases unchanged : rn.raft.hardState = rn.prevHs
  · have none : rd.hs = none := by rw [readies.hs, if_neg (not_not.2 unchanged)]
    rw [none] at same
    obtain rfl : store = last := same
    have term : V.term = U.term := by
      rw [picture.term, handed.term, ← unchanged]
      rfl
    have vote : V.vote = U.vote := by
      rw [picture.vote, handed.vote, ← unchanged]
      rfl
    have commit : V.commit = rn.prevHs.commit := by
      rw [picture.commit, ← unchanged]
      rfl
    have kept := MemStorage.raftState_append appended
    cases snapshot : rn.raft.raftLog.unstable.snapshot with
    | some s =>
        have handedOut : rd.snapshot = s := by rw [readies.snapshot, snapshot, Option.getD_some]
        have nonempty : rd.snapshot.isEmpty = false := by
          rw [handedOut]
          simp [Snapshot.isEmpty, sound.positioned s snapshot]
        have restored := applied nonempty
        rw [handedOut] at restored
        unfold MemStorage.applySnapshot at restored
        simp only at restored
        split at restored
        · cases restored
        obtain rfl := Except.ok.inj restored
        have low := sound.wf.low
        rw [RaftLog.firstIndex_of_snapshot snapshot] at low
        have reached : s.metadata.index = V.commit := by
          refine le_antisymm ?_ (commit ▸ pending s snapshot)
          rw [picture.commit]
          exact Nat.le_of_succ_le_succ low
        have old : s.metadata.term ≤ V.term := by
          rw [← view.pending s snapshot]
          exact lastTerm_le_of_proper proper _
        refine ⟨V.commit, le_rfl, .inl rfl, ⟨?_, ?_, written.shows view, ?_, ?_⟩⟩
        · rw [kept]
          simp only
          rw [← stored.term, ← term, max_eq_left old]
        · rw [kept]
          simp only
          rw [vote, stored.vote]
        · rw [kept]
          exact reached.symm
        · rw [kept]
          exact anchored _ (by rw [reached, commit]; exact handed.above)
    | none =>
        have empty : rd.snapshot.isEmpty = true := by
          rw [readies.snapshot, snapshot]
          rfl
        obtain rfl := unapplied empty
        refine ⟨U.commit, commit ▸ handed.above, ?_, ⟨?_, ?_, written.shows view, ?_, ?_⟩⟩
        · rcases handed.source with same | elected
          · exact .inl (same.symm.trans commit.symm)
          · rw [term]
            exact .inr ⟨elected, rfl⟩
        · rw [kept, ← stored.term]
          exact term
        · rw [kept, ← stored.vote]
          exact vote
        · rw [kept, ← stored.commit]
        · rw [kept, ← stored.commit]
          exact anchored _ le_rfl
  · have some : rd.hs = some rn.raft.hardState := by rw [readies.hs, if_pos unchanged]
    rw [some] at same
    obtain rfl : store = last.setHardstate rn.raft.hardState := same
    refine ⟨V.commit, le_rfl, .inl rfl,
      ⟨picture.term, picture.vote, written.shows view, picture.commit, ?_⟩⟩
    have reached : rn.raft.hardState.commit = V.commit := picture.commit.symm
    show _ ≤ rn.raft.hardState.commit ∨ _
    rw [reached]
    exact anchored _ (handed.above.trans handed.low)

end RaftRs

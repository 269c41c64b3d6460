import RaftRs.Act.Run
import RaftRs.Peer.Advance

namespace RaftRs

open Library

theorem quiet_sliceVec {α : Type} (items : List α) (low high : Nat) :
    Quiet (sliceVec items low high) := by
  unfold sliceVec
  split
  · exact quiet_ok
  · exact quiet_error id

theorem quiet_checkedAdd (a b : Nat) : Quiet (checkedAdd a b) := meets_checkedAdd id a b

namespace MemStorage

variable (store : MemStorage)

theorem quiet_entriesIn (low high : Nat) (maxSize : Option Nat) (context : GetEntriesFor) :
    Quiet (store.entriesIn low high maxSize context) := by
  unfold entriesIn
  split
  · exact quiet_ok
  split
  · exact quiet_error id
  split
  · exact quiet_ok
  split
  · exact quiet_error id
  · exact (quiet_sliceVec ..).bind fun _ => quiet_ok

theorem quiet_snapshotCore : Quiet store.snapshotCore := by
  unfold snapshotCore
  simp only
  repeat' split
  all_goals first | exact quiet_ok | exact quiet_error id

theorem quiet_snapshot (requestIndex : Nat) : Quiet (store.snapshot requestIndex) := by
  unfold snapshot
  split
  · exact quiet_ok
  · refine store.quiet_snapshotCore.bind fun snap => ?_
    split <;> exact quiet_ok

end MemStorage

namespace Unstable

variable (unstable : Unstable)

theorem quiet_mustCheckOutofbounds (lo hi : Nat) : Quiet (unstable.mustCheckOutofbounds lo hi) := by
  unfold mustCheckOutofbounds
  repeat' split
  all_goals first | exact quiet_ok | exact quiet_error id

theorem quiet_slice (lo hi : Nat) : Quiet (unstable.slice lo hi) :=
  (unstable.quiet_mustCheckOutofbounds lo hi).bind fun _ => quiet_sliceVec ..

theorem quiet_truncateAndAppend (ents : List Entry) : Quiet (unstable.truncateAndAppend ents) := by
  unfold truncateAndAppend
  split
  · exact quiet_error id
  · simp only
    split
    · exact quiet_ok
    split
    · exact quiet_ok
    · exact (unstable.quiet_mustCheckOutofbounds ..).bind fun _ => quiet_ok

end Unstable

namespace RaftLog

variable (log : RaftLog)

theorem quiet_lastTerm : Quiet log.lastTerm := by
  unfold lastTerm
  split
  · exact quiet_ok
  · exact quiet_error id

theorem quiet_commitInfo : Quiet log.commitInfo := by
  unfold commitInfo
  split
  · exact quiet_ok
  · exact quiet_error id

theorem quiet_isUpToDate (lastIndex term : Nat) : Quiet (log.isUpToDate lastIndex term) :=
  log.quiet_lastTerm.bind fun _ => quiet_ok

theorem quiet_conflictDescent (term index : Nat) : Quiet (log.conflictDescent term index) := by
  induction index with
  | zero =>
      unfold conflictDescent
      repeat' split
      all_goals first | exact quiet_ok | exact quiet_error id
  | succ index ih =>
      unfold conflictDescent
      repeat' split
      all_goals first | exact quiet_ok | exact ih

theorem quiet_findConflictByTerm (index term : Nat) : Quiet (log.findConflictByTerm index term) := by
  unfold findConflictByTerm
  split
  · exact quiet_ok
  · exact log.quiet_conflictDescent term index

theorem quiet_appliedTo (index : Nat) : Quiet (log.appliedTo index) := by
  unfold appliedTo
  repeat' split
  all_goals first | exact quiet_ok | exact quiet_error id

theorem quiet_append (ents : List Entry) : Quiet (log.append ents) := by
  unfold append
  repeat' split
  all_goals first
    | exact quiet_ok
    | exact quiet_error id
    | exact (log.unstable.quiet_truncateAndAppend ents).bind fun _ => quiet_ok

theorem quiet_storedSlice (low high : Nat) (maxSize : Option Nat) (context : GetEntriesFor) :
    Quiet (log.storedSlice low high maxSize context) := by
  unfold storedSlice
  split
  · refine (log.store.quiet_entriesIn ..).bind fun result => ?_
    split <;> first | exact quiet_ok | exact quiet_error id
  · exact quiet_ok

theorem quiet_slice (low high : Nat) (maxSize : Option Nat) (context : GetEntriesFor) :
    Quiet (log.slice low high maxSize context) := by
  unfold slice
  refine Quiet.bind ?_ fun checked => ?_
  · unfold mustCheckOutofbounds
    repeat' split
    all_goals first | exact quiet_ok | exact quiet_error id
  · split
    · exact quiet_ok
    split
    · exact quiet_ok
    refine (log.quiet_storedSlice ..).bind fun result => ?_
    split
    · exact quiet_ok
    split
    · exact quiet_ok
    split
    · exact (log.unstable.quiet_slice ..).bind fun _ => quiet_ok
    · exact quiet_ok

theorem quiet_entries (idx : Nat) (maxSize : Option Nat) (context : GetEntriesFor) :
    Quiet (log.entries idx maxSize context) := by
  unfold entries
  split
  · exact quiet_ok
  · exact log.quiet_slice ..

theorem quiet_scan {α : Type} (hi pageSize : Nat) (context : GetEntriesFor)
    (visit : α → List Entry → α × Bool) (fuel lo : Nat) (acc : α) :
    Quiet (log.scan hi pageSize context visit fuel lo acc) := by
  induction fuel generalizing lo acc with
  | zero =>
      unfold scan
      split <;> first | exact quiet_ok | exact quiet_error id
  | succ fuel ih =>
      unfold scan
      split
      · refine (log.quiet_slice ..).bind fun result => ?_
        split
        · exact quiet_ok
        · exact quiet_ok
        · simp only
          split
          · exact ih ..
          · exact quiet_ok
      · exact quiet_ok

theorem quiet_snapshot (requestIndex : Nat) : Quiet (log.snapshot requestIndex) := by
  have stored : Quiet (log.store.snapshot requestIndex >>= fun result =>
      .ok ({ log with store := result.1 }, result.2)) :=
    (log.store.quiet_snapshot requestIndex).bind fun _ => quiet_ok
  unfold snapshot
  simp only
  repeat' split
  all_goals first | exact quiet_ok | exact stored

theorem quiet_restore (snapshot : Snapshot) : Quiet (log.restore snapshot) := by
  unfold restore
  simp only
  split
  · exact quiet_error id
  · exact quiet_ok

theorem quiet_maybePersistSnap (index : Nat) : Quiet (log.maybePersistSnap index) := by
  unfold maybePersistSnap
  repeat' split
  all_goals first | exact quiet_ok | exact quiet_error id

end RaftLog

namespace Inflights

variable (ins : Inflights)

theorem quiet_add (inflight : Nat) (room : ins.full = false) : Quiet (ins.add inflight) := by
  unfold add
  simp only [room, Bool.false_eq_true, if_false]
  repeat' split
  all_goals first | exact quiet_ok | exact quiet_error id

theorem quiet_freeLoop (toIdx remaining idx freed : Nat) :
    Quiet (ins.freeLoop toIdx remaining idx freed) := by
  induction remaining generalizing idx freed with
  | zero => exact quiet_ok
  | succ remaining ih =>
      unfold freeLoop
      split
      · exact quiet_error id
      · split
        · exact quiet_ok
        · exact ih ..

theorem quiet_freeTo (toIdx : Nat) : Quiet (ins.freeTo toIdx) := by
  unfold freeTo
  split
  · exact quiet_ok
  split
  · exact quiet_error id
  split
  · exact quiet_ok
  · refine (ins.quiet_freeLoop ..).bind fun result => ?_
    simp only
    split <;> exact quiet_ok

theorem quiet_freeFirstOne : Quiet ins.freeFirstOne := by
  unfold freeFirstOne
  repeat' split
  all_goals first | exact quiet_ok | exact quiet_error id | exact ins.quiet_freeTo _

theorem quiet_setCap (incomingCap : Nat) : Quiet (ins.setCap incomingCap) := by
  unfold setCap
  repeat' split
  all_goals first | exact quiet_ok | exact quiet_error id

end Inflights

namespace ReadOnly

variable (ro : ReadOnly)

theorem quiet_addRequest (index : Nat) (req : Message) (selfId : Nat) :
    Quiet (ro.addRequest index req selfId) := by
  unfold addRequest
  simp only
  repeat' split
  all_goals first | exact quiet_ok | exact quiet_error id

theorem quiet_position (ctx : Bytes) (queue : List Bytes) (i : Nat) :
    Quiet (ro.position ctx queue i) := by
  induction queue generalizing i with
  | nil => exact quiet_ok
  | cons x rest ih =>
      unfold position
      repeat' split
      all_goals first | exact quiet_ok | exact quiet_error id | exact ih _

theorem quiet_popFront (count : Nat) : Quiet (ro.popFront count) := by
  induction count generalizing ro with
  | zero => exact quiet_ok
  | succ count ih =>
      unfold popFront
      split
      · exact quiet_error id
      split
      · exact quiet_error id
      · exact (ih _).bind fun _ => quiet_ok

theorem quiet_advance (ctx : Bytes) : Quiet (ro.advance ctx) := by
  unfold advance
  refine (ro.quiet_position ..).bind fun found => ?_
  split
  · exact ro.quiet_popFront _
  · exact quiet_ok

end ReadOnly

/-- The failures of the commit rules. -/
def Fatal.IsCommit : Fatal → Prop
  | .entryConflict _ _ => True
  | .toCommitOutOfRange _ _ => True
  | _ => False

namespace RaftLog

variable {log : RaftLog} {e : Fatal}

theorem commitTo_fatal {toCommit : Nat} (failed : log.commitTo toCommit = .error e) : e.IsCommit := by
  unfold commitTo at failed
  split at failed
  · cases failed
  split at failed
  · cases failed
    trivial
  · cases failed

theorem maybeCommit_fatal {maxIndex term : Nat}
    (failed : log.maybeCommit maxIndex term = .error e) : e.IsCommit := by
  unfold maybeCommit at failed
  split at failed
  · cases moved : log.commitTo maxIndex with
    | error e' =>
        rw [moved] at failed
        cases failed
        exact commitTo_fatal moved
    | ok log' =>
        rw [moved] at failed
        cases failed
  · cases failed

/-- A traced failure of an append is one of the commit rules. -/
theorem maybeAppend_fatal {idx term committed : Nat} {ents : List Entry} (traced : e.IsTraced)
    (failed : log.maybeAppend idx term committed ents = .error e) : e.IsCommit := by
  unfold maybeAppend at failed
  split at failed
  · simp only at failed
    cases spliced : log.appendFrom idx (log.findConflict ents) ents with
    | error e' =>
        rw [spliced] at failed
        cases failed
        unfold appendFrom at spliced
        split at spliced
        · cases spliced
        split at spliced
        · cases spliced
          trivial
        split at spliced
        · cases spliced
          exact traced.elim
        · have quiet := log.quiet_append (ents.drop (log.findConflict ents - (idx + 1)))
          cases appended : log.append (ents.drop (log.findConflict ents - (idx + 1))) with
          | error e' =>
              rw [appended] at spliced quiet
              cases spliced
              exact absurd traced quiet
          | ok log' =>
              rw [appended] at spliced
              cases spliced
    | ok mid =>
        rw [spliced, ok_bind] at failed
        cases moved : mid.commitTo (min committed (idx + ents.length)) with
        | error e' =>
            rw [moved] at failed
            cases failed
            exact commitTo_fatal moved
        | ok log' =>
            rw [moved] at failed
            cases failed
  · cases failed

end RaftLog

/-- A failure of the log is one of the commit rules; the other ones name their state. -/
theorem Faults.other {inp : Input → Prop} {c : Core} {e : Fatal} (faults : Faults inp c e)
    (traced : e.IsTraced) (apart : ¬ e.IsCommit) :
    (e = .missingOwn ∧ c.state = .leader ∧ c.positions c.id = none) ∨
      (e = .missingWinner ∧ inp .election ∧ c.state = .candidate ∧ c.Won ∧ c.positions c.id = none) ∨
      (∃ m, e = .invalidMessageTerm ∧ inp (.message m) ∧ ((m.IsVoteRequest ∧ m.term = 0) ∨
        (m.msgType = .msgRequestPreVote ∧ c.term = 0 ∧ m.term ≠ 0 ∧
          (c.log.isUpToDate m.index m.logTerm = .ok true →
            m.index ≤ c.log.lastIndex ∧ getPriority m < c.priority)) ∨
        ((m.msgType = .msgPropose ∨ m.msgType = .msgReadIndex ∨ m.msgType = .msgTransferLeader) ∧
          m.term ≠ 0 ∧ c.state = .follower ∧ inp (.leader m.term)))) ∨
      (e = .unpersistedLeader c.log.lastIndex c.log.persisted ∧ inp .election ∧
        c.state = .candidate ∧ c.Won ∧ c.log.lastIndex ≠ c.log.persisted) := by
  cases faults with
  | append _ _ _ _ _ failed => exact absurd (RaftLog.maybeAppend_fatal traced failed) apart
  | heartbeat _ _ _ _ failed => exact absurd (RaftLog.commitTo_fatal failed) apart
  | fastForward _ _ _ failed => exact absurd (RaftLog.commitTo_fatal failed) apart
  | commitByVote _ _ failed => exact absurd (RaftLog.maybeCommit_fatal failed) apart
  | commitByRead _ _ _ failed => exact absurd (RaftLog.maybeCommit_fatal failed) apart
  | commitByQuorum _ failed => exact absurd (RaftLog.maybeCommit_fatal failed) apart
  | missingOwn role absent failed => exact .inl ⟨failed, role, absent⟩
  | missingWinner may role won absent failed => exact .inr (.inl ⟨failed, may, role, won, absent⟩)
  | @untermedVote m stepped kind zero failed =>
      exact .inr (.inr (.inl ⟨m, failed, stepped, .inl ⟨kind, zero⟩⟩))
  | @refuseUntermed m stepped kind zero later refused failed =>
      exact .inr (.inr (.inl ⟨m, failed, stepped, .inr (.inl ⟨kind, zero, later, refused⟩)⟩))
  | @forwardTermed m stepped role kind termed known failed =>
      exact .inr (.inr (.inl ⟨m, failed, stepped, .inr (.inr ⟨kind, termed, role, known⟩)⟩))
  | unpersisted may role won unsettled failed =>
      exact .inr (.inr (.inr ⟨failed, may, role, won, unsettled⟩))

end RaftRs

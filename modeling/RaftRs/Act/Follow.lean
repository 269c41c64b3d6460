import RaftRs.Act.Elect

namespace RaftRs

open Library

/-- A message that does not match leaves the log as it is. -/
theorem RaftLog.maybeAppend_none {log log' : RaftLog} {idx term committed : Nat} {ents : List Entry}
    (done : log.maybeAppend idx term committed ents = .ok (log', none)) : log' = log := by
  unfold RaftLog.maybeAppend at done
  split at done
  · obtain ⟨_, _, done⟩ := bind_eq_ok.1 done
    obtain ⟨_, _, done⟩ := bind_eq_ok.1 done
    cases done
  · exact (ok_pair_inj done).1.symm

namespace Raft

variable {r : Raft} {inp : Input → Prop} {m : Message}

theorem does_sendRequestSnapshot
    (asked : r.pendingRequestSnapshot ≠ invalidIndex ∨ inp .requestSnapshot) :
    Does inp r.core r.sendRequestSnapshot core fun _ => True := by
  unfold sendRequestSnapshot
  split
  · exact .fail not_false
  · exact (does_send (.snapshotRequest asked)).mono fun _ _ => trivial

theorem does_rejectAppend (stepped : inp (.message m)) (kind : m.msgType = .msgAppend) :
    Does inp r.core (r.rejectAppend m) core fun _ => True := by
  unfold rejectAppend
  refine .read (RaftLog.quiet_findConflictByTerm ..) fun ⟨hintIndex, hintTerm⟩ _ => ?_
  cases hintTerm with
  | none => exact .fail not_false
  | some logTerm => exact (does_send (.appendReject stepped kind)).mono fun _ _ => trivial

theorem does_handleAppendEntries (stepped : inp (.message m)) (kind : m.msgType = .msgAppend)
    (heard : r.core.Hears m) (role : r.state = .follower) :
    Does inp r.core (r.handleAppendEntries m) core fun _ => True := by
  unfold handleAppendEntries
  split
  next asked => exact does_sendRequestSnapshot (.inl asked)
  next unasked =>
    push Not at unasked
    split
    next below =>
      exact (does_send (.floorAck stepped (.inl ⟨kind, below⟩) heard role)).mono fun _ _ => trivial
    next above =>
      push Not at above
      cases done : r.raftLog.maybeAppend m.index m.logTerm m.commit m.entries with
      | error e => exact .fault (.append stepped kind heard role above done)
      | ok result =>
          obtain ⟨log, result⟩ := result
          simp only [ok_bind]
          cases result with
          | none =>
              obtain rfl := RaftLog.maybeAppend_none done
              exact does_rejectAppend stepped kind
          | some result =>
              obtain ⟨conflict, last⟩ := result
              have sent := { r with raftLog := log }.send_ok (m :=
                { toId := m.fromId, msgType := .msgAppendResponse, index := last,
                  commit := log.committed }) rfl
              simp only [sent]
              exact .pure (Act.accept stepped kind heard role unasked above done).acts trivial

theorem does_handleHeartbeat (stepped : inp (.message m)) (kind : m.msgType = .msgHeartbeat)
    (heard : r.core.Hears m) (role : r.state = .follower) :
    Does inp r.core (r.handleHeartbeat m) core fun _ => True := by
  unfold handleHeartbeat
  cases done : r.raftLog.commitTo m.commit with
  | error e => exact .fault (.heartbeat stepped kind heard role done)
  | ok log =>
      refine .after (Act.heartbeat stepped kind heard role done).acts ?_
      simp only [ok_bind]
      split
      next asked => exact does_sendRequestSnapshot (r := { r with raftLog := log }) (.inl asked)
      next =>
        have heard : { r with raftLog := log }.core.Hears m := heard
        exact (does_send (r := { r with raftLog := log })
          (.heartbeatResponse stepped kind heard role)).mono
          fun _ _ => trivial

theorem postConfChange_follower (role : r.state ≠ .leader) :
    r.postConfChange = .ok ({ r with promotable := r.prs.conf.voters.contains r.id },
      r.prs.conf.toConfState) := by
  unfold postConfChange
  simp only [ne_eq, role, not_false_eq_true, decide_true, Bool.true_or, if_true, decide_false,
    Bool.and_false, Bool.false_eq_true, if_false]
  rfl

theorem restoreConfState_ok {r' : Raft} {cs : ConfState} (role : r.state ≠ .leader)
    (done : r.restoreConfState cs = .ok r') :
    ∃ conf positions votes, confStateEq cs conf.toConfState = true ∧ Rostered conf positions ∧
      r'.core = { r.core with
        conf, positions, votes, pendingRequestSnapshot := invalidIndex,
          promotable := conf.voters.contains r.id } ∧
      r'.raftLog = r.raftLog ∧ r'.id = r.id ∧ r'.term = r.term := by
  unfold restoreConfState at done
  split at done
  · cases done
  next prs restored =>
    rw [postConfChange_follower (r := { r with prs }) role] at done
    simp only [ok_bind] at done
    split at done
    · cases done
    next same =>
      split at done
      · cases done
      next pr known =>
        obtain ⟨last, subtracted, done⟩ := bind_eq_ok.1 done
        obtain ⟨⟨pr', moved⟩, updated, done⟩ := bind_eq_ok.1 done
        obtain rfl := Except.ok.inj done
        have rostered : (prs.put r.id pr').Rostered := by
          obtain ⟨roster, steps, represents⟩ := ProgressTracker.rostered_restoreConf ⟨rfl, rfl⟩ restored
          refine ⟨roster, steps, represents.lists, fun id => ?_⟩
          rw [← represents.tracks id]
          simp only [ProgressTracker.put, KeyMap.contains, KeyMap.get?_modify]
          split <;> simp
        have listed := rostered_core (r := { r with prs := prs.put r.id pr' }).2 rostered
        exact ⟨prs.conf, _, _, by simpa using same, listed, rfl, rfl, rfl, rfl⟩

theorem quiet_restoreConfState {cs : ConfState} (role : r.state ≠ .leader) :
    Quiet (r.restoreConfState cs) := by
  unfold restoreConfState
  split
  · exact quiet_error not_false
  next prs restored =>
    rw [postConfChange_follower (r := { r with prs }) role]
    simp only [ok_bind]
    split
    · exact quiet_error not_false
    split
    · exact quiet_error not_false
    next pr known =>
      exact Quiet.bind (meets_checkedSub not_false ..)
        fun _ => Quiet.bind (pr.meets_maybeUpdate not_false _) fun _ => quiet_ok

theorem does_handleSnapshot (stepped : inp (.message m)) (kind : m.msgType = .msgSnapshot)
    (heard : r.core.Hears m) (role : r.state = .follower) :
    Does inp r.core (r.handleSnapshot m) core fun _ => True := by
  have floor : ∀ r' : Raft, r'.core.Hears m → r'.state = .follower →
      Does inp r'.core
        (r'.send { msgType := .msgAppendResponse, toId := m.fromId, index := r'.raftLog.committed })
        core fun _ => True :=
    fun r' heard role => (does_send (.floorAck stepped (.inr kind) heard role)).mono fun _ _ => trivial
  unfold handleSnapshot restore
  simp only
  split
  · exact floor r heard role
  split
  next other => exact absurd role other
  split
  · exact floor r heard role
  split
  next agrees =>
    cases done : r.raftLog.commitTo m.snapshot.metadata.index with
    | error e => exact .fault (.fastForward stepped kind agrees.2 done)
    | ok log =>
        refine .after (Act.fastForward stepped kind heard role agrees.2 done).acts ?_
        exact floor { r with raftLog := log } heard role
  next disagrees =>
    have fresh : r.pendingRequestSnapshot ≠ invalidIndex ∨
        r.raftLog.matchTerm m.snapshot.metadata.index m.snapshot.metadata.term = false := by
      by_contra both
      push Not at both
      exact disagrees ⟨both.1, by simpa using both.2⟩
    have waiting : { r with raftLog := r.raftLog }.state ≠ .leader := by
      rw [role]
      exact nofun
    simp only [bind_assoc]
    refine .read (RaftLog.quiet_restore ..) fun log done => ?_
    refine .read (quiet_restoreConfState (r := { r with raftLog := log }) waiting) fun r₁ restored => ?_
    obtain ⟨conf, positions, votes, same, rostered, core₁, log₁, id₁, term₁⟩ :=
      restoreConfState_ok (r := { r with raftLog := log }) waiting restored
    have sent := r₁.send_ok
      (m := { msgType := .msgAppendResponse, toId := m.fromId, index := r₁.raftLog.lastIndex }) rfl
    simp only [pure_bind, sent]
    have act : Act inp r.core { r.core with
        log, conf, positions, votes, pendingRequestSnapshot := invalidIndex
        promotable := conf.voters.contains r.core.id
        msgs := r.core.msgs ++ [r.core.ackFor m log.lastIndex 0] } :=
      .restore stepped kind heard role fresh done same rostered
    refine .pure (act.acts_to ?_) trivial
    have push : { r₁ with msgs := r₁.msgs ++ [r₁.stamp
        { msgType := .msgAppendResponse, toId := m.fromId, index := r₁.raftLog.lastIndex }] }.core =
        { r₁.core with msgs := r₁.core.msgs ++ [r₁.core.ackFor m r₁.raftLog.lastIndex 0] } := rfl
    rw [push, core₁, log₁]
    rfl

theorem does_handleReadIndexResp (stepped : inp (.message m)) (kind : m.msgType = .msgReadIndexResp)
    (heard : r.core.Hears m) (role : r.state = .follower) :
    Does inp r.core (r.handleReadIndexResp m) core fun _ => True := by
  unfold handleReadIndexResp
  split
  next entry single =>
    refine .after (Act.learnRead stepped kind heard role single).acts ?_
    have heard : Core.Hears
        { r.core with
          readStates := r.readStates ++ [{ index := m.index, requestCtx := entry.data }] } m := heard
    simp only
    cases done : r.raftLog.maybeCommit m.index m.term with
    | error e => exact .fault (.commitByRead stepped kind heard done)
    | ok result =>
        obtain ⟨log, committed⟩ := result
        simp only [ok_bind]
        cases committed with
        | false =>
            obtain rfl := RaftLog.maybeCommit_false done
            exact .pure .refl trivial
        | true => exact .pure (Act.commitByRead stepped kind heard role done).acts trivial
  next => exact .pure .refl trivial

theorem does_forward (stepped : inp (.message m)) (role : r.state = .follower)
    (kind : m.msgType = .msgPropose ∨ m.msgType = .msgReadIndex ∨ m.msgType = .msgTransferLeader)
    (known : m.term ≠ 0 → inp (.leader m.term)) : Does inp r.core (r.forward m) core fun _ => True := by
  refine (does_send_or ?_ fun unsent => ?_).mono fun _ _ => trivial
  · by_cases zero : m.term = 0
    · left
      rcases kind with kind | kind | kind <;> simpa [Unsent, kind, MessageType.isCampaign] using zero
    · exact .inr (.forwardTermed stepped role kind zero (known zero) rfl)
  rcases kind with kind | kind | kind
  · have zero : m.term = 0 := by simpa [Unsent, kind, MessageType.isCampaign] using unsent
    simp only [stamp, stampPriority, kind, MessageType.isCampaign, reduceCtorEq, or_self, if_false,
      Bool.false_eq_true, true_or, or_true, if_true]
    exact kind ▸ .forward stepped role (.inl ⟨kind, zero⟩)
  · have zero : m.term = 0 := by simpa [Unsent, kind, MessageType.isCampaign] using unsent
    simp only [stamp, stampPriority, kind, MessageType.isCampaign, reduceCtorEq, or_self, if_false,
      Bool.false_eq_true, or_true, if_true]
    exact kind ▸ .forward stepped role (.inr (.inl ⟨kind, zero⟩))
  · simp only [stamp, stampPriority, kind, MessageType.isCampaign, reduceCtorEq, or_self, if_false,
      Bool.false_eq_true]
    exact kind ▸ .forward stepped role (.inr (.inr ⟨kind, rfl⟩))

end Raft

end RaftRs

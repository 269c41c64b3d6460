import RaftRs.Act.Append

namespace RaftRs

open Library

theorem Progress.raised_position (pr : Progress) (n : Nat) :
    (pr.raised n).position = pr.position.raise n := rfl

theorem Progress.updateCommitted_position (pr : Progress) (committedIndex : Nat) :
    (pr.updateCommitted committedIndex).position = pr.position := by
  unfold Progress.updateCommitted
  split <;> rfl

theorem RaftLog.maybeCommit_false {log log' : RaftLog} {i term : Nat}
    (done : log.maybeCommit i term = .ok (log', false)) : log' = log := by
  unfold RaftLog.maybeCommit at done
  split at done
  · obtain ⟨_, _, same⟩ := bind_eq_ok.1 done
    cases same
  · exact (ok_pair_inj done).1.symm

/-- A commit that happens moves above the commit index. -/
theorem RaftLog.maybeCommit_true {log log' : RaftLog} {i term : Nat}
    (done : log.maybeCommit i term = .ok (log', true)) : log.committed < i := by
  unfold RaftLog.maybeCommit at done
  split at done
  next newer => exact newer.1
  next => cases done

namespace Raft

variable {r : Raft} {inp : Input → Prop}

theorem core_put_same {id : Nat} {pr pr' : Progress} (known : r.prs.get id = some pr)
    (same : pr'.position = pr.position) : { r with prs := r.prs.put id pr' }.core = r.core := by
  rw [core_put r (by simp [known]), coreWith_congr same, coreWith_get r known]

theorem core_positions {id : Nat} {pr : Progress} (known : r.prs.get id = some pr) :
    r.core.positions id = some pr.position := by
  simp [core, known]

theorem core_positions_none {id : Nat} (absent : r.prs.get id = none) : r.core.positions id = none := by
  simp [core, absent]

theorem does_bcastHeartbeatWithCtx {ctx : Option Bytes} (role : r.state = .leader)
    (pending : ctx.getD [] = [] ∨ ctx.getD [] ∈ r.readOnly.readIndexQueue ∨
      (r.readOnly.pendingReadIndex.get? (ctx.getD [])).isSome) :
    Does inp r.core (r.bcastHeartbeatWithCtx ctx) core (Steady r) := by
  unfold bcastHeartbeatWithCtx
  refine Does.foldlM r.peers (fun id inside r' steady => ?_) r .refl
  have other : id ≠ r'.id := by
    rw [steady.id]
    simpa [peers] using (List.mem_filter.1 inside).2
  refine (does_withProgress fun pr => ?_).mono fun _ more => steady.trans more
  refine (does_send_with ?_).bind fun _ sending => .pure .refl sending
  refine .heartbeat (c := r'.coreWith id pr) (steady.state.trans role) other positions_coreWith ?_
  show _ ∨ _ ∈ r'.readOnly.readIndexQueue ∨ (r'.readOnly.pendingReadIndex.get? _).isSome
  rw [steady.reads]
  exact pending

theorem does_bcastHeartbeat (role : r.state = .leader) :
    Does inp r.core r.bcastHeartbeat core (Steady r) := by
  refine does_bcastHeartbeatWithCtx role ?_
  unfold ReadOnly.lastPendingRequestCtx
  cases last : r.readOnly.readIndexQueue.getLast? with
  | none => exact .inl rfl
  | some ctx => exact .inr (.inl (List.mem_of_getLast? last))

theorem does_ping : Does inp r.core r.ping core (Steady r) := by
  unfold ping
  split
  next role => exact does_bcastHeartbeat role
  next => exact .pure .refl .refl

theorem does_maybeCommit (role : r.state = .leader) :
    Does inp r.core r.maybeCommit (fun x => x.1.core) fun x => Steady r x.1 := by
  unfold maybeCommit
  simp only
  cases done : r.raftLog.maybeCommit r.prs.maximalCommittedIndex.1 r.term with
  | error e => exact .fault (.commitByQuorum role done)
  | ok result =>
      obtain ⟨log, committed⟩ := result
      cases committed with
      | false =>
          obtain rfl := RaftLog.maybeCommit_false done
          exact .pure .refl .refl
      | true =>
          have acked : r.core.conf.voters.Agrees fun id =>
              ∃ pos, r.core.positions id = some pos ∧ r.prs.maximalCommittedIndex.1 ≤ pos.matched := by
            refine (r.prs.conf.voters.committedIndex_agrees r.prs.groupCommit
              (ackedIndex r.prs.progress)).mono ?_
            intro id reached
            change r.prs.maximalCommittedIndex.1 ≤ _ at reached
            have positive := RaftLog.maybeCommit_true done
            unfold ackedIndex at reached
            cases known : r.prs.progress.get? id with
            | none =>
                simp only [known, Option.map_none, Option.getD_none] at reached
                omega
            | some pr =>
                simp only [known, Option.map_some, Option.getD_some] at reached
                exact ⟨pr.position, core_positions known, reached⟩
          refine .after (Act.commitByQuorum role acked done).acts ?_
          simp only [ok_bind, if_true]
          split
          next absent =>
            exact .fault
              (.missingOwn role (core_positions_none (r := { r with raftLog := log }) absent) rfl)
          next pr known =>
            refine .pure ?_ ⟨rfl, rfl, rfl, rfl⟩
            simp only
            rw [core_put_same (r := { r with raftLog := log }) known (pr.updateCommitted_position _)]
            exact .refl

/-- A counted proposal leaves the start of the leader's term alone. -/
theorem lastLogTailIndex_increase {state state' : UncommittedState} {es : List Entry} {fits : Bool}
    (counted : state.maybeIncreaseUncommittedSize es = (state', fits)) :
    state'.lastLogTailIndex = state.lastLogTailIndex := by
  unfold UncommittedState.maybeIncreaseUncommittedSize at counted
  simp only at counted
  split_ifs at counted <;> cases counted <;> rfl

theorem core_append {es : List Entry} {uncommittedState : UncommittedState} {fits : Bool} {log : RaftLog}
    (counted : r.uncommittedState.maybeIncreaseUncommittedSize es = (uncommittedState, fits)) :
    { r with uncommittedState, raftLog := log }.core = { r.core with log } := by
  unfold core
  rw [← lastLogTailIndex_increase counted]

theorem does_appendEntry (es : List Entry) (role : r.state = .leader)
    (admitted : ∀ e ∈ assignPositions r.term r.raftLog.lastIndex es, e.entryType ≠ .entryNormal →
      r.raftLog.applied < e.index → e.index = r.pendingConfIndex)
    (source : inp .election ∨ ∃ m, inp (.message m) ∧ m.msgType = .msgPropose) :
    Does inp r.core (r.appendEntry es) (fun x => x.1.core) fun x => Steady r x.1 := by
  unfold appendEntry
  split
  · exact .pure .refl .refl
  next uncommittedState counted =>
    refine .read (r.raftLog.quiet_append _) fun log done => ?_
    exact .pure ((Act.grow role admitted done source).acts_to (core_append counted).symm)
      ⟨rfl, rfl, rfl, rfl⟩

/-- The core of a node that starts to lead. -/
theorem core_lead (r : Raft) {pr : Progress} (leaderId : Nat) (uncommittedState : UncommittedState)
    (known : (r.reset r.term).prs.get (r.reset r.term).id = some pr)
    (tail : uncommittedState.lastLogTailIndex = r.raftLog.lastIndex) :
    { r.reset r.term with
      leaderId, state := .leader, uncommittedState, pendingConfIndex := r.raftLog.lastIndex
      prs := (r.reset r.term).prs.put (r.reset r.term).id pr.becomeReplicate }.core =
        r.core.asLeader := by
  have reset := r.core_reset r.term
  have id : (r.reset r.term).id = r.id := congrArg Core.id reset
  have fresh : r.core.freshPositions r.id = some pr.position := by
    have found := core_positions known
    rw [reset, id] at found
    exact found
  have position : pr.becomeReplicate.position =
      { matched := r.raftLog.persisted, nextIdx := r.raftLog.persisted + 1 } := by
    obtain ⟨_, _, same⟩ := Option.map_eq_some_iff.1 fresh
    have matched : r.raftLog.persisted = pr.matched :=
      (if_pos rfl).symm.trans (congrArg Position.matched same)
    have request : 0 = pr.pendingRequestSnapshot := congrArg Position.pendingRequestSnapshot same
    simp [Progress.position, Progress.becomeReplicate, Progress.resetState, ← matched, ← request]
  have put : { r.reset r.term with
      prs := (r.reset r.term).prs.put (r.reset r.term).id pr.becomeReplicate }.core = _ :=
    core_put (r.reset r.term) (by rw [known]; rfl)
  have leads : ∀ r' : Raft, { r' with
      leaderId, state := .leader, uncommittedState, pendingConfIndex := r.raftLog.lastIndex }.core =
      { r'.core with
        state := .leader, pendingConfIndex := r.raftLog.lastIndex, tail := r.raftLog.lastIndex } :=
    fun r' => by
      unfold core
      rw [← tail]
  rw [leads { r.reset r.term with prs := _ }, put, coreWith, reset, id, position]
  have vote : (if r.core.term = r.term then r.core.vote else invalidId) = r.core.vote := if_pos rfl
  simp only [Core.at', Core.asLeader, Core.enter, if_true, vote]
  rfl

theorem does_becomeLeader (may : inp .election) (role : r.state = .candidate) (won : r.core.Won) :
    Does inp r.core r.becomeLeader core fun r' => r'.state = .leader ∧ r'.id = r.id ∧
      r'.term = r.term := by
  unfold becomeLeader
  simp only [role, reduceCtorEq, if_false]
  have reset := r.core_reset r.term
  have log : (r.reset r.term).raftLog = r.raftLog := congrArg Core.log reset
  split
  next unsettled =>
    rw [log] at unsettled ⊢
    exact .fault (.unpersisted may role won unsettled rfl)
  next settled =>
    push Not at settled
    have id : (r.reset r.term).id = r.id := congrArg Core.id reset
    have tracked : ((r.reset r.term).prs.get (r.reset r.term).id).isSome =
        (r.core.positions r.id).isSome := by
      have same := congrFun (congrArg Core.positions reset) (r.reset r.term).id
      rw [id] at same ⊢
      simpa [core, Core.enter, Core.freshPositions] using congrArg Option.isSome same
    split
    next absent =>
      rw [absent] at tracked
      have unknown : r.core.positions r.id = none :=
        Option.isSome_eq_false_iff.1 tracked.symm |> Option.isNone_iff_eq_none.1
      exact .fault (.missingWinner may role won unknown rfl)
    next pr known =>
      rw [known] at tracked
      have lead : Act inp r.core r.core.asLeader :=
        .lead may role won (by rw [log] at settled; exact settled) tracked.symm
      have started := core_lead r (r.reset r.term).id
        { (r.reset r.term).uncommittedState with
          uncommittedSize := 0, lastLogTailIndex := (r.reset r.term).raftLog.lastIndex } known
            (by rw [log])
      rw [← log] at started
      refine .after (lead.acts_to started.symm)
        (.bind (does_appendEntry [{}] rfl ?_ (.inl may)) fun x steady => ?_)
      · intro e inside changes _
        obtain rfl := List.mem_singleton.1 inside
        exact absurd rfl changes
      obtain ⟨r', appended⟩ := x
      cases appended with
      | false => exact .fail not_false
      | true =>
          exact .pure .refl ⟨steady.state, steady.id.trans id,
            steady.term.trans (congrArg Core.term reset)⟩

theorem does_autoLeave (oldApplied applied : Nat) (given : inp (.applied applied))
    (reached : applied ≤ r.raftLog.applied) :
    Does inp r.core (r.autoLeave oldApplied applied) core (Steady r) := by
  unfold autoLeave
  split
  next leaves =>
    simp only [Bool.and_eq_true, decide_eq_true_eq] at leaves
    have free : r.pendingConfIndex ≤ r.raftLog.applied := leaves.1.2.trans reached
    unfold appendEntry
    split
    · exact .fail not_false
    next uncommittedState counted =>
      rw [bind_assoc]
      refine .read (r.raftLog.quiet_append _) fun log done => ?_
      refine .pure ((Act.leave leaves.2 free done ⟨applied, given⟩).acts_to ?_) ⟨rfl, rfl, rfl, rfl⟩
      have core : { r with uncommittedState, raftLog := log }.core = _ := core_append counted
      exact congrArg (fun c : Core => { c with pendingConfIndex := log.lastIndex }) core.symm
  next => exact .pure .refl .refl

theorem appliedTo_reached {log log' : RaftLog} {idx : Nat} (done : log.appliedTo idx = .ok log') :
    idx ≤ log'.applied := by
  unfold RaftLog.appliedTo at done
  split_ifs at done with zero
  · omega
  · obtain rfl := Except.ok.inj done
    exact le_rfl

theorem does_commitApply {applied : Nat} (given : inp (.applied applied)) :
    Does inp r.core (r.commitApply applied) core (Steady r) := by
  unfold commitApply commitApplyInternal
  simp only [Bool.false_eq_true, if_false]
  refine .read (r.raftLog.quiet_appliedTo applied) fun log done => ?_
  refine .after (Act.apply given done).acts ?_
  exact (does_autoLeave (r := { r with raftLog := log }) r.raftLog.applied applied given
    (appliedTo_reached done)).mono
    fun _ steady => ⟨steady.id, steady.term, steady.state, steady.reads⟩

theorem does_onPersistSnap {index : Nat} (reported : inp (.persistedSnap index)) :
    Does inp r.core (r.onPersistSnap index) core (Steady r) := by
  refine .read (r.raftLog.quiet_maybePersistSnap index) fun ⟨log, moved⟩ done => ?_
  exact .pure (Act.persistSnap reported done).acts ⟨rfl, rfl, rfl, rfl⟩

theorem maybePersist_false {log log' : RaftLog} {index term : Nat}
    (done : log.maybePersist index term = (log', false)) : log' = log := by
  unfold RaftLog.maybePersist at done
  simp only at done
  split_ifs at done
  · cases done
  · exact (Prod.mk.inj done).1.symm

theorem does_onPersistEntries {index term : Nat} (reported : inp (.persisted index term)) :
    Does inp r.core (r.onPersistEntries index term) core (Steady r) := by
  unfold onPersistEntries
  cases done : r.raftLog.maybePersist index term with
  | mk log moved =>
      cases moved with
      | false =>
          obtain rfl := maybePersist_false done
          simp only [Bool.false_and, Bool.false_eq_true, if_false]
          exact .pure .refl .refl
      | true =>
          have act : Act inp r.core _ := .persist reported done
          simp only [Bool.true_and, decide_eq_true_eq]
          split
          next role =>
            split
            next absent => exact .fault (.missingOwn role (core_positions_none absent) rfl)
            next pr known =>
              refine .read (pr.meets_maybeUpdate not_false index) fun ⟨pr', updated⟩ raised => ?_
              obtain ⟨-, -, rfl⟩ := Progress.maybeUpdate_ok.1 raised
              have counted : ({ r.core with log := log }.countOwn index) =
                  { r with raftLog := log, prs := r.prs.put r.id (pr.raised index) }.core := by
                have found : r.core.positions r.core.id = some pr.position := core_positions known
                have put : { r with raftLog := log, prs := r.prs.put r.id (pr.raised index) }.core = _ :=
                  core_put { r with raftLog := log } (by rw [known]; rfl)
                rw [put, coreWith, pr.raised_position]
                unfold Core.countOwn
                simp only [found]
                exact if_pos role
              refine .after (act.acts_to counted) ?_
              simp only
              split
              · refine (does_maybeCommit (r := { r with raftLog := log, prs := _ }) role).bind
                  fun x steady => ?_
                obtain ⟨r', committed⟩ := x
                have steady : Steady r r' := ⟨steady.id, steady.term, steady.state, steady.reads⟩
                simp only
                split
                · exact (does_bcastAppend (steady.state.trans role)).mono fun _ more => steady.trans more
                · exact .pure .refl steady
              · exact .pure .refl ⟨rfl, rfl, rfl, rfl⟩
          next role =>
            refine .pure (act.acts_to ?_) ⟨rfl, rfl, rfl, rfl⟩
            exact if_neg role

end Raft

end RaftRs

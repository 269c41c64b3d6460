import RaftRs.Track.Answer

namespace RaftRs

open Library

/-- The size of the data that a message proposes. -/
def Message.proposalSize (m : Message) : Nat := if m.msgType = .msgPropose then dataSize m.entries else 0

namespace Raft

variable {r r' : Raft} {largest id : Nat} {m : Message}

theorem tracks_marks {log : RaftLog} (marks : r.raftLog.Marks log)
    (sound : r.raftLog.Sound → log.Sound) :
    Tracks largest r { r with raftLog := log } :=
  tracks_same rfl rfl rfl rfl rfl fun before => ⟨marks.lengthens (sound before), marks.lastIndex⟩

theorem tracks_autoLeave (oldApplied applied : Nat) :
    Yields (r.autoLeave oldApplied applied) (Tracks largest r) := by
  unfold autoLeave
  split
  · refine Meets.bind (tracks_appendEntry largest.zero_le) fun ⟨r₁, fits⟩ appended => ?_
    have tracks : Tracks largest r r₁ := appended.1
    cases fits with
    | false => exact yields_error
    | true => exact tracks.trans (tracks_same rfl rfl rfl rfl rfl (same_log rfl))
  · exact Tracks.refl

theorem tracks_commitApply (applied : Nat) : Yields (r.commitApply applied) (Tracks largest r) := by
  unfold commitApply commitApplyInternal
  simp only [Bool.false_eq_true, if_false]
  refine .read fun log done => ?_
  have marked : Tracks largest r { r with raftLog := log } :=
    tracks_marks (RaftLog.marks_appliedTo done) fun sound => sound.appliedTo done
  exact (tracks_autoLeave r.raftLog.applied applied).mono fun _ more => marked.trans more

theorem tracks_onPersistSnap (index : Nat) : Yields (r.onPersistSnap index) (Tracks largest r) := by
  refine .read fun ⟨log, moved⟩ done => ?_
  exact tracks_marks (RaftLog.marks_maybePersistSnap done) fun sound => sound.maybePersistSnap done

theorem tracks_onPersistEntries (index term : Nat) :
    Yields (r.onPersistEntries index term) (Tracks largest r) := by
  unfold onPersistEntries
  cases done : r.raftLog.maybePersist index term with
  | mk log update =>
      have marked : Tracks largest r { r with raftLog := log } :=
        tracks_marks (RaftLog.marks_maybePersist done) fun sound => sound.maybePersist done
      simp only
      split
      · split
        · exact yields_error
        next pr known =>
          refine .read fun ⟨pr', moved⟩ raised => ?_
          have put : Tracks largest r { r with raftLog := log, prs := r.prs.put r.id pr' } :=
            marked.trans
              (tracks_put known (maybeUpdate_recentActive raised) fun _ other => absurd rfl other)
          split
          · refine Meets.bind tracks_maybeCommit fun x (more : Tracks largest _ x.1) => ?_
            have tracks := put.trans more
            split
            · exact tracks_bcastAppend.mono fun _ last => tracks.trans last
            · exact tracks
          · exact put
      · exact marked

/-- The activity marks after a message of a leader's own term: a response marks its tracked sender
and a check of the quorum clears the marks. -/
def activityAfter (r : Raft) (m : Message) : Nat → Option Bool :=
  if m.term = 0 ∨ m.term = r.term then
    match m.msgType with
    | .msgAppendResponse | .msgHeartbeatResponse =>
        if (r.prs.get m.fromId).isSome then Function.update r.activity m.fromId (some true)
          else r.activity
    | .msgCheckQuorum => r.clearedActivity
    | _ => r.activity
  else r.activity

/-- A response marks its sender as the activity says. -/
theorem heeds_activityAfter
    (response : m.msgType = .msgAppendResponse ∨ m.msgType = .msgHeartbeatResponse)
    (current : m.term = 0 ∨ m.term = r.term)
    (heeds : (r.prs.get m.fromId = none ∧ r' = r) ∨
      ((r.prs.get m.fromId).isSome ∧ Heeds largest m.fromId r r')) :
    Tends largest r r' ∧ r'.activity = r.activityAfter m := by
  have after : r.activityAfter m = if (r.prs.get m.fromId).isSome then
      Function.update r.activity m.fromId (some true) else r.activity := by
    unfold activityAfter
    rw [if_pos current]
    rcases response with kind | kind <;> rw [kind]
  rw [after]
  rcases heeds with ⟨absent, rfl⟩ | ⟨tracked, heeds⟩
  · rw [absent]
    exact ⟨Tracks.refl.toTends, rfl⟩
  · rw [if_pos tracked]
    exact ⟨heeds.toTends, heeds.activity⟩

/-- Other messages leave the activity marks alone. -/
theorem activityAfter_other (append : m.msgType ≠ .msgAppendResponse)
    (heartbeat : m.msgType ≠ .msgHeartbeatResponse) (check : m.msgType ≠ .msgCheckQuorum) :
    r.activityAfter m = r.activity := by
  unfold activityAfter
  split
  · split
    next kind => exact absurd kind append
    next kind => exact absurd kind heartbeat
    next kind => exact absurd kind check
    next => rfl
  · rfl

/-- A message of an unknown sender leaves the activity marks alone. -/
theorem activityAfter_unknown (absent : r.prs.get m.fromId = none)
    (check : m.msgType ≠ .msgCheckQuorum) :
    r.activityAfter m = r.activity := by
  unfold activityAfter
  rw [absent]
  split
  · split
    next => rfl
    next => rfl
    next kind => exact absurd kind check
    next => rfl
  · rfl

/-- A leader that still leads after a message of its term tends its peers and marks their
activity. -/
theorem tends_stepLeader [ConfChangeCodec] (current : m.term = 0 ∨ m.term = r.term) :
    Yields (r.stepLeader m) fun x => x.1.state = .leader →
      Tends (m.proposalSize) r x.1 ∧ x.1.activity = r.activityAfter m := by
  have tracked : ∀ {r'}, Tracks (m.proposalSize) r r' → m.msgType ≠ .msgAppendResponse →
      m.msgType ≠ .msgHeartbeatResponse → m.msgType ≠ .msgCheckQuorum →
      Tends (m.proposalSize) r r' ∧ r'.activity = r.activityAfter m :=
        fun tracks append heartbeat check =>
    ⟨tracks.toTends, tracks.activity.trans (activityAfter_other append heartbeat check).symm⟩
  unfold stepLeader
  split
  next kind =>
    exact (tracks_bcastHeartbeatWithCtx _).bind fun _ tracks _ =>
      tracked tracks (by rw [kind]; nofun) (by rw [kind]; nofun) (by rw [kind]; nofun)
  next kind =>
    have after : r.activityAfter m = r.clearedActivity := by
      unfold activityAfter
      rw [if_pos current, kind]
    split
    next r₁ checked =>
      intro _
      have cleared : Tends (m.proposalSize) r r.checkQuorumActive.1 ∧ _ := tends_checkQuorumActive
      rw [checked] at cleared
      exact ⟨cleared.1, cleared.2.trans after.symm⟩
    next r₁ checked =>
      intro lead
      cases lead
  next kind =>
    have size : m.proposalSize = dataSize m.entries := if_pos kind
    exact tracks_handlePropose.mono fun _ tracks _ =>
      tracked (size ▸ tracks) (by rw [kind]; nofun) (by rw [kind]; nofun) (by rw [kind]; nofun)
  next kind =>
    exact tracks_handleReadIndex.bind fun _ tracks _ =>
      tracked tracks (by rw [kind]; nofun) (by rw [kind]; nofun) (by rw [kind]; nofun)
  next kind =>
    exact heeds_handleAppendResponse.bind fun _ heeds _ => heeds_activityAfter (.inl kind) current heeds
  next kind =>
    exact heeds_handleHeartbeatResponse.bind fun _ heeds _ => heeds_activityAfter (.inr kind)
      current heeds
  next kind =>
    exact fun _ => tracked tracks_handleSnapshotStatus (by rw [kind]; nofun) (by rw [kind]; nofun)
      (by rw [kind]; nofun)
  next kind =>
    exact fun _ => tracked tracks_handleUnreachable (by rw [kind]; nofun) (by rw [kind]; nofun)
      (by rw [kind]; nofun)
  next kind =>
    exact tracks_handleTransferLeader.bind fun _ tracks _ =>
      tracked tracks (by rw [kind]; nofun) (by rw [kind]; nofun) (by rw [kind]; nofun)
  next beat check propose read append heartbeat snap unreachable transfer =>
    exact fun _ => tracked .refl append heartbeat check

/-- The activity marks after changes of the tracked nodes: an added node is marked and a removed one
is forgotten. -/
def changedActivity (changes : MapChange) (activity : Nat → Option Bool) : Nat → Option Bool :=
  changes.foldl (fun activity change => Function.update activity change.1 (match change.2 with
    | .add => some true
    | .remove => none)) activity

/-- Installed changes mark the added nodes, which start in order. -/
theorem applyConf_peers (prs : ProgressTracker) (conf : Configuration) (changes : MapChange)
    (nextIdx : Nat) :
    (fun id => ((prs.applyConf conf changes nextIdx).get id).map Progress.recentActive) =
        changedActivity changes (fun id => (prs.get id).map Progress.recentActive) ∧
      (1 ≤ nextIdx → ∀ id pr, (prs.applyConf conf changes nextIdx).get id = some pr →
        prs.get id = some pr ∨ pr.Flow) := by
  unfold ProgressTracker.applyConf changedActivity
  have start : ∀ id, ({ prs with conf } : ProgressTracker).get id = prs.get id := fun _ => rfl
  simp only [← start]
  generalize { prs with conf } = prs
  induction changes generalizing prs with
  | nil => exact ⟨rfl, fun _ _ _ known => .inl known⟩
  | cons change rest ih =>
      rw [List.foldl_cons, List.foldl_cons]
      obtain ⟨id, kind⟩ := change
      cases kind with
      | add =>
          obtain ⟨marks, peers⟩ := ih
            { prs with
              progress := prs.progress.insert id { Progress.new nextIdx prs.maxInflight with
                recentActive := true } }
          refine ⟨marks.trans ?_, fun positive other pr known => ?_⟩
          · congr 1
            funext other
            simp only [ProgressTracker.get, KeyMap.get?_insert, Function.update_apply]
            split <;> rfl
          · rcases peers positive other pr known with old | flow
            · simp only [ProgressTracker.get, KeyMap.get?_insert] at old
              split at old
              · exact .inr (Option.some.inj old ▸ Progress.flow_new positive _ true)
              · exact .inl old
            · exact .inr flow
      | remove =>
          obtain ⟨marks, peers⟩ := ih { prs with progress := prs.progress.remove id }
          refine ⟨marks.trans ?_, fun positive other pr known => ?_⟩
          · congr 1
            funext other
            simp only [ProgressTracker.get, KeyMap.get?_remove, Function.update_apply]
            split <;> rfl
          · rcases peers positive other pr known with old | flow
            · simp only [ProgressTracker.get, KeyMap.get?_remove] at old
              split at old
              · cases old
              · exact .inl old
            · exact .inr flow

theorem tracks_postConfChange : Yields r.postConfChange fun x => Tracks largest r x.1 := by
  have voter : Tracks largest r { r with promotable := r.prs.conf.voters.contains r.id } :=
    tracks_same rfl rfl rfl rfl rfl (same_log rfl)
  unfold postConfChange
  simp only
  split
  · exact voter
  split
  · exact voter
  refine Meets.bind tracks_maybeCommit fun x (more : Tracks largest _ x.1) => ?_
  obtain ⟨r₁, committed⟩ := x
  have tracks : Tracks largest r r₁ := voter.trans more
  simp only
  have follow : Yields (if committed then r₁.bcastAppend else r₁.probePeers) (Tracks largest r) := by
    split
    · exact tracks_bcastAppend.mono fun _ last => tracks.trans last
    · exact tracks_probePeers.mono fun _ last => tracks.trans last
  refine follow.bind fun r₂ tracks => ?_
  refine Meets.bind (?_ : Yields _ (Tracks largest r)) fun r₃ tracks => ?_
  · split
    · exact (tracks_advanceReads ..).mono fun _ last => tracks.trans last
    · exact tracks
  split
  · split
    · exact tracks
    · exact tracks.trans (tracks_same rfl rfl rfl rfl rfl (same_log rfl))
  · exact tracks

/-- The changes of the tracked nodes that an applied configuration change makes. -/
def mapChange (r : Raft) (cc : ConfChangeV2) : MapChange :=
  match cc.membershipChange.run r.prs with
  | .ok (_, changes) => changes
  | .error _ => []

/-- A leader that applies a configuration change tends its peers and marks the added ones. -/
theorem tends_applyConfChange (cc : ConfChangeV2) :
    Yields (r.applyConfChange cc) fun x => Tends largest r x.1 ∧
      x.1.activity = changedActivity (r.mapChange cc) r.activity := by
  rw [applyConfChange_eq]
  unfold mapChange
  split
  next error failed =>
    rw [failed]
    exact ⟨Tracks.refl.toTends, rfl⟩
  next cfg changes done =>
    rw [done]
    obtain ⟨marks, peers⟩ := applyConf_peers r.prs cfg changes r.raftLog.lastIndex
    have installed : Tends largest r { r with
        prs := r.prs.applyConf cfg changes r.raftLog.lastIndex } := by
      refine tends_of rfl rfl rfl rfl (same_log rfl) fun _ flows id pr other known => ?_
      rcases peers flows.started id pr known with old | flow
      · exact flows.peers id pr other old
      · exact flow
    refine Meets.bind tracks_postConfChange fun x (tracks : Tracks largest _ x.1) => ?_
    exact ⟨installed.trans tracks.toTends, tracks.activity.trans marks⟩

end Raft

end RaftRs

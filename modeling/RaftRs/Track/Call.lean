import RaftRs.Act.Turn
import RaftRs.Track.Elect

namespace RaftRs

open Library

/-- Without an election a node does not start to lead. -/
theorem Acts.not_leader {inp : Input → Prop} {c c' : Core} (none : ¬ inp .election)
    (acts : Acts inp c c') (role : c.state ≠ .leader) : c'.state ≠ .leader := by
  induction acts with
  | refl => exact role
  | tail _ act ih =>
      obtain ⟨-, -, turns⟩ := act.turns
      cases turns with
      | keep state | grant _ _ _ state | count state => exact state ▸ ih
      | follow state => rw [state]; nofun
      | preCampaign may => exact absurd may none
      | campaign may => exact absurd may none
      | lead may => exact absurd may none

namespace Raft

variable {r r' : Raft} {largest id : Nat} {m : Message}

theorem maybeCommitByVote_of_leader (role : r.state = .leader) : r.maybeCommitByVote m = .ok r := by
  unfold maybeCommitByVote
  simp [role]

theorem tracks_handleVoteRequest (role : r.state = .leader) :
    Yields (r.handleVoteRequest m) (Tracks largest r) := by
  unfold handleVoteRequest
  refine .read fun upToDate _ => ?_
  split
  · refine tracks_send.bind fun r₁ (sent : Tracks largest r r₁) => ?_
    split
    · exact sent.trans (tracks_same rfl rfl rfl rfl rfl (same_log rfl))
    · exact sent
  · refine .read fun ⟨commit, commitTerm⟩ _ => ?_
    refine tracks_send.bind fun r₁ (sent : Tracks largest r r₁) => ?_
    rw [maybeCommitByVote_of_leader (sent.state.trans role)]
    exact sent

/-- What a node does with the term of a message: it goes on, it stops, or it follows in the later
term. -/
theorem handleTerm_cases (largest : Nat) : Yields (r.handleTerm m) fun x =>
    (x = (r, true) ∧ r.Accepts m) ∨ (x.2 = false ∧ Tracks largest r x.1 ∧ m.term ≠ 0 ∧ m.term ≠ r.term) ∨
      ∃ leaderId, x = (r.becomeFollower m.term leaderId, true) ∧ r.term < m.term := by
  unfold handleTerm
  split
  next zero => exact .inl ⟨rfl, .inr (.inl zero)⟩
  next nonzero =>
    split
    next later =>
      simp only
      split
      · exact .inr (.inl ⟨rfl, .refl, nonzero, later.ne'⟩)
      split
      next preVote =>
        refine .inl ⟨rfl, .inr (.inr ⟨?_, later⟩)⟩
        rcases preVote with kind | ⟨kind, -⟩
        · exact .inl kind
        · exact .inr kind
      split
      · exact .inr (.inr ⟨_, rfl, later⟩)
      · exact .inr (.inr ⟨_, rfl, later⟩)
    next =>
      split
      next earlier =>
        split
        · exact tracks_send.bind fun r₁ sent => .inr (.inl ⟨rfl, sent, nonzero, earlier.ne⟩)
        split
        · exact tracks_send.bind fun r₁ sent => .inr (.inl ⟨rfl, sent, nonzero, earlier.ne⟩)
        · exact .inr (.inl ⟨rfl, .refl, nonzero, earlier.ne⟩)
      next => exact .inl ⟨rfl, .inl (by omega)⟩

variable [ConfChangeCodec]

/-- A message that starts no campaign makes no leader. -/
theorem dispatch_quiet (role : r.state ≠ .leader) (quiet : ¬ m.Elects)
    (untermed : isLocalMsg m.msgType = true → m.term = 0) (accepts : r.Accepts m) :
    Yields (r.dispatch m) fun x => x.1.state ≠ .leader := by
  have gives : r.Gives (fun input => input ≠ .election) m :=
    { message := fun _ => nofun
      untermed := untermed
      elects := fun elects => absurd elects quiet
      hup := fun kind => absurd (.inl kind) quiet
      started := fun _ _ => nofun
      leader := fun _ _ _ _ _ => nofun }
  exact (does_dispatch gives accepts).yields.mono fun x done => done.1.not_leader
    (fun same => same rfl) role

omit [ConfChangeCodec] in
theorem wins_stepCandidate (role : r.state ≠ .leader)
    (kind : m.msgType = .msgTimeoutNow ∨ m.IsVoteResponse) :
    Yields (r.stepCandidate m) fun x => Wins r x.1 := by
  unfold stepCandidate
  rcases kind with kind | kind | kind
  · simp only [kind]
    exact wins_of_not_leader role
  · simp only [kind]
    exact (wins_handleVoteResponse role).bind fun _ wins => wins
  · simp only [kind]
    exact (wins_handleVoteResponse role).bind fun _ wins => wins

omit [ConfChangeCodec] in
theorem wins_stepFollower (role : r.state ≠ .leader)
    (kind : m.msgType = .msgTimeoutNow ∨ m.IsVoteResponse) :
    Yields (r.stepFollower m) fun x => Wins r x.1 := by
  unfold stepFollower
  rcases kind with kind | kind | kind
  · simp only [kind]
    split
    · exact (wins_hup role true).bind fun _ wins => wins
    · exact wins_of_not_leader role
  · simp only [kind]
    exact wins_of_not_leader role
  · simp only [kind]
    exact wins_of_not_leader role

theorem wins_dispatch (role : r.state ≠ .leader) (untermed : isLocalMsg m.msgType = true → m.term = 0)
    (accepts : r.Accepts m) : Yields (r.dispatch m) fun x => Wins r x.1 := by
  by_cases elects : m.Elects
  · unfold dispatch
    split
    next => exact (wins_hup role false).bind fun _ wins => wins
    next kind => simp [Message.Elects, Message.IsVoteResponse, kind] at elects
    next kind => simp [Message.Elects, Message.IsVoteResponse, kind] at elects
    next hup _ _ =>
      have kind := elects.resolve_left hup
      split
      next => exact wins_stepCandidate role kind
      next => exact wins_stepCandidate role kind
      next => exact wins_stepFollower role kind
      next lead => exact absurd lead role
  · exact (dispatch_quiet role elects untermed accepts).mono fun _ other => wins_of_not_leader other

/-- A node that leads in the end has kept the lead of its term with given activity marks, or has
just been elected. -/
def Leads (largest : Nat) (activity : Nat → Option Bool) (r r' : Raft) : Prop :=
  r.raftLog.Sound → r'.state = .leader →
    (r.state = .leader ∧ Tends largest r r' ∧ r'.activity = activity) ∨
      (r'.Elected ∧ r.raftLog.lastIndex ≤ r'.uncommittedState.lastLogTailIndex ∧
        (r.state = .leader → r.term < r'.term))

omit [ConfChangeCodec] in
theorem leads_of_tracks (tracks : Tracks largest r r') : Leads largest r.activity r r' := fun _ lead =>
  .inl ⟨tracks.state.symm.trans lead, tracks.toTends, tracks.activity⟩

omit [ConfChangeCodec] in
theorem leads_of_not_leader {activity : Nat → Option Bool} (role : r'.state ≠ .leader) :
    Leads largest activity r r' := fun _ lead => absurd lead role

omit [ConfChangeCodec] in
theorem leads_of_wins {activity : Nat → Option Bool} (role : r.state ≠ .leader) (wins : Wins r r') :
    Leads largest activity r r' := by
  intro sound lead
  obtain ⟨elected, -, whole⟩ := wins sound lead
  exact .inr ⟨elected, whole, fun leader => absurd leader role⟩

theorem leads_dispatch (role : r.state = .leader) (accepts : r.Accepts m) :
    Yields (r.dispatch m) fun x => Leads m.proposalSize (r.activityAfter m) r x.1 := by
  have other : m.msgType = .msgHup ∨ m.IsVoteRequest ∨ m.msgType = .msgRequestPreVoteResponse →
      r.activityAfter m = r.activity := by
    rintro (kind | (kind | kind) | kind) <;>
      exact activityAfter_other (by rw [kind]; nofun) (by rw [kind]; nofun) (by rw [kind]; nofun)
  unfold dispatch
  split
  next kind =>
    rw [other (.inl kind)]
    unfold hup
    rw [if_pos role]
    exact leads_of_tracks .refl
  next kind =>
    rw [other (.inr (.inl (.inl kind)))]
    exact (tracks_handleVoteRequest role).bind fun _ tracks => leads_of_tracks tracks
  next kind =>
    rw [other (.inr (.inl (.inr kind)))]
    exact (tracks_handleVoteRequest role).bind fun _ tracks => leads_of_tracks tracks
  next hup vote preVote =>
    rw [role]
    simp only
    rcases accepts with current | zero | ⟨kind | kind, -⟩
    · exact (tends_stepLeader (.inr current)).mono fun _ tends _ lead => .inl ⟨role, tends lead⟩
    · exact (tends_stepLeader (.inl zero)).mono fun _ tends _ lead => .inl ⟨role, tends lead⟩
    · exact absurd kind preVote
    · rw [other (.inr (.inr kind))]
      unfold stepLeader
      simp only [kind]
      exact leads_of_tracks .refl

theorem leads_step (untermed : isLocalMsg m.msgType = true → m.term = 0) :
    Yields (r.step m) fun x => Leads m.proposalSize (r.activityAfter m) r x.1 := by
  unfold step
  refine Meets.bind (handleTerm_cases m.proposalSize) fun ⟨r₁, goesOn⟩ cases => ?_
  rcases cases with ⟨same, accepts⟩ | ⟨stops, tracks, nonzero, different⟩ | ⟨leaderId, same, later⟩
  · obtain ⟨rfl, rfl⟩ := Prod.mk.inj same
    by_cases role : r₁.state = .leader
    · exact leads_dispatch role accepts
    · exact (wins_dispatch role untermed accepts).mono fun _ wins => leads_of_wins role wins
  · cases stops
    have after : r.activityAfter m = r.activity := if_neg (by push Not; exact ⟨nonzero, different⟩)
    rw [after]
    exact leads_of_tracks tracks
  · obtain ⟨rfl, rfl⟩ := Prod.mk.inj same
    have core := r.core_becomeFollower m.term leaderId
    have term : (r.becomeFollower m.term leaderId).term = m.term := congrArg Core.term core
    have log : (r.becomeFollower m.term leaderId).raftLog = { r.raftLog with
        maxApplyUnpersistedLogLimit := 0 } :=
      congrArg Core.log core
    have follower : (r.becomeFollower m.term leaderId).state ≠ .leader := nofun
    refine (wins_dispatch follower untermed (.inl term.symm)).mono fun x wins sound lead => ?_
    obtain ⟨elected, grown, whole⟩ := wins (by
      rw [log]
      exact sound.mark r.raftLog.persisted r.raftLog.applied 0 _ _) lead
    rw [log] at whole
    exact .inr ⟨elected, whole, fun _ => by omega⟩

/-- A leader steps its own messages by its role. -/
theorem step_own (role : r.state = .leader) (zero : m.term = 0) (hup : m.msgType ≠ .msgHup)
    (vote : m.msgType ≠ .msgRequestVote) (preVote : m.msgType ≠ .msgRequestPreVote) :
    r.step m = r.stepLeader m := by
  unfold step handleTerm
  rw [if_pos zero, ok_bind]
  show r.dispatch m = r.stepLeader m
  unfold dispatch
  split
  next kind => exact absurd kind hup
  next kind => exact absurd kind vote
  next kind => exact absurd kind preVote
  next => rw [role]

/-- The activity marks after a tick of a leader: they are cleared when its quorum is checked. -/
def tickActivity (r : Raft) : Nat → Option Bool :=
  if r.electionTimeout ≤ r.electionElapsed + 1 ∧ r.checkQuorum = true then r.clearedActivity
    else r.activity

/-- A leader that keeps the lead at its election timeout tends its peers. -/
theorem tends_tickQuorum (role : r.state = .leader) :
    Yields r.tickQuorum fun x => x.1.state = .leader → Tends 0 r x.1 ∧ x.1.activity =
      if r.electionTimeout ≤ r.electionElapsed ∧ r.checkQuorum = true then r.clearedActivity
        else r.activity := by
  unfold tickQuorum
  split
  next due =>
    have elapsed : Tracks 0 r { r with electionElapsed := 0 } :=
      tracks_same rfl rfl rfl rfl rfl (same_log rfl)
    refine Meets.bind (?_ : Yields _ fun x => x.1.state = .leader → Tends 0 r x.1 ∧ x.1.activity =
        if r.checkQuorum = true then r.clearedActivity else r.activity) fun x tends => ?_
    · split
      next enabled =>
        rw [step_own (r := { r with electionElapsed := 0 }) role rfl (fun kind => by cases kind)
          (fun kind => by cases kind) (fun kind => by cases kind)]
        refine (tends_stepLeader (.inl rfl)).bind fun x tends lead => ?_
        obtain ⟨tends, activity⟩ := tends lead
        exact ⟨elapsed.toTends.trans tends, activity⟩
      next disabled => exact fun _ => ⟨elapsed.toTends, rfl⟩
    obtain ⟨r₁, hasReady⟩ := x
    have after : (if r.electionTimeout ≤ r.electionElapsed ∧ r.checkQuorum = true then r.clearedActivity
        else r.activity) = if r.checkQuorum = true then r.clearedActivity else r.activity := by
      simp only [show r.electionTimeout ≤ r.electionElapsed from due, true_and]
    rw [after]
    simp only
    split
    next transferring =>
      intro _
      obtain ⟨tends, activity⟩ := tends transferring.1
      have aborted : Tracks 0 r₁ r₁.abortLeaderTransfer := tracks_same rfl rfl rfl rfl rfl (same_log rfl)
      exact ⟨tends.trans aborted.toTends, aborted.activity.trans activity⟩
    next => exact tends
  next early =>
    intro _
    rw [if_neg (fun both => early both.1)]
    exact ⟨Tracks.refl.toTends, rfl⟩

/-- A tick of a leader that keeps the lead tends its peers. -/
theorem tends_tickHeartbeat (role : r.state = .leader) :
    Yields r.tickHeartbeat fun x => x.1.state = .leader → Tends 0 r x.1 ∧
      x.1.activity = r.tickActivity := by
  unfold tickHeartbeat
  have elapsed : Tracks 0 r { r with
      heartbeatElapsed := r.heartbeatElapsed + 1, electionElapsed := r.electionElapsed + 1 } :=
    tracks_same rfl rfl rfl rfl rfl (same_log rfl)
  refine Meets.bind (tends_tickQuorum role) fun ⟨r₁, hasReady⟩ tends => ?_
  have tends : r₁.state = .leader → Tends 0 r r₁ ∧ r₁.activity = r.tickActivity := fun lead =>
    ⟨elapsed.toTends.trans (tends lead).1, (tends lead).2⟩
  simp only
  split
  next other => exact fun lead => absurd lead other
  next lead =>
    have lead : r₁.state = .leader := by simpa using lead
    obtain ⟨tends, activity⟩ := tends lead
    split
    · rw [step_own (r := { r₁ with heartbeatElapsed := 0 }) lead rfl (fun kind => by cases kind)
        (fun kind => by cases kind) (fun kind => by cases kind)]
      have beaten : Tracks 0 r₁ { r₁ with heartbeatElapsed := 0 } :=
        tracks_same rfl rfl rfl rfl rfl (same_log rfl)
      refine (tends_stepLeader (.inl rfl)).bind fun x more lead => ?_
      obtain ⟨more, marks⟩ := more lead
      exact ⟨tends.trans (beaten.toTends.trans more), marks.trans activity⟩
    · exact fun _ => ⟨tends, activity⟩

theorem leads_tick : Yields r.tick fun x => Leads 0 r.tickActivity r x.1 := by
  by_cases role : r.state = .leader
  · unfold tick
    rw [role]
    exact (tends_tickHeartbeat role).mono fun _ tends _ lead => .inl ⟨role, tends lead⟩
  · have election : r.tick = r.tickElection := by
      unfold tick
      cases state : r.state with
      | leader => exact absurd state role
      | follower | candidate | preCandidate => rfl
    rw [election]
    unfold tickElection
    simp only
    split
    · exact leads_of_not_leader role
    · refine Meets.bind (leads_step fun _ => rfl) fun x leads sound lead => ?_
      rcases leads sound lead with ⟨leader, -⟩ | ⟨elected, whole, -⟩
      · exact absurd leader role
      · exact .inr ⟨elected, whole, fun leader => absurd leader role⟩

end Raft

end RaftRs

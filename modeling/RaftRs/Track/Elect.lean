import RaftRs.Track.Lead

namespace RaftRs

open Library

namespace Raft

variable {r r' : Raft} {largest id : Nat} {m : Message}

/-- A leader has just been elected: no peer is marked as active, all of them are in order and
nothing of its term is counted but what it appended. -/
structure Elected (r : Raft) : Prop where
  idle : ∀ id, r.activity id ≠ some true
  sound : r.raftLog.Sound
  flows : r.Flows
  low : r.raftLog.firstIndex ≤ r.uncommittedState.lastLogTailIndex + 1
  high : r.uncommittedState.lastLogTailIndex ≤ r.raftLog.lastIndex
  counted : r.uncommittedState.isNoLimit = false → r.uncommittedState.uncommittedSize =
    dataSize (r.raftLog.range (r.uncommittedState.lastLogTailIndex + 1) (r.raftLog.lastIndex + 1))
  bound : r.uncommittedState.uncommittedSize ≤ r.uncommittedState.maxUncommittedSize

theorem Elected.tracks (elected : r.Elected) (tracks : Tracks 0 r r') : r'.Elected := by
  have longer := tracks.log elected.sound
  have last := longer.last
  have high := elected.high
  refine ⟨fun id => ?_, longer.sound, tracks.flow elected.sound elected.flows, ?_, ?_,
    fun limited => ?_, ?_⟩
  · rw [tracks.activity]
    exact elected.idle id
  · rw [longer.first, tracks.tail]
    exact elected.low
  · rw [tracks.tail]
    exact high.trans last
  · have limited : r.uncommittedState.isNoLimit = false := tracks.isNoLimit.symm.trans limited
    have kept : r'.raftLog.range (r.uncommittedState.lastLogTailIndex + 1)
        (r.raftLog.lastIndex + 1) = _ :=
      RaftLog.range_congr fun i _ inside => longer.entryAt i (Nat.le_of_lt_succ inside)
    rw [tracks.size elected.sound limited, elected.counted limited,
      tracks.tail, ← kept, ← dataSize_append, RaftLog.range_append _ (by omega) (by omega)]
  · have bound := tracks.bound
    have before := elected.bound
    rw [tracks.limit]
    omega

/-- The progress of a node after a role change. -/
theorem get_reset (r : Raft) (term id : Nat) :
    (r.reset term).prs.get id = (r.prs.get id).map fun pr =>
      if id = r.id then
        { pr.reset (r.raftLog.lastIndex + 1) with
          matched := r.raftLog.persisted, committedIndex := r.raftLog.committed }
      else pr.reset (r.raftLog.lastIndex + 1) := by
  unfold reset resetProgress
  by_cases same : r.term = term
  · simp only [same, ne_eq, not_true_eq_false, if_false]
    exact r.prs.progress.get?_mapValues _ id
  · simp only [ne_eq, same, not_false_eq_true, if_true]
    exact r.prs.progress.get?_mapValues _ id

theorem reset_put {term : Nat} {pr pr' : Progress}
    (known : (r.reset term).prs.get (r.reset term).id = some pr)
    (found : ((r.reset term).prs.put (r.reset term).id pr.becomeReplicate).get id = some pr') :
    pr'.recentActive = false ∧ (id ≠ (r.reset term).id → pr'.Flow) := by
  rw [get_put] at found
  split at found
  next same =>
    subst same
    rw [known] at found
    obtain rfl := Option.some.inj found
    rw [get_reset] at known
    obtain ⟨old, -, rfl⟩ := Option.map_eq_some_iff.1 known
    refine ⟨?_, fun other => absurd rfl other⟩
    split <;> rfl
  next other =>
    have same : (r.reset term).id = r.id := congrArg Core.id (r.core_reset term)
    rw [get_reset] at found
    obtain ⟨old, -, rfl⟩ := Option.map_eq_some_iff.1 found
    rw [if_neg (same ▸ other)]
    exact ⟨rfl, fun _ => Progress.flow_reset (Nat.succ_pos _)⟩

/-- A winner starts in order. -/
theorem elected_becomeLeader :
    Yields r.becomeLeader fun r' => r'.term = r.term ∧
      r'.uncommittedState.lastLogTailIndex = r.raftLog.lastIndex ∧ (r.raftLog.Sound → r'.Elected) := by
  have reset := r.core_reset r.term
  have log : (r.reset r.term).raftLog = r.raftLog := congrArg Core.log reset
  have same : (r.reset r.term).id = r.id := congrArg Core.id reset
  have term : (r.reset r.term).term = r.term := congrArg Core.term reset
  unfold becomeLeader
  split
  · exact yields_error
  simp only
  split
  · exact yields_error
  split
  · exact yields_error
  next pr known =>
    refine Meets.bind (tracks_appendEntry (Nat.zero_le 0)) fun ⟨r₁, fits⟩ appended => ?_
    cases fits with
    | false => exact yields_error
    | true =>
        obtain ⟨tracks, prs, last⟩ := appended
        have tracks : Tracks 0 _ r₁ := tracks
        refine ⟨tracks.term.trans term, tracks.tail.trans (by rw [log]), fun sound => ?_⟩
        have before : (r.reset r.term).raftLog.Sound := log ▸ sound
        have last : r₁.raftLog.lastIndex = (r.reset r.term).raftLog.lastIndex + 1 := last rfl before
        have longer := tracks.log before
        have tail : r₁.uncommittedState.lastLogTailIndex = (r.reset r.term).raftLog.lastIndex :=
          tracks.tail
        have wf := before.wf
        have low := wf.low
        have high := wf.high
        refine ⟨fun id marked => ?_, longer.sound, ⟨by omega, fun id pr' other found => ?_⟩,
          ?_, by omega,
          fun limited => ?_, ?_⟩
        · obtain ⟨pr', found, active⟩ := Option.map_eq_some_iff.1 marked
          rw [prs] at found
          exact absurd active (by rw [(reset_put known found).1]; nofun)
        · rw [prs] at found
          exact (reset_put known found).2 (by rw [← tracks.id]; exact other)
        · rw [longer.first, tail]
          exact low.trans (Nat.succ_le_succ high)
        · rw [tail, tracks.size before (tracks.isNoLimit.symm.trans limited)]
          exact Nat.zero_add _
        · have bound : r₁.uncommittedState.uncommittedSize ≤ max 0 (max _ 0) := tracks.bound
          rw [tracks.limit]
          omega

/-- A node that leads in the end has just been elected, in no earlier term and with all its
entries. -/
def Wins (r r' : Raft) : Prop :=
  r.raftLog.Sound → r'.state = .leader →
    r'.Elected ∧ r.term ≤ r'.term ∧ r.raftLog.lastIndex ≤ r'.uncommittedState.lastLogTailIndex

theorem wins_of_not_leader (role : r'.state ≠ .leader) : Wins r r' := fun _ lead => absurd lead role

/-- A win after a preparation that keeps the log sound. -/
theorem Wins.after {r₁ : Raft} (wins : Wins r₁ r') (log : r.raftLog.Sound → r₁.raftLog.Sound)
    (last : r.raftLog.lastIndex ≤ r₁.raftLog.lastIndex) (term : r.term ≤ r₁.term) : Wins r r' := by
  intro sound lead
  obtain ⟨elected, later, whole⟩ := wins (log sound) lead
  exact ⟨elected, term.trans later, last.trans whole⟩

theorem wins_pollWith {preWon : Raft → Except Fatal Raft} {fromId : Nat} {vote : Bool}
    (role : r.state ≠ .leader) (pre : ∀ r', r'.state = .preCandidate → Yields (preWon r') (Wins r')) :
    Yields (r.pollWith preWon fromId vote) fun x => Wins r x.1 ∧ (x.2 ≠ .won → x.1.state ≠ .leader) := by
  unfold pollWith
  simp only
  split
  · split
    next preCandidate =>
      refine (pre { r with prs := r.prs.recordVote fromId vote } preCandidate).bind fun r' wins => ?_
      exact ⟨wins.after (fun sound => sound) le_rfl le_rfl, fun lost => absurd rfl lost⟩
    next =>
      refine elected_becomeLeader.bind fun r₁ ⟨term, tail, elected⟩ => ?_
      refine tracks_bcastAppend.bind fun r₂ (tracks : Tracks 0 r₁ r₂) => ⟨fun sound _ => ?_,
        fun lost => absurd rfl lost⟩
      exact ⟨(elected sound).tracks tracks, (tracks.term.trans term).ge, (tracks.tail.trans tail).ge⟩
  · have follows :
        (becomeFollower { r with prs := r.prs.recordVote fromId vote } r.term invalidId).state ≠
          .leader := nofun
    exact ⟨wins_of_not_leader follows, fun _ => follows⟩
  · exact ⟨wins_of_not_leader role, fun _ => role⟩

/-- Vote requests track. -/
theorem tracks_sendVoteRequests (voteMsg : MessageType) (term : Nat) (context : Bytes) :
    Yields (r.sendVoteRequests voteMsg term context) (Tracks largest r) := by
  unfold sendVoteRequests
  refine .read fun ⟨commit, commitTerm⟩ _ => tracks_foldlM _ fun r' id => ?_
  exact .read fun lastTerm _ => tracks_send

theorem wins_campaignElection (campaignType : CampaignType) :
    Yields (r.campaignElection campaignType) (Wins r) := by
  unfold campaignElection
  refine .read fun r₁ started => ?_
  obtain ⟨-, core, -, role⟩ := core_becomeCandidate started
  have log : r₁.raftLog = r.raftLog := congrArg Core.log core
  have term : r₁.term = r.term + 1 := congrArg Core.term core
  have candidate : r₁.state ≠ .leader := by
    rw [role]
    nofun
  refine (wins_pollWith candidate fun _ _ => yields_error).bind fun ⟨r₂, result⟩ ⟨wins, lost⟩ => ?_
  split
  next same =>
    obtain ⟨rfl, -⟩ := Prod.mk.inj same
    exact wins.after (fun sound => log ▸ sound) (by rw [log]) (by omega)
  next other same =>
    obtain ⟨rfl, rfl⟩ := Prod.mk.inj same
    refine (tracks_sendVoteRequests ..).mono fun r₃ (tracks : Tracks 0 r₂ r₃) => wins_of_not_leader ?_
    rw [tracks.state]
    exact lost other

theorem wins_campaign (campaignType : CampaignType) : Yields (r.campaign campaignType) (Wins r) := by
  unfold campaign
  split
  · refine .read fun r₁ started => ?_
    unfold becomePreCandidate at started
    split at started
    · cases started
    obtain rfl := Except.ok.inj started
    simp only
    refine .read fun term _ => ?_
    have role : { r with
        state := .preCandidate, prs := r.prs.resetVotes, leaderId := invalidId }.state ≠ .leader := nofun
    refine (wins_pollWith role fun _ _ => wins_campaignElection _).bind
      fun ⟨r₂, result⟩ ⟨wins, lost⟩ => ?_
    split
    next same =>
      obtain ⟨rfl, -⟩ := Prod.mk.inj same
      exact wins.after (fun sound => sound) le_rfl le_rfl
    next other same =>
      obtain ⟨rfl, rfl⟩ := Prod.mk.inj same
      refine (tracks_sendVoteRequests ..).mono fun r₃ (tracks : Tracks 0 r₂ r₃) => wins_of_not_leader ?_
      rw [tracks.state]
      exact lost other
  · exact wins_campaignElection _

theorem wins_hup (role : r.state ≠ .leader) (transferLeader : Bool) :
    Yields (r.hup transferLeader) (Wins r) := by
  unfold hup
  rw [if_neg role]
  refine .read fun found _ => ?_
  split
  · exact wins_of_not_leader role
  split
  · exact wins_campaign _
  split
  · exact wins_campaign _
  · exact wins_campaign _

theorem maybeCommitByVote_leader :
    Yields (r.maybeCommitByVote m) fun r' => r'.state = .leader → r' = r := by
  unfold maybeCommitByVote
  split
  · exact fun _ => rfl
  simp only
  split
  · exact fun _ => rfl
  next below =>
    push Not at below
    refine .read fun ⟨log, committed⟩ _ => ?_
    simp only
    split
    · exact fun lead => absurd lead below.2
    split
    · exact fun lead => absurd lead below.2
    refine .read fun found _ => ?_
    split
    · exact fun lead => (by cases lead)
    · exact fun lead => absurd lead below.2

theorem wins_handleVoteResponse (role : r.state ≠ .leader) :
    Yields (r.handleVoteResponse m) (Wins r) := by
  unfold handleVoteResponse
  split
  · exact wins_of_not_leader role
  refine (wins_pollWith role fun _ _ => wins_campaignElection _).bind fun ⟨r₁, result⟩ ⟨wins, _⟩ => ?_
  refine maybeCommitByVote_leader.mono fun r₂ same sound lead => ?_
  obtain rfl := same lead
  exact wins sound lead

end Raft

end RaftRs

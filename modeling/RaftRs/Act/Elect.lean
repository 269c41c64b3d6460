import RaftRs.Act.Reads

namespace RaftRs

open Library

namespace Raft

variable {r : Raft} {inp : Input → Prop} {m : Message}

theorem core_recordVote (id : Nat) (vote : Bool) :
    { r with prs := r.prs.recordVote id vote }.core = r.core.count id vote := by
  unfold ProgressTracker.recordVote KeyMap.contains Core.count core
  simp only
  split
  · rfl
  · congr 1
    funext other
    simp [Function.update_apply]

theorem quiet_hasUnappliedConfChanges (lo hi : Nat) (context : GetEntriesFor) :
    Quiet (r.hasUnappliedConfChanges lo hi context) := by
  unfold hasUnappliedConfChanges
  split
  · exact quiet_ok
  · refine Quiet.bind (RaftLog.quiet_scan ..) fun result => ?_
    split
    · exact quiet_ok
    · exact quiet_error not_false

theorem does_pollWith {preWon : Raft → Except Fatal Raft} {id : Nat} {vote : Bool} (may : inp .election)
    (role : r.state = .candidate ∨ r.state = .preCandidate)
    (counted : Act inp r.core (r.core.count id vote))
    (pre : ∀ r', r'.state = .preCandidate → r'.core.Won →
      Does inp r'.core (preWon r') core fun _ => True) :
    Does inp r.core (r.pollWith preWon id vote) (fun x => x.1.core) fun x =>
      (x.2 = .pending → x.1 = { r with prs := r.prs.recordVote id vote }) ∧
      (x.2 = .lost → (r.prs.recordVote id vote).voteResult (r.prs.recordVote id vote).votes =
        .lost) := by
  have recorded := core_recordVote (r := r) id vote
  rw [← recorded] at counted
  refine .after counted.acts ?_
  unfold pollWith
  simp only [ProgressTracker.tallyVotes]
  split
  next won =>
    have agrees := JointConfig.voteResult_won.1 won
    split
    next candidate =>
      refine .bind (pre _ candidate agrees) fun r' _ => ?_
      exact .pure .refl ⟨nofun, nofun⟩
    next candidate =>
      have candidate : r.state = .candidate := role.resolve_right candidate
      refine .bind (does_becomeLeader may candidate agrees) fun r' leads => ?_
      refine .bind (does_bcastAppend leads.1) fun r'' _ => ?_
      exact .pure .refl ⟨nofun, nofun⟩
  next lost =>
    refine .pure ?_ ⟨nofun, fun _ => lost⟩
    rw [core_becomeFollower]
    exact Act.stepDown.acts
  next => exact .pure .refl ⟨fun _ => rfl, nofun⟩

/-- The first own vote of a campaign is never lost. -/
theorem own_vote_ne_lost (prs : ProgressTracker) (id : Nat) (fresh : prs.votes = KeyMap.empty) :
    (prs.recordVote id true).voteResult (prs.recordVote id true).votes ≠ .lost := by
  refine JointConfig.voteResult_ne_lost fun voter => ?_
  simp only [ProgressTracker.recordVote, fresh, KeyMap.contains, KeyMap.get?_empty]
  simp only [Option.isSome_none, Bool.false_eq_true, if_false, KeyMap.get?_insert, KeyMap.get?_empty]
  split <;> simp

theorem does_sendVoteRequests {voteMsg : MessageType} {term : Nat} {context : Bytes}
    (kind : (voteMsg = .msgRequestVote ∧ r.state = .candidate ∧ term = r.term ∧ r.term ≠ 0) ∨
      (voteMsg = .msgRequestPreVote ∧ r.state = .preCandidate ∧ term = r.term + 1)) :
    Does inp r.core (r.sendVoteRequests voteMsg term context) core fun _ => True := by
  unfold sendVoteRequests
  refine .read (r.raftLog.quiet_commitInfo) fun ⟨commit, commitTerm⟩ info => ?_
  have each : ∀ id ∈ r.prs.conf.voters.ids.filter fun id => id ≠ r.id, ∀ r' : Raft,
      (∃ msgs, r' = { r with msgs }) → Does inp r'.core (do
        let lastTerm ← r'.raftLog.lastTerm
        r'.send (r'.voteRequest voteMsg term commit commitTerm lastTerm context id)) core
        fun r' => ∃ msgs, r' = { r with msgs } := by
    rintro id inside _ ⟨msgs, rfl⟩
    have other : id ≠ r.id := by simpa using (List.mem_filter.1 inside).2
    refine .read (RaftLog.quiet_lastTerm _) fun lastTerm last => ?_
    have sends : Sends inp { r with msgs }.core ({ r with msgs }.stamp
        ({ r with msgs }.voteRequest voteMsg term commit commitTerm lastTerm context id)) := by
      rcases kind with ⟨rfl, role, rfl, -⟩ | ⟨rfl, role, rfl⟩
      · exact .voteRequest (c := { r with msgs }.core) role other info last
      · exact .preVoteRequest (c := { r with msgs }.core) role other info
    have unsent :
        Unsent ({ r with msgs }.voteRequest voteMsg term commit commitTerm lastTerm context id) := by
      rcases kind with ⟨rfl, -, rfl, nonzero⟩ | ⟨rfl, -, rfl⟩
      · exact nonzero
      · exact Nat.succ_ne_zero _
    exact (does_send sends unsent).mono fun _ same => ⟨_, same⟩
  exact (Does.foldlM _ each r ⟨_, rfl⟩).mono fun _ _ => trivial

/-- A candidate enters the next term with its own vote. -/
theorem core_becomeCandidate {r' : Raft} (done : r.becomeCandidate = .ok r') :
    r.state ≠ .leader ∧ r'.core = r.core.asCandidate ∧ r'.prs.votes = KeyMap.empty ∧
      r'.state = .candidate := by
  unfold becomeCandidate at done
  split at done
  · cases done
  next role =>
    obtain ⟨term, added, done⟩ := bind_eq_ok.1 done
    obtain ⟨-, rfl⟩ := checkedAdd_ok.1 added
    obtain rfl := Except.ok.inj done
    have reset := r.core_reset (r.term + 1)
    have candidate : ∀ r' : Raft, { r' with vote := r'.id, state := .candidate }.core =
        { r'.core with vote := r'.core.id, state := .candidate } := fun _ => rfl
    refine ⟨role, ?_, ?_, rfl⟩
    · rw [candidate, reset]
      rfl
    · rfl

theorem does_campaignElection (may : inp .election) (campaignType : CampaignType)
    (cause : (r.core.Eligible inp ∧ r.core.Direct inp) ∨ (r.state = .preCandidate ∧ r.core.Won)) :
    Does inp r.core (r.campaignElection campaignType) core fun _ => True := by
  unfold campaignElection
  refine .read ?_ fun r₁ done => ?_
  · unfold becomeCandidate
    split
    · exact quiet_error not_false
    · exact (quiet_checkedAdd ..).bind fun _ => quiet_ok
  obtain ⟨role, same, fresh, state⟩ := core_becomeCandidate done
  have term : r₁.term = r.term + 1 := congrArg Core.term same
  refine .after ((Act.campaign may role cause).acts_to same.symm) ?_
  refine .bind (does_pollWith may (.inl state) .countSelf ?_) fun ⟨r₂, res⟩ ⟨pending, lost⟩ => ?_
  · exact fun _ _ _ => .fail not_false
  cases res with
  | won => exact .pure .refl trivial
  | lost => exact absurd (lost rfl) (own_vote_ne_lost _ _ fresh)
  | pending =>
      obtain rfl := pending rfl
      have nonzero : r₁.term ≠ 0 := by omega
      exact does_sendVoteRequests (.inl ⟨rfl, state, rfl, nonzero⟩)

theorem does_poll {id : Nat} {vote : Bool} (may : inp .election)
    (role : r.state = .candidate ∨ r.state = .preCandidate)
    (counted : Act inp r.core (r.core.count id vote)) :
    Does inp r.core (r.poll id vote) (fun x => x.1.core) fun x =>
      (x.2 = .pending → x.1 = { r with prs := r.prs.recordVote id vote }) ∧
      (x.2 = .lost → (r.prs.recordVote id vote).voteResult (r.prs.recordVote id vote).votes = .lost) :=
  does_pollWith may role counted fun _ preCandidate won =>
    does_campaignElection may .election (.inr ⟨preCandidate, won⟩)

theorem does_campaign (may : inp .election) (campaignType : CampaignType)
    (eligible : r.core.Eligible inp) (direct : campaignType ≠ .preElection → r.core.Direct inp) :
    Does inp r.core (r.campaign campaignType) core fun _ => True := by
  unfold campaign
  split
  · refine .read ?_ fun r₁ done => ?_
    · unfold becomePreCandidate
      split
      · exact quiet_error not_false
      · exact quiet_ok
    unfold becomePreCandidate at done
    split at done
    · cases done
    next role =>
      obtain rfl := Except.ok.inj done
      have same : { r with
          state := .preCandidate, prs := r.prs.resetVotes, leaderId := invalidId }.core =
          r.core.asPreCandidate := rfl
      refine .after ((Act.preCampaign may role eligible).acts_to same.symm) ?_
      refine .read (quiet_checkedAdd ..) fun term added => ?_
      obtain ⟨-, rfl⟩ := checkedAdd_ok.1 added
      refine .bind (does_poll may (.inr rfl) .countSelf) fun ⟨r₂, res⟩ ⟨pending, lost⟩ => ?_
      cases res with
      | won => exact .pure .refl trivial
      | lost => exact absurd (lost rfl) (own_vote_ne_lost _ _ rfl)
      | pending =>
          obtain rfl := pending rfl
          exact does_sendVoteRequests (.inr ⟨rfl, rfl, rfl⟩)
  next other => exact does_campaignElection may _ (.inl ⟨eligible, direct other⟩)

theorem does_hup (may : inp .election) (transferLeader : Bool) (eligible : r.core.Eligible inp)
    (transfer : transferLeader = true → ∃ m, inp (.message m) ∧ m.msgType = .msgTimeoutNow) :
    Does inp r.core (r.hup transferLeader) core fun _ => True := by
  unfold hup
  split
  · exact .pure .refl trivial
  refine .read (quiet_hasUnappliedConfChanges ..) fun found _ => ?_
  split
  · exact .pure .refl trivial
  split
  next transferred => exact does_campaign may _ eligible fun _ => .inr (transfer transferred)
  split
  · exact does_campaign may _ eligible fun other => absurd rfl other
  next plain => exact does_campaign may _ eligible fun _ => .inl (Bool.eq_false_iff.2 plain)

theorem does_maybeCommitByVote (stepped : inp (.message m)) (kind : m.IsVoteRequest ∨ m.IsVoteResponse) :
    Does inp r.core (r.maybeCommitByVote m) core fun _ => True := by
  unfold maybeCommitByVote
  split
  · exact .pure .refl trivial
  next some =>
    push Not at some
    simp only
    split
    · exact .pure .refl trivial
    next open' =>
      push Not at open'
      cases done : r.raftLog.maybeCommit m.commit m.commitTerm with
      | error e => exact .fault (.commitByVote stepped some.2 done)
      | ok result =>
          obtain ⟨log, committed⟩ := result
          simp only [ok_bind]
          cases committed with
          | false =>
              obtain rfl := RaftLog.maybeCommit_false done
              exact .pure .refl trivial
          | true =>
              refine .after (Act.commitByVote stepped kind open'.2 some.2 done).acts ?_
              simp only [Bool.not_true, Bool.false_eq_true, if_false]
              split
              · exact .pure .refl trivial
              refine .read (quiet_hasUnappliedConfChanges ..) fun found _ => ?_
              split
              · refine .pure ?_ trivial
                rw [core_becomeFollower]
                exact Act.stepDown.acts
              · exact .pure .refl trivial

theorem does_handleVoteRequest (stepped : inp (.message m)) (kind : m.IsVoteRequest)
    (heard : m.msgType = .msgRequestVote → r.core.Hears m) :
    Does inp r.core (r.handleVoteRequest m) core fun _ => True := by
  unfold handleVoteRequest
  refine .read ?_ fun upToDate checked => ?_
  · split
    · exact r.raftLog.quiet_isUpToDate ..
    · exact quiet_ok
  split
  next grants =>
    rw [Bool.and_eq_true_iff] at grants
    rw [grants.1] at checked
    split at checked
    next can =>
      rcases kind with vote | preVote
      · have free : r.vote = m.fromId ∨ r.vote = invalidId := by
          simp only [canVote, vote, Bool.or_eq_true, Bool.and_eq_true, beq_iff_eq, reduceCtorEq,
            false_and, or_false] at can
          exact can.imp (fun same => same) And.left
        rcases r.send_cases { toId := m.fromId, msgType := voteRespMsgType m.msgType,
                              reject := false, term := m.term }
          with ⟨failed, wrong⟩ | ⟨sent, unsent⟩
        · have zero : m.term = 0 := by
            simpa [Unsent, vote, voteRespMsgType, MessageType.isCampaign] using wrong
          rw [failed]
          exact .fault (.untermedVote stepped (.inl vote) zero rfl)
        · have nonzero : m.term ≠ 0 := by
            simpa [Unsent, vote, voteRespMsgType, MessageType.isCampaign] using unsent
          have term : m.term = r.core.term := (heard vote).resolve_right nonzero
          rw [sent]
          simp only [ok_bind, vote, if_true]
          have act : Act inp r.core _ := .grant stepped vote term nonzero free checked
          exact .pure act.acts trivial
      · refine .bind (does_send_or ?_ fun _ => ?_) fun r' same => ?_
        · by_cases zero : m.term = 0
          · exact .inr (.untermedVote stepped (.inr preVote) zero rfl)
          · left
            simpa [Unsent, preVote, voteRespMsgType, MessageType.isCampaign] using zero
        · rw [preVote]
          exact .preVoteGrant stepped preVote
        · simp only [preVote, reduceCtorEq, if_false]
          exact .pure .refl trivial
    next => cases checked
  next refuses =>
    refine .read r.raftLog.quiet_commitInfo fun x info => ?_
    obtain ⟨commit, commitTerm⟩ := x
    refine .bind (does_send_or ?_ fun unsent => ?_) fun r' same => does_maybeCommitByVote stepped
      (.inl kind)
    · by_cases zero : r.term = 0
      · right
        by_cases untermed : m.term = 0
        · exact .untermedVote stepped kind untermed rfl
        rcases kind with vote | preVote
        · rcases heard vote with same | same
          · exact absurd (same.trans zero) untermed
          · exact absurd same untermed
        · have can : r.canVote m = true := by
            simp only [canVote, preVote, zero, Bool.or_eq_true, Bool.and_eq_true, beq_self_eq_true,
              true_and, decide_eq_true_eq]
            exact .inr (Nat.pos_of_ne_zero untermed)
          rw [if_pos can] at checked
          refine .refuseUntermed stepped preVote zero untermed (fun complete => ?_) rfl
          have complete : r.raftLog.isUpToDate m.index m.logTerm = .ok true := complete
          rw [complete] at checked
          obtain rfl := Except.ok.inj checked
          show m.index ≤ r.raftLog.lastIndex ∧ getPriority m < r.priority
          simpa using refuses
      · left
        rcases kind with vote | preVote
        · simpa [Unsent, vote, voteRespMsgType, MessageType.isCampaign] using zero
        · simpa [Unsent, preVote, voteRespMsgType, MessageType.isCampaign] using zero
    rcases kind with vote | preVote
    · have nonzero : r.term ≠ 0 := by
        simpa [Unsent, vote, voteRespMsgType, MessageType.isCampaign] using unsent
      have reject : Sends inp r.core _ := .voteReject stepped (.inl vote) nonzero info
      rw [vote] at reject ⊢
      exact reject
    · have nonzero : r.term ≠ 0 := by
        simpa [Unsent, preVote, voteRespMsgType, MessageType.isCampaign] using unsent
      have reject : Sends inp r.core _ := .voteReject stepped (.inr preVote) nonzero info
      rw [preVote] at reject ⊢
      exact reject

theorem does_handleVoteResponse (may : inp .election) (stepped : inp (.message m))
    (kind : m.IsVoteResponse) (role : r.state = .candidate ∨ r.state = .preCandidate)
    (heard : m.msgType = .msgRequestVoteResponse → r.core.Hears m)
    (started : r.state = .preCandidate → inp (.started r.term)) (recent : m.term ≠ 0 → r.term ≤ m.term) :
    Does inp r.core (r.handleVoteResponse m) core fun _ => True := by
  unfold handleVoteResponse
  split
  · exact .pure .refl trivial
  next own =>
    push Not at own
    have counted : Act inp r.core (r.core.count m.fromId (!m.reject)) := by
      refine .countVote stepped kind ?_
      rcases role with candidate | preCandidate
      · exact .inr ⟨candidate, own.2 candidate, heard (own.2 candidate)⟩
      · exact .inl ⟨preCandidate, own.1 preCandidate, started preCandidate, recent⟩
    refine .bind (does_poll may role counted) fun _ _ => ?_
    exact does_maybeCommitByVote stepped (.inr kind)

end Raft

end RaftRs

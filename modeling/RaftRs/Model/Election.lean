import RaftRs.Model.Raft

namespace RaftRs

open Library

namespace Raft

def hasConfChange (ents : List Entry) : Bool :=
  ents.any fun e => e.entryType == .entryConfChange || e.entryType == .entryConfChangeV2

/-- A committed range contains a configuration change that is not yet applied. -/
def hasUnappliedConfChanges (r : Raft) (lo hi : Nat) (context : GetEntriesFor) : Except Fatal Bool :=
  if r.raftLog.applied ≥ r.raftLog.committed then .ok false
  else do
    let visit (_ : Bool) (ents : List Entry) : Bool × Bool :=
      if hasConfChange ents then (true, false) else (false, true)
    match ← r.raftLog.scan hi r.maxCommittedSizePerReady context visit (hi - lo) lo false with
    | .ok found => return found
    | .error _ => throw .unexpectedStorageError

/-- A vote is counted; a lost election ends the campaign and a won one starts the next stage. -/
def pollWith (preWon : Raft → Except Fatal Raft) (r : Raft) (fromId : Nat) (vote : Bool) :
    Except Fatal (Raft × VoteResult) := do
  let r := { r with prs := r.prs.recordVote fromId vote }
  let (_, _, res) := r.prs.tallyVotes
  match res with
  | .won =>
      if r.state = .preCandidate then
        let r ← preWon r
        return (r, .won)
      else
        let r ← r.becomeLeader
        let r ← r.bcastAppend
        return (r, .won)
  | .lost => return (r.becomeFollower r.term invalidId, .lost)
  | .pending => return (r, .pending)

/-- The vote request of a campaign. -/
def voteRequest (r : Raft) (voteMsg : MessageType) (term commit commitTerm lastTerm : Nat)
    (context : Bytes) (id : Nat) : Message :=
  { toId := id, msgType := voteMsg, term, index := r.raftLog.lastIndex, logTerm := lastTerm, commit,
    commitTerm
    context }

/-- The vote requests are sent to all other voters. -/
def sendVoteRequests (r : Raft) (voteMsg : MessageType) (term : Nat) (context : Bytes) :
    Except Fatal Raft := do
  let (commit, commitTerm) ← r.raftLog.commitInfo
  let voters := r.prs.conf.voters.ids.filter fun id => id ≠ r.id
  voters.foldlM (fun r id => do
    let lastTerm ← r.raftLog.lastTerm
    r.send (r.voteRequest voteMsg term commit commitTerm lastTerm context id)) r

/-- A campaign for votes; the candidate is never a pre-candidate when it counts its own vote. -/
def campaignElection (r : Raft) (campaignType : CampaignType) : Except Fatal Raft := do
  let r ← r.becomeCandidate
  match ← r.pollWith (fun _ => .error .invalidTransition) r.id true with
  | (r, .won) => return r
  | (r, _) =>
      r.sendVoteRequests .msgRequestVote r.term (if campaignType = .transfer then campaignTransfer
        else [])

/-- A vote is counted; won pre-votes start the election itself. -/
def poll (r : Raft) (fromId : Nat) (vote : Bool) : Except Fatal (Raft × VoteResult) :=
  r.pollWith (fun r => r.campaignElection .election) fromId vote

/-- A campaign of one of the three kinds. -/
def campaign (r : Raft) (campaignType : CampaignType) : Except Fatal Raft :=
  match campaignType with
  | .preElection => do
      let r ← r.becomePreCandidate
      let term ← checkedAdd r.term 1
      match ← r.poll r.id true with
      | (r, .won) => return r
      | (r, _) => r.sendVoteRequests .msgRequestPreVote term []
  | _ => r.campaignElection campaignType

/-- The node campaigns unless it leads or has unapplied configuration changes. -/
def hup (r : Raft) (transferLeader : Bool) : Except Fatal Raft :=
  if r.state = .leader then .ok r
  else do
    let low := match r.raftLog.unstable.maybeFirstIndex with
      | some idx => idx
      | none => r.raftLog.applied + 1
    if ← r.hasUnappliedConfChanges low (r.raftLog.committed + 1) .transferLeader then return r
    else if transferLeader then r.campaign .transfer
    else if r.preVote then r.campaign .preElection
    else r.campaign .election

/-- The commit index of a vote message is taken over when the log contains it. -/
def maybeCommitByVote (r : Raft) (m : Message) : Except Fatal Raft :=
  if m.commit = 0 ∨ m.commitTerm = 0 then .ok r
  else
    let lastCommit := r.raftLog.committed
    if m.commit ≤ lastCommit ∨ r.state = .leader then .ok r
    else do
      let (raftLog, committed) ← r.raftLog.maybeCommit m.commit m.commitTerm
      let r := { r with raftLog }
      if !committed then return r
      else if r.state ≠ .candidate ∧ r.state ≠ .preCandidate then return r
      else if ← r.hasUnappliedConfChanges (lastCommit + 1) (r.raftLog.committed + 1) .commitByVote then
        return r.becomeFollower r.term invalidId
      else return r

def voteRespMsgType (t : MessageType) : MessageType :=
  if t = .msgRequestPreVote then .msgRequestPreVoteResponse else .msgRequestVoteResponse

/-- The node may vote for the sender of a request. -/
def canVote (r : Raft) (m : Message) : Bool :=
  r.vote == m.fromId || (r.vote == invalidId && r.leaderId == invalidId) ||
    (m.msgType == .msgRequestPreVote && m.term > r.term)

/-- A vote request is granted to a complete log of sufficient priority and rejected otherwise. -/
def handleVoteRequest (r : Raft) (m : Message) : Except Fatal Raft := do
  let upToDate ← (if r.canVote m then r.raftLog.isUpToDate m.index m.logTerm else pure false)
  if upToDate && (m.index > r.raftLog.lastIndex || r.priority ≤ getPriority m) then
    let r ← r.send { toId := m.fromId, msgType := voteRespMsgType m.msgType, reject := false,
                     term := m.term }
    if m.msgType = .msgRequestVote then return { r with electionElapsed := 0, vote := m.fromId }
    else return r
  else
    let (commit, commitTerm) ← r.raftLog.commitInfo
    let r ← r.send
      { toId := m.fromId, msgType := voteRespMsgType m.msgType, reject := true, term := r.term, commit
        commitTerm }
    r.maybeCommitByVote m

end Raft

end RaftRs

import RaftRs.Model.Replication

namespace RaftRs

open Library

namespace Raft

/-- The pending snapshot request is repeated to the leader. -/
def sendRequestSnapshot (r : Raft) : Except Fatal Raft :=
  match r.raftLog.term r.raftLog.lastIndex with
  | .error _ => .error (.unexpectedTerm r.raftLog.lastIndex)
  | .ok logTerm =>
      r.send
        { msgType := .msgAppendResponse, index := r.raftLog.committed, reject := true
          rejectHint := r.raftLog.lastIndex, toId := r.leaderId
          requestSnapshot := r.pendingRequestSnapshot, logTerm }

/-- The application asks for a snapshot from the leader. -/
def requestSnapshot (r : Raft) : Outcome :=
  if r.state = .leader ∨ r.leaderId = invalidId ∨ r.raftLog.unstable.snapshot.isSome ∨
      r.pendingRequestSnapshot ≠ invalidIndex then .ok (r, .error .requestSnapshotDropped)
  else
    let requestIndex := r.raftLog.lastIndex
    match r.raftLog.term requestIndex with
    | .error _ => .error (.unexpectedTerm requestIndex)
    | .ok requestIndexTerm =>
        if r.term = requestIndexTerm then do
          let r ← { r with pendingRequestSnapshot := requestIndex }.sendRequestSnapshot
          return (r, .ok ())
        else .ok (r, .error .requestSnapshotDropped)

/-- The rejection of an append carries the largest index that may still match. -/
def rejectAppend (r : Raft) (m : Message) : Except Fatal Raft := do
  let (hintIndex, hintTerm) ← r.raftLog.findConflictByTerm (min m.index r.raftLog.lastIndex) m.logTerm
  match hintTerm with
  | none => throw (.unexpectedTerm hintIndex)
  | some logTerm =>
      r.send
        { toId := m.fromId, msgType := .msgAppendResponse, index := m.index, reject := true
          rejectHint := hintIndex, logTerm, commit := r.raftLog.committed }

/-- The follower appends the entries of its leader and acknowledges them. -/
def handleAppendEntries (r : Raft) (m : Message) : Except Fatal Raft :=
  if r.pendingRequestSnapshot ≠ invalidIndex then r.sendRequestSnapshot
  else if m.index < r.raftLog.committed then
    r.send
      { msgType := .msgAppendResponse, toId := m.fromId, index := r.raftLog.committed
        commit := r.raftLog.committed }
  else do
    let (raftLog, result) ← r.raftLog.maybeAppend m.index m.logTerm m.commit m.entries
    let r := { r with raftLog }
    match result with
    | some (_, lastIdx) =>
        r.send
          { toId := m.fromId, msgType := .msgAppendResponse, index := lastIdx,
            commit := r.raftLog.committed }
    | none => r.rejectAppend m

/-- The follower commits up to the heartbeat and answers it. -/
def handleHeartbeat (r : Raft) (m : Message) : Except Fatal Raft := do
  let raftLog ← r.raftLog.commitTo m.commit
  let r := { r with raftLog }
  if r.pendingRequestSnapshot ≠ invalidIndex then r.sendRequestSnapshot
  else
    r.send
      { msgType := .msgHeartbeatResponse, toId := m.fromId, context := m.context
        commit := r.raftLog.committed }

/-- The peers whose log is not known to be complete are probed after a configuration change. -/
def probePeers (r : Raft) : Except Fatal Raft :=
  r.peers.foldlM (fun r id => r.withProgress id fun r pr => do
    let (r, pr, _) ← r.maybeSendAppend id pr false
    return (r, pr)) r

/-- A changed configuration may commit entries, answer reads and end a transfer. -/
def postConfChange (r : Raft) : Except Fatal (Raft × ConfState) := do
  let cs := r.prs.conf.toConfState
  let isVoter := r.prs.conf.voters.contains r.id
  let r := { r with promotable := isVoter }
  if !isVoter && r.state = .leader then return (r, cs)
  else if r.state ≠ .leader || cs.voters.isEmpty then return (r, cs)
  else
    let (r, committed) ← r.maybeCommit
    let r ← (if committed then r.bcastAppend else r.probePeers)
    let r ← (match r.readOnly.lastPendingRequestCtx with
      | some ctx => r.advanceReads r.id ctx
      | none => pure r)
    match r.leadTransferee with
    | some transferee =>
        if r.prs.conf.voters.contains transferee then return (r, cs)
          else return (r.abortLeaderTransfer, cs)
    | none => return (r, cs)

/-- An applied configuration change installs its configuration. -/
def applyConfChange (r : Raft) (cc : ConfChangeV2) : Except Fatal (Raft × Except RaftError ConfState) :=
  let changed : Except RaftError (Configuration × MapChange) :=
    if cc.leaveJoint then Changer.leaveJoint r.prs
    else match cc.enterJoint with
      | some autoLeave => Changer.enterJoint r.prs autoLeave cc.changes
      | none => Changer.simple r.prs cc.changes
  match changed with
  | .error error => .ok (r, .error error)
  | .ok (cfg, changes) => do
      let (r, cs) ← { r with prs := r.prs.applyConf cfg changes r.raftLog.lastIndex }.postConfChange
      return (r, .ok cs)

def inConfState (r : Raft) (cs : ConfState) : Bool :=
  (cs.voters ++ cs.learners ++ cs.votersOutgoing).any fun id => id == r.id

/-- The configuration of a restored snapshot is installed. -/
def restoreConfState (r : Raft) (cs : ConfState) : Except Fatal Raft := do
  match restoreConf r.prs.clear r.raftLog.lastIndex cs with
  | .error _ => throw .invalidConfiguration
  | .ok prs =>
      let (r, newCs) ← { r with prs }.postConfChange
      if !confStateEq cs newCs then throw .invalidConfiguration
      else match r.prs.get r.id with
        | none => throw .missing
        | some pr =>
            let (pr, _) ← pr.maybeUpdate (← checkedSub pr.nextIdx 1)
            return { r with prs := r.prs.put r.id pr, pendingRequestSnapshot := invalidIndex }

/-- A snapshot replaces the log unless the log already contains its position. -/
def restore (r : Raft) (snap : Snapshot) : Except Fatal (Raft × Bool) :=
  let metadata := snap.metadata
  if metadata.index < r.raftLog.committed then .ok (r, false)
  else if r.state ≠ .follower then do
    let term ← checkedAdd r.term 1
    return (r.becomeFollower term invalidId, false)
  else if !r.inConfState metadata.confState then .ok (r, false)
  else if r.pendingRequestSnapshot = invalidIndex ∧
    r.raftLog.matchTerm metadata.index metadata.term then do
    let raftLog ← r.raftLog.commitTo metadata.index
    return ({ r with raftLog }, false)
  else do
    let raftLog ← r.raftLog.restore snap
    let r ← { r with raftLog }.restoreConfState metadata.confState
    return (r, true)

/-- The follower restores a snapshot and acknowledges its last or its committed index. -/
def handleSnapshot (r : Raft) (m : Message) : Except Fatal Raft := do
  match ← r.restore m.snapshot with
  | (r, true) => r.send { msgType := .msgAppendResponse, toId := m.fromId, index := r.raftLog.lastIndex }
  | (r, false) =>
      r.send { msgType := .msgAppendResponse, toId := m.fromId, index := r.raftLog.committed }

/-- A candidate counts a vote response that belongs to its campaign. -/
def handleVoteResponse (r : Raft) (m : Message) : Except Fatal Raft :=
  if (r.state = .preCandidate ∧ m.msgType ≠ .msgRequestPreVoteResponse) ∨
      (r.state = .candidate ∧ m.msgType ≠ .msgRequestVoteResponse) then .ok r
  else do
    let (r, _) ← r.poll m.fromId (!m.reject)
    r.maybeCommitByVote m

/-- A candidate or pre-candidate steps a message; only a build with debug assertions compares the
term of a leader's message with its own. -/
def stepCandidate (r : Raft) (m : Message) (debugAssertions : Bool := true) : Outcome :=
  let done (r : Except Fatal Raft) : Outcome := do return (← r, .ok ())
  match m.msgType with
  | .msgPropose => .ok (r, .error .proposalDropped)
  | .msgAppend =>
      if debugAssertions ∧ r.term ≠ m.term then .error (.termAssertion r.term m.term)
      else done ((r.becomeFollower m.term m.fromId).handleAppendEntries m)
  | .msgHeartbeat =>
      if debugAssertions ∧ r.term ≠ m.term then .error (.termAssertion r.term m.term)
      else done ((r.becomeFollower m.term m.fromId).handleHeartbeat m)
  | .msgSnapshot =>
      if debugAssertions ∧ r.term ≠ m.term then .error (.termAssertion r.term m.term)
      else done ((r.becomeFollower m.term m.fromId).handleSnapshot m)
  | .msgRequestPreVoteResponse | .msgRequestVoteResponse => done (r.handleVoteResponse m)
  | _ => .ok (r, .ok ())

/-- A read answer is handed out and its index is committed when the log contains it. -/
def handleReadIndexResp (r : Raft) (m : Message) : Except Fatal Raft :=
  match m.entries with
  | [entry] => do
      let rs : ReadState := { index := m.index, requestCtx := entry.data }
      let r := { r with readStates := r.readStates ++ [rs] }
      let (raftLog, _) ← r.raftLog.maybeCommit m.index m.term
      return { r with raftLog }
  | _ => .ok r

def heardFrom (r : Raft) (m : Message) : Raft := { r with electionElapsed := 0, leaderId := m.fromId }

/-- A message of the application is forwarded to the leader. -/
def forward (r : Raft) (m : Message) : Except Fatal Raft := r.send { m with toId := r.leaderId }

/-- A follower steps a message. -/
def stepFollower (r : Raft) (m : Message) : Outcome :=
  let done (r : Except Fatal Raft) : Outcome := do return (← r, .ok ())
  match m.msgType with
  | .msgPropose =>
      if r.leaderId = invalidId then .ok (r, .error .proposalDropped)
      else if r.disableProposalForwarding then .ok (r, .error .proposalDropped)
      else done (r.forward m)
  | .msgAppend => done ((r.heardFrom m).handleAppendEntries m)
  | .msgHeartbeat => done ((r.heardFrom m).handleHeartbeat m)
  | .msgSnapshot => done ((r.heardFrom m).handleSnapshot m)
  | .msgTransferLeader => if r.leaderId = invalidId then .ok (r, .ok ()) else done (r.forward m)
  | .msgTimeoutNow => if r.promotable then done (r.hup true) else .ok (r, .ok ())
  | .msgReadIndex => if r.leaderId = invalidId then .ok (r, .ok ()) else done (r.forward m)
  | .msgReadIndexResp => done (r.handleReadIndexResp m)
  | _ => .ok (r, .ok ())

/-- The term of a message is compared with that of the node; a stale one ends the step. -/
def handleTerm (r : Raft) (m : Message) : Except Fatal (Raft × Bool) :=
  if m.term = 0 then .ok (r, true)
  else if m.term > r.term then
    let isVote := m.msgType = .msgRequestVote ∨ m.msgType = .msgRequestPreVote
    let force := m.context = campaignTransfer
    let inLease := r.checkQuorum ∧ r.leaderId ≠ invalidId ∧ r.electionElapsed < r.electionTimeout
    if isVote ∧ ¬ force ∧ inLease then .ok (r, false)
    else if m.msgType = .msgRequestPreVote ∨ (m.msgType = .msgRequestPreVoteResponse ∧ !m.reject) then
      .ok (r, true)
    else if m.msgType = .msgAppend ∨ m.msgType = .msgHeartbeat ∨ m.msgType = .msgSnapshot then
      .ok (r.becomeFollower m.term m.fromId, true)
    else .ok (r.becomeFollower m.term invalidId, true)
  else if m.term < r.term then
    if (r.checkQuorum ∨ r.preVote) ∧ (m.msgType = .msgHeartbeat ∨ m.msgType = .msgAppend) then do
      let r ← r.send (newMessage m.fromId .msgAppendResponse invalidId)
      return (r, false)
    else if m.msgType = .msgRequestPreVote then do
      let r ← r.send
        { newMessage m.fromId .msgRequestPreVoteResponse invalidId with term := r.term, reject := true }
      return (r, false)
    else .ok (r, false)
  else .ok (r, true)

/-- The node steps a message whose term it has accepted. -/
def dispatch [ConfChangeCodec] (r : Raft) (m : Message) (debugAssertions : Bool := true) : Outcome :=
  match m.msgType with
  | .msgHup => do return (← r.hup false, .ok ())
  | .msgRequestVote | .msgRequestPreVote => do return (← r.handleVoteRequest m, .ok ())
  | _ =>
      match r.state with
      | .preCandidate | .candidate => r.stepCandidate m debugAssertions
      | .follower => r.stepFollower m
      | .leader => r.stepLeader m

/-- The node steps a message. -/
def step [ConfChangeCodec] (r : Raft) (m : Message) (debugAssertions : Bool := true) : Outcome := do
  match ← r.handleTerm m with
  | (r, false) => return (r, .ok ())
  | (r, true) => r.dispatch m debugAssertions

/-- A node that does not lead campaigns when its election timeout passes. -/
def tickElection [ConfChangeCodec] (r : Raft) (debugAssertions : Bool := true) :
    Except Fatal (Raft × Bool) :=
  let r := { r with electionElapsed := r.electionElapsed + 1 }
  if r.electionElapsed < r.randomizedElectionTimeout ∨ !r.promotable then .ok (r, false)
  else do
    let (r, _) ← { r with electionElapsed := 0 }.step (newMessage invalidId .msgHup r.id) debugAssertions
    return (r, true)

/-- The election timeout of a leader checks its quorum and ends a transfer. -/
def tickQuorum [ConfChangeCodec] (r : Raft) (debugAssertions : Bool := true) :
    Except Fatal (Raft × Bool) :=
  if r.electionElapsed ≥ r.electionTimeout then do
    let r := { r with electionElapsed := 0 }
    let (r, hasReady) ← (if r.checkQuorum then do
      let (r, _) ← r.step (newMessage invalidId .msgCheckQuorum r.id) debugAssertions
      pure (r, true)
    else pure (r, false))
    return (if r.state = .leader ∧ r.leadTransferee.isSome then r.abortLeaderTransfer else r, hasReady)
  else .ok (r, false)

/-- A leader sends heartbeats and checks its quorum. -/
def tickHeartbeat [ConfChangeCodec] (r : Raft) (debugAssertions : Bool := true) :
    Except Fatal (Raft × Bool) := do
  let r :=
    { r with heartbeatElapsed := r.heartbeatElapsed + 1, electionElapsed := r.electionElapsed + 1 }
  let (r, hasReady) ← r.tickQuorum debugAssertions
  if r.state ≠ .leader then return (r, hasReady)
  else if r.heartbeatElapsed ≥ r.heartbeatTimeout then
    let (r, _) ← { r with heartbeatElapsed := 0 }.step (newMessage invalidId .msgBeat r.id)
      debugAssertions
    return (r, true)
  else return (r, hasReady)

/-- The logical clock advances. -/
def tick [ConfChangeCodec] (r : Raft) (debugAssertions : Bool := true) : Except Fatal (Raft × Bool) :=
  match r.state with
  | .follower | .preCandidate | .candidate => r.tickElection debugAssertions
  | .leader => r.tickHeartbeat debugAssertions

/-- The hard state of the storage is loaded. -/
def loadState (r : Raft) (hs : HardState) : Except Fatal Raft :=
  if hs.commit < r.raftLog.committed ∨ hs.commit > r.raftLog.lastIndex then
    .error (.hardStateOutOfRange hs.commit)
  else .ok { r with
    raftLog := { r.raftLog with committed := hs.commit }, term := hs.term, vote := hs.vote }

/-- The fields of a node before its configuration and its hard state are loaded. -/
def blank (c : Config) (store : MemStorage) (rng : Nat → Nat) : Raft :=
  { prs := ProgressTracker.new c.maxInflightMsgs
    id := c.id
    raftLog := RaftLog.new store c.maxApplyUnpersistedLogLimit
    maxMsgSize := c.maxSizePerMsg
    checkQuorum := c.checkQuorum
    preVote := c.preVote
    readOnly := ReadOnly.new c.readOnlyOption
    heartbeatTimeout := c.heartbeatTick
    electionTimeout := c.electionTick
    minElectionTimeout := c.minTimeout
    maxElectionTimeout := c.maxTimeout
    skipBcastCommit := c.skipBcastCommit
    batchAppend := c.batchAppend
    priority := c.priority
    uncommittedState := { maxUncommittedSize := c.maxUncommittedSize }
    maxCommittedSizePerReady := c.maxCommittedSizePerReady
    disableProposalForwarding := c.disableProposalForwarding
    rng }

/-- A node starts from its storage as a follower. -/
def new (c : Config) (store : MemStorage) (rng : Nat → Nat) : Except Fatal (Except RaftError Raft) :=
  match c.validate with
  | .error error => .ok (.error error)
  | .ok () =>
      let r := blank c store rng
      let confState := store.raftState.confState
      match restoreConf r.prs r.raftLog.lastIndex confState with
      | .error error => .ok (.error error)
      | .ok prs => do
          let (r, newCs) ← { r with prs }.postConfChange
          if !confStateEq newCs confState then throw .invalidConfiguration
          else
            let hs := store.raftState.hardState
            let r ← (if hs ≠ {} then r.loadState hs else pure r)
            let r ← (if c.applied > 0 then r.commitApplyInternal c.applied true else pure r)
            return .ok (r.becomeFollower r.term invalidId)

end Raft

end RaftRs

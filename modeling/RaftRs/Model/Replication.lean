import RaftRs.Model.Election

namespace RaftRs

open Library

namespace Raft

/-- A call returns to the application with the changed node. -/
abbrev Outcome := Except Fatal (Raft × Except RaftError Unit)

def sendTimeoutNow (r : Raft) (toId : Nat) : Except Fatal Raft :=
  r.send (newMessage toId .msgTimeoutNow invalidId)

/-- The index from which a rejected follower is probed next. -/
def nextProbeIndex (r : Raft) (m : Message) : Except Fatal Nat :=
  if m.reject ∧ m.logTerm > 0 then do
    let (index, _) ← r.raftLog.findConflictByTerm m.rejectHint m.logTerm
    return index
  else .ok m.rejectHint

/-- A rejection makes the leader probe from an earlier index. -/
def handleAppendRejection (r : Raft) (m : Message) (pr : Progress) (nextProbeIndex : Nat) :
    Except Fatal Raft := do
  match ← pr.maybeDecrTo m.index nextProbeIndex m.requestSnapshot with
  | (pr, false) => return { r with prs := r.prs.put m.fromId pr }
  | (pr, true) =>
      let pr := if pr.state = .replicate then pr.becomeProbe else pr
      { r with prs := r.prs.put m.fromId pr }.sendAppend m.fromId

/-- The progress state after an acknowledgement. -/
def acknowledgedProgress (pr : Progress) (index : Nat) : Except Fatal Progress :=
  match pr.state with
  | .probe => .ok pr.becomeReplicate
  | .snapshot => .ok (if pr.isSnapshotCaughtUp then pr.becomeProbe else pr)
  | .replicate => do
      let ins ← pr.ins.freeTo index
      return { pr with ins }

/-- A transfer target with the whole log is told to campaign. -/
def maybeTransfer (r : Raft) (fromId : Nat) : Except Fatal Raft :=
  if some fromId = r.leadTransferee then
    match r.prs.get fromId with
    | none => .error .missing
    | some pr => if pr.matched = r.raftLog.lastIndex then r.sendTimeoutNow fromId else .ok r
  else .ok r

/-- An acknowledgement may move the commit index and sends what the follower can take. -/
def handleAppendAcceptance (r : Raft) (m : Message) (pr : Progress) : Except Fatal Raft := do
  let oldPaused := pr.isPaused
  match ← pr.maybeUpdate m.index with
  | (pr, false) => return { r with prs := r.prs.put m.fromId pr }
  | (pr, true) =>
      let pr ← acknowledgedProgress pr m.index
      let (r, committed) ← { r with prs := r.prs.put m.fromId pr }.maybeCommit
      let r ← (if committed then (if r.shouldBcastCommit then r.bcastAppend else pure r)
        else if oldPaused then r.sendAppend m.fromId else pure r)
      let r ← r.sendAppendAggressively m.fromId
      r.maybeTransfer m.fromId

/-- The leader handles an append response. -/
def handleAppendResponse (r : Raft) (m : Message) : Except Fatal Raft := do
  let nextProbeIndex ← r.nextProbeIndex m
  match r.prs.get m.fromId with
  | none => return r
  | some pr =>
      let pr := { pr with recentActive := true }.updateCommitted m.commit
      if m.reject then r.handleAppendRejection m pr nextProbeIndex else r.handleAppendAcceptance m pr

/-- A confirmed read is answered here or at the node it came from. -/
def handleReadyReadIndex (r : Raft) (req : Message) (index : Nat) :
    Except Fatal (Raft × Option Message) :=
  if req.fromId = invalidId ∨ req.fromId = r.id then
    match req.entries.head? with
    | none => .error .indexOutOfRange
    | some entry =>
        .ok ({ r with readStates := r.readStates ++ [{ index, requestCtx := entry.data }] }, none)
  else .ok (r, some { msgType := .msgReadIndexResp, toId := req.fromId, index, entries := req.entries })

/-- A confirmed read is answered. -/
def respondRead (r : Raft) (req : Message) (index : Nat) : Except Fatal Raft := do
  match ← r.handleReadyReadIndex req index with
  | (r, some m) => r.send m
  | (r, none) => return r

/-- The reads up to a context are answered when a quorum has acknowledged it. -/
def advanceReads (r : Raft) (id : Nat) (ctx : Bytes) : Except Fatal Raft :=
  match r.readOnly.recvAck id ctx with
  | (readOnly, some acks) =>
      let r := { r with readOnly }
      if r.prs.hasQuorum acks then do
        let (readOnly, rss) ← r.readOnly.advance ctx
        rss.foldlM (fun r rs => r.respondRead rs.req rs.index) { r with readOnly }
      else .ok r
  | (_, none) => .ok r

/-- The leader handles a heartbeat response. -/
def handleHeartbeatResponse (r : Raft) (m : Message) : Except Fatal Raft :=
  match r.prs.get m.fromId with
  | none => .ok r
  | some pr => do
      let pr := { pr.updateCommitted m.commit with recentActive := true }.resume
      let ins ← (if pr.state = .replicate ∧ pr.ins.full then pr.ins.freeFirstOne else pure pr.ins)
      let pr := { pr with ins }
      let r := { r with prs := r.prs.put m.fromId pr }
      let r ← (if pr.matched < r.raftLog.lastIndex ∨ pr.pendingRequestSnapshot ≠ invalidIndex then
        r.sendAppend m.fromId else pure r)
      if r.readOnly.option ≠ .safe ∨ m.context.isEmpty then return r
      else r.advanceReads m.fromId m.context

/-- The leader handles a request to transfer its leadership. -/
def handleTransferLeader (r : Raft) (m : Message) : Except Fatal Raft :=
  match r.prs.get m.fromId with
  | none => .ok r
  | some pr =>
      if r.prs.conf.learners.contains m.fromId then .ok r
      else if r.leadTransferee = some m.fromId then .ok r
      else
        let r := r.abortLeaderTransfer
        if m.fromId = r.id then .ok r
        else
          let r := { r with electionElapsed := 0, leadTransferee := some m.fromId }
          if pr.matched = r.raftLog.lastIndex then r.sendTimeoutNow m.fromId
          else r.sendAppend m.fromId

/-- The leader handles a report on a sent snapshot. -/
def handleSnapshotStatus (r : Raft) (m : Message) : Raft :=
  match r.prs.get m.fromId with
  | none => r
  | some pr =>
      if pr.state ≠ .snapshot then r
      else
        let pr := if m.reject then pr.snapshotFailure.becomeProbe else pr.becomeProbe
        { r with prs := r.prs.put m.fromId { pr.pause with pendingRequestSnapshot := invalidIndex } }

/-- The leader handles a report that a follower is unreachable. -/
def handleUnreachable (r : Raft) (m : Message) : Raft :=
  match r.prs.get m.fromId with
  | none => r
  | some pr =>
      { r with prs := r.prs.put m.fromId (if pr.state = .replicate then pr.becomeProbe else pr) }

/-- The capacity of the window of a node is changed. -/
def adjustMaxInflightMsgs (r : Raft) (target cap : Nat) : Except Fatal Raft :=
  match r.prs.get target with
  | none => .ok r
  | some pr => do
      let ins ← pr.ins.setCap cap
      return { r with prs := r.prs.put target { pr with ins } }

/-- The quorum is checked for recent activity. -/
def checkQuorumActive (r : Raft) : Raft × Bool :=
  let (prs, active) := r.prs.quorumRecentlyActive r.id
  ({ r with prs }, active)

/-- The configuration change of an entry; other entries carry none. -/
def proposedChange [ConfChangeCodec] (e : Entry) : Except RaftError (Option ConfChangeV2) :=
  match e.entryType with
  | .entryConfChange =>
      match ConfChangeCodec.decodeConfChange e.data with
      | some cc => .ok (some cc.intoV2)
      | none => .error .proposalDropped
  | .entryConfChangeV2 =>
      match ConfChangeCodec.decodeConfChangeV2 e.data with
      | some cc => .ok (some cc)
      | none => .error .proposalDropped
  | .entryNormal => .ok none

/-- A proposed change is refused while another one is unapplied or when it does not fit the joint
state. -/
def refusesChange (r : Raft) (cc : ConfChangeV2) : Bool :=
  r.hasPendingConf || (joint r.prs.conf && !cc.changes.isEmpty) ||
    (!joint r.prs.conf && cc.changes.isEmpty)

/-- Refused configuration changes of a proposal are replaced by empty entries. -/
def filterProposal [ConfChangeCodec] (r : Raft) : Nat → List Entry → Raft × Except RaftError (List Entry)
  | _, [] => (r, .ok [])
  | i, e :: rest =>
      match proposedChange e with
      | .error error => (r, .error error)
      | .ok change =>
          let (r, e) := match change with
            | none => (r, e)
            | some cc =>
                if r.refusesChange cc then (r, {})
                else ({ r with pendingConfIndex := r.raftLog.lastIndex + i + 1 }, e)
          match r.filterProposal (i + 1) rest with
          | (r, .ok es) => (r, .ok (e :: es))
          | (r, .error error) => (r, .error error)

/-- The leader appends a proposal. -/
def handlePropose [ConfChangeCodec] (r : Raft) (m : Message) : Outcome :=
  if m.entries.isEmpty then .error .emptyProposal
  else if !r.prs.progress.contains r.id then .ok (r, .error .proposalDropped)
  else if r.leadTransferee.isSome then .ok (r, .error .proposalDropped)
  else match r.filterProposal 0 m.entries with
    | (r, .error error) => .ok (r, .error error)
    | (r, .ok entries) => do
        match ← r.appendEntry entries with
        | (r, false) => return (r, .error .proposalDropped)
        | (r, true) =>
            let r ← r.bcastAppend
            return (r, .ok ())

/-- The leader takes a read request once it has committed in its term. -/
def handleReadIndex (r : Raft) (m : Message) : Except Fatal Raft :=
  if !r.commitToCurrentTerm then .ok r
  else if r.prs.isSingleton then r.respondRead m r.raftLog.committed
  else match r.readOnly.option with
    | .safe =>
        match m.entries.head? with
        | none => .error .indexOutOfRange
        | some entry => do
            let readOnly ← r.readOnly.addRequest r.raftLog.committed m r.id
            { r with readOnly }.bcastHeartbeatWithCtx (some entry.data)
    | .leaseBased => r.respondRead m r.raftLog.committed

/-- The leader steps a message. -/
def stepLeader [ConfChangeCodec] (r : Raft) (m : Message) : Outcome :=
  let done (r : Except Fatal Raft) : Outcome := do return (← r, .ok ())
  match m.msgType with
  | .msgBeat => done r.bcastHeartbeat
  | .msgCheckQuorum =>
      match r.checkQuorumActive with
      | (r, true) => .ok (r, .ok ())
      | (r, false) => .ok (r.becomeFollower r.term invalidId, .ok ())
  | .msgPropose => r.handlePropose m
  | .msgReadIndex => done (r.handleReadIndex m)
  | .msgAppendResponse => done (r.handleAppendResponse m)
  | .msgHeartbeatResponse => done (r.handleHeartbeatResponse m)
  | .msgSnapStatus => .ok (r.handleSnapshotStatus m, .ok ())
  | .msgUnreachable => .ok (r.handleUnreachable m, .ok ())
  | .msgTransferLeader => done (r.handleTransferLeader m)
  | _ => .ok (r, .ok ())

end Raft

end RaftRs

import RaftRs.Model.ConfChange
import RaftRs.Model.RaftLog
import RaftRs.Model.ReadOnly

namespace RaftRs

open Library

/-- The context that marks the vote requests of a leader transfer. -/
def campaignTransfer : Bytes :=
  [67, 97, 109, 112, 97, 105, 103, 110, 84, 114, 97, 110, 115, 102, 101, 114]

/-- A campaign asks for pre-votes, for votes, or for votes on behalf of the leader. -/
inductive CampaignType where
  | preElection
  | election
  | transfer
deriving DecidableEq, Repr

/-- The roles of a node. -/
inductive StateRole where
  | follower
  | candidate
  | leader
  | preCandidate
deriving DecidableEq, Repr

/-- The role and the leader that a node shows to its application. -/
structure SoftState where
  leaderId : Nat := 0
  raftState : StateRole := .follower
deriving DecidableEq, Repr

/-- The size of the proposals that are not yet committed. -/
structure UncommittedState where
  maxUncommittedSize : Nat
  uncommittedSize : Nat := 0
  lastLogTailIndex : Nat := 0
deriving DecidableEq, Repr

namespace UncommittedState

def isNoLimit (state : UncommittedState) : Bool := state.maxUncommittedSize == noLimit

/-- Proposals within the limit are counted and others are refused. -/
def maybeIncreaseUncommittedSize (state : UncommittedState) (ents : List Entry) :
    UncommittedState × Bool :=
  if state.isNoLimit then (state, true)
  else
    let size := (ents.map fun ent => ent.data.length).sum
    if size = 0 ∨ state.uncommittedSize = 0 ∨
      size + state.uncommittedSize ≤ state.maxUncommittedSize then
      ({ state with uncommittedSize := state.uncommittedSize + size }, true)
    else (state, false)

/-- Committed proposals of this leader are no longer counted. -/
def maybeReduceUncommittedSize (state : UncommittedState) (ents : List Entry) :
    UncommittedState × Bool :=
  if state.isNoLimit || ents.isEmpty then (state, true)
  else
    let size := ((ents.dropWhile fun ent => ent.index ≤ state.lastLogTailIndex).map
      fun ent => ent.data.length).sum
    if size > state.uncommittedSize then ({ state with uncommittedSize := 0 }, false)
    else ({ state with uncommittedSize := state.uncommittedSize - size }, true)

end UncommittedState

/-- The configuration of a node. -/
structure Config where
  id : Nat
  electionTick : Nat := 20
  heartbeatTick : Nat := 2
  applied : Nat := 0
  maxSizePerMsg : Nat := 0
  maxInflightMsgs : Nat := 256
  checkQuorum : Bool := false
  preVote : Bool := false
  minElectionTick : Nat := 0
  maxElectionTick : Nat := 0
  readOnlyOption : ReadOnlyOption := .safe
  skipBcastCommit : Bool := false
  batchAppend : Bool := false
  priority : Int := 0
  maxUncommittedSize : Nat := noLimit
  maxCommittedSizePerReady : Nat := noLimit
  maxApplyUnpersistedLogLimit : Nat := 0
  disableProposalForwarding : Bool := false
deriving DecidableEq, Repr

namespace Config

def minTimeout (c : Config) : Nat := if c.minElectionTick = 0 then c.electionTick else c.minElectionTick

def maxTimeout (c : Config) :
    Nat := if c.maxElectionTick = 0 then 2 * c.electionTick else c.maxElectionTick

/-- A configuration is checked before a node starts. -/
def validate (c : Config) : Except RaftError Unit :=
  let minTimeout := c.minTimeout
  let maxTimeout := c.maxTimeout
  let electionTick := c.electionTick
  if c.id = invalidId then .error (.configInvalid "invalid node id")
  else if c.heartbeatTick = 0 then .error (.configInvalid "heartbeat tick must greater than 0")
  else if c.electionTick ≤ c.heartbeatTick then
    .error (.configInvalid "election tick must be greater than heartbeat tick")
  else if minTimeout < c.electionTick then
    .error (.configInvalid
      s!"min election tick {minTimeout} must not be less than election_tick {electionTick}")
  else if minTimeout ≥ maxTimeout then
    .error (.configInvalid
      s!"min election tick {minTimeout} should be less than max election tick {maxTimeout}")
  else if c.maxInflightMsgs = 0 then
    .error (.configInvalid "max inflight messages must be greater than 0")
  else if c.readOnlyOption = .leaseBased ∧ !c.checkQuorum then
    .error (.configInvalid "read_only_option == LeaseBased requires check_quorum == true")
  else if c.maxUncommittedSize < c.maxSizePerMsg then
    .error (.configInvalid "max uncommitted size should greater than max_size_per_msg")
  else .ok ()

end Config

/-- The state of a node: its tracker, its outgoing messages and the fields of its core. -/
structure Raft where
  prs : ProgressTracker
  msgs : List Message := []
  term : Nat := 0
  vote : Nat := 0
  id : Nat
  readStates : List ReadState := []
  raftLog : RaftLog
  maxMsgSize : Nat
  pendingRequestSnapshot : Nat := invalidIndex
  state : StateRole := .follower
  promotable : Bool := false
  leaderId : Nat := 0
  leadTransferee : Option Nat := none
  pendingConfIndex : Nat := 0
  readOnly : ReadOnly
  electionElapsed : Nat := 0
  heartbeatElapsed : Nat := 0
  checkQuorum : Bool
  preVote : Bool
  skipBcastCommit : Bool
  batchAppend : Bool
  disableProposalForwarding : Bool
  heartbeatTimeout : Nat
  electionTimeout : Nat
  randomizedElectionTimeout : Nat := 0
  minElectionTimeout : Nat
  maxElectionTimeout : Nat
  priority : Int
  uncommittedState : UncommittedState
  maxCommittedSizePerReady : Nat
  /-- The numbers that the random generator will return. -/
  rng : Nat → Nat

def newMessage (toId : Nat) (msgType : MessageType) (fromId : Nat) : Message := { toId, msgType, fromId }

/-- The priority of a vote request; the old field is capped to the signed range. -/
def getPriority (m : Message) : Int :=
  if m.priority ≠ 0 then m.priority
  else if m.deprecatedPriority < 2 ^ 63 then m.deprecatedPriority else 2 ^ 63 - 1

/-- The message belongs to an election and carries its own term. -/
def MessageType.isCampaign : MessageType → Bool
  | .msgRequestVote | .msgRequestPreVote | .msgRequestVoteResponse | .msgRequestPreVoteResponse => true
  | _ => false

namespace Raft

def hardState (r : Raft) : HardState := { term := r.term, vote := r.vote, commit := r.raftLog.committed }

def softState (r : Raft) : SoftState := { leaderId := r.leaderId, raftState := r.state }

def commitToCurrentTerm (r : Raft) : Bool := r.raftLog.matchTerm r.raftLog.committed r.term

def hasPendingConf (r : Raft) : Bool := r.pendingConfIndex > r.raftLog.applied

def shouldBcastCommit (r : Raft) : Bool := !r.skipBcastCommit || r.hasPendingConf

def abortLeaderTransfer (r : Raft) : Raft := { r with leadTransferee := none }

/-- A message gets the term it must carry. -/
def stampTerm (r : Raft) (m : Message) : Except Fatal Message :=
  if m.msgType.isCampaign then
    if m.term = 0 then .error .invalidMessageTerm else .ok m
  else if m.term ≠ 0 then .error .invalidMessageTerm
  else if m.msgType ≠ .msgPropose ∧ m.msgType ≠ .msgReadIndex then .ok { m with term := r.term }
  else .ok m

/-- A vote request gets the priority of its sender. -/
def stampPriority (r : Raft) (m : Message) : Message :=
  if m.msgType = .msgRequestVote ∨ m.msgType = .msgRequestPreVote then
    { m with
      deprecatedPriority := if r.priority > 0 then r.priority.toNat else m.deprecatedPriority
      priority := r.priority }
  else m

/-- A message is queued for sending. -/
def send (r : Raft) (m : Message) : Except Fatal Raft := do
  let m := if m.fromId = invalidId then { m with fromId := r.id } else m
  let m ← r.stampTerm m
  return { r with msgs := r.msgs ++ [r.stampPriority m] }

/-- A snapshot message is prepared for an active follower. -/
def prepareSendSnapshot (r : Raft) (m : Message) (pr : Progress) :
    Except Fatal (Raft × Option (Message × Progress)) :=
  if !pr.recentActive then .ok (r, none)
  else do
    let (raftLog, result) ← r.raftLog.snapshot pr.pendingRequestSnapshot
    let r := { r with raftLog }
    match result with
    | .error .snapshotTemporarilyUnavailable => return (r, none)
    | .error _ => throw .unexpectedStorageError
    | .ok snapshot =>
        if snapshot.metadata.index = 0 then throw .emptySnapshot
        else return (r, some ({ m with msgType := .msgSnapshot, snapshot },
          pr.becomeSnapshot snapshot.metadata.index))

/-- An append message is prepared with the entries after the next index. -/
def prepareSendEntries (r : Raft) (m : Message) (pr : Progress) (term : Nat) (ents : List Entry) :
    Except Fatal (Message × Progress) :=
  let m :=
    { m with
      msgType := .msgAppend, index := pr.nextIdx - 1, logTerm := term, entries := ents
      commit := r.raftLog.committed }
  match ents.getLast? with
  | none => .ok (m, pr)
  | some last => do
      let pr ← pr.updateState last.index
      return (m, pr)

/-- Entries join the first queued append message to the same node when they continue it. -/
def batchInto (committed toId : Nat) (pr : Progress) (ents : List Entry) :
    List Message → Except Fatal (Option (List Message × Progress))
  | [] => .ok none
  | msg :: rest =>
      if msg.msgType = .msgAppend ∧ msg.toId = toId then
        match ents.getLast? with
        | none => .ok (some ({ msg with commit := committed } :: rest, pr))
        | some last =>
            if isContinuousEnts msg ents then do
              let pr ← pr.updateState last.index
              return some ({ msg with entries := msg.entries ++ ents, commit := committed } :: rest, pr)
            else .ok none
      else do
        match ← batchInto committed toId pr ents rest with
        | none => return none
        | some (rest, pr) => return some (msg :: rest, pr)

/-- The entries are batched into the queued messages. -/
def tryBatching (r : Raft) (toId : Nat) (pr : Progress) (ents : List Entry) :
    Except Fatal (Option (List Message × Progress)) :=
  batchInto r.raftLog.committed toId pr ents r.msgs

/-- A snapshot is sent when it is available. -/
def sendSnapshot (r : Raft) (toId : Nat) (pr : Progress) : Except Fatal (Raft × Progress × Bool) := do
  match ← r.prepareSendSnapshot { toId } pr with
  | (r, none) => return (r, pr, false)
  | (r, some (m, pr)) =>
      let r ← r.send m
      return (r, pr, true)

/-- Entries are sent in a message of their own. -/
def sendEntries (r : Raft) (toId : Nat) (pr : Progress) (term : Nat) (ents : List Entry) :
    Except Fatal (Raft × Progress × Bool) := do
  let (m, pr) ← r.prepareSendEntries { toId } pr term ents
  let r ← r.send m
  return (r, pr, true)

/-- The next entries or a snapshot are sent to a follower that is not paused. -/
def maybeSendAppend (r : Raft) (toId : Nat) (pr : Progress) (allowEmpty : Bool) :
    Except Fatal (Raft × Progress × Bool) :=
  if pr.isPaused then .ok (r, pr, false)
  else if pr.pendingRequestSnapshot ≠ invalidIndex then r.sendSnapshot toId pr
  else do
    let ents ← r.raftLog.entries pr.nextIdx (some r.maxMsgSize) (.sendAppend toId r.term (!allowEmpty))
    let nothing := match ents with
      | .ok ents => ents.isEmpty
      | .error _ => true
    if !allowEmpty && nothing then return (r, pr, false)
    else match r.raftLog.term (pr.nextIdx - 1), ents with
      | .ok term, .ok ents =>
          if r.batchAppend then
            match ← r.tryBatching toId pr ents with
            | some (msgs, pr) => return ({ r with msgs }, pr, true)
            | none => r.sendEntries toId pr term ents
          else r.sendEntries toId pr term ents
      | _, .error .logTemporarilyUnavailable => return (r, pr, false)
      | _, _ => r.sendSnapshot toId pr

/-- Messages with entries are sent as long as the follower takes them. -/
def sendAppendLoop (toId : Nat) : Nat → Raft → Progress → Except Fatal (Raft × Progress)
  | 0, _, _ => .error .diverges
  | fuel + 1, r, pr => do
      match ← r.maybeSendAppend toId pr false with
      | (r, pr, true) => sendAppendLoop toId fuel r pr
      | (r, pr, false) => return (r, pr)

/-- A progress is updated by an action that may send messages to its node. -/
def withProgress (r : Raft) (id : Nat) (action : Raft → Progress → Except Fatal (Raft × Progress)) :
    Except Fatal Raft :=
  match r.prs.get id with
  | none => .error .missing
  | some pr => do
      let (r, pr) ← action r pr
      return { r with prs := r.prs.put id pr }

/-- The next entries are sent to a follower, or an empty message with the commit index. -/
def sendAppend (r : Raft) (toId : Nat) : Except Fatal Raft :=
  r.withProgress toId fun r pr => do
    let (r, pr, _) ← r.maybeSendAppend toId pr true
    return (r, pr)

/-- All entries that a follower takes are sent; every message moves the next index or pauses. -/
def sendAppendAggressively (r : Raft) (toId : Nat) : Except Fatal Raft :=
  r.withProgress toId fun r pr => sendAppendLoop toId (r.raftLog.lastIndex + 2 - pr.nextIdx + 2) r pr

def peers (r : Raft) : List Nat := r.prs.progress.keys.filter fun id => id ≠ r.id

def bcastAppend (r : Raft) : Except Fatal Raft := r.peers.foldlM (fun r id => r.sendAppend id) r

/-- A heartbeat carries the commit index as far as the follower matches. -/
def sendHeartbeat (r : Raft) (toId : Nat) (pr : Progress) (ctx : Option Bytes) : Except Fatal Raft :=
  r.send { toId, msgType := .msgHeartbeat, commit := min pr.matched r.raftLog.committed,
           context := ctx.getD [] }

/-- A heartbeat with a context is sent to all followers. -/
def bcastHeartbeatWithCtx (r : Raft) (ctx : Option Bytes) : Except Fatal Raft :=
  r.peers.foldlM (fun r id => r.withProgress id fun r pr => do
    let r ← r.sendHeartbeat id pr ctx
    return (r, pr)) r

/-- A heartbeat with the latest read context is sent to all followers. -/
def bcastHeartbeat (r : Raft) : Except Fatal Raft :=
  r.bcastHeartbeatWithCtx r.readOnly.lastPendingRequestCtx

def ping (r : Raft) : Except Fatal Raft := if r.state = .leader then r.bcastHeartbeat else .ok r

/-- The commit index moves to the highest index that a quorum acknowledged in the current term. -/
def maybeCommit (r : Raft) : Except Fatal (Raft × Bool) := do
  let mci := r.prs.maximalCommittedIndex.1
  let (raftLog, committed) ← r.raftLog.maybeCommit mci r.term
  let r := { r with raftLog }
  if committed then
    match r.prs.get r.id with
    | none => throw .missingOwn
    | some pr =>
        return ({ r with prs := r.prs.put r.id (pr.updateCommitted r.raftLog.committed) }, true)
  else return (r, false)

/-- Entries get the current term and the indexes after the last one. -/
def assignPositions (term lastIndex : Nat) : List Entry → List Entry
  | [] => []
  | entry :: rest =>
      { entry with term, index := lastIndex + 1 } :: assignPositions term (lastIndex + 1) rest

/-- A leader appends entries unless too much is uncommitted. -/
def appendEntry (r : Raft) (es : List Entry) : Except Fatal (Raft × Bool) :=
  match r.uncommittedState.maybeIncreaseUncommittedSize es with
  | (_, false) => .ok (r, false)
  | (uncommittedState, true) => do
      let raftLog ← r.raftLog.append (assignPositions r.term r.raftLog.lastIndex es)
      return ({ r with uncommittedState, raftLog }, true)

/-- The joint configuration is left by an empty change once its entry is applied. -/
def autoLeave (r : Raft) (oldApplied applied : Nat) : Except Fatal Raft :=
  if r.prs.conf.autoLeave && oldApplied ≤ r.pendingConfIndex && applied ≥ r.pendingConfIndex &&
      r.state = .leader then do
    match ← r.appendEntry [{ entryType := .entryConfChangeV2 }] with
    | (r, true) => return { r with pendingConfIndex := r.raftLog.lastIndex }
    | (_, false) => throw .invalidTransition
  else .ok r

/-- The applied index moves; at the start of a node it is not checked. -/
def commitApplyInternal (r : Raft) (applied : Nat) (skipCheck : Bool) : Except Fatal Raft := do
  let oldApplied := r.raftLog.applied
  let raftLog ← if skipCheck then pure (r.raftLog.appliedToUnchecked applied)
    else r.raftLog.appliedTo applied
  { r with raftLog }.autoLeave oldApplied applied

def commitApply (r : Raft) (applied : Nat) : Except Fatal Raft := r.commitApplyInternal applied false

/-- A new election timeout is drawn from the configured range, which the validation keeps
nonempty. -/
def resetRandomizedElectionTimeout (r : Raft) : Raft :=
  { r with
    randomizedElectionTimeout :=
      r.minElectionTimeout + r.rng 0 % (r.maxElectionTimeout - r.minElectionTimeout)
    rng := fun n => r.rng (n + 1) }

/-- The progress of every node restarts after the last index. -/
def resetProgress (r : Raft) : Raft :=
  { r with
    prs :=
      { r.prs with
        progress := r.prs.progress.mapValues fun id pr =>
          let pr := pr.reset (r.raftLog.lastIndex + 1)
          if id = r.id then
            { pr with matched := r.raftLog.persisted, committedIndex := r.raftLog.committed }
          else pr } }

/-- The node enters a term; a new term forgets the vote. -/
def reset (r : Raft) (term : Nat) : Raft :=
  let r := if r.term ≠ term then { r with term, vote := invalidId } else r
  let r := { r with leaderId := invalidId }
  let r := r.resetRandomizedElectionTimeout
  let r := { r with electionElapsed := 0, heartbeatElapsed := 0 }
  let r := r.abortLeaderTransfer
  let r :=
    { r with
      prs := r.prs.resetVotes
      pendingConfIndex := 0
      readOnly := ReadOnly.new r.readOnly.option
      pendingRequestSnapshot := invalidIndex }
  r.resetProgress

/-- The node follows a leader of a term; its own snapshot request stays pending. -/
def becomeFollower (r : Raft) (term leaderId : Nat) : Raft :=
  let pendingRequestSnapshot := r.pendingRequestSnapshot
  let r := r.reset term
  { r with
    leaderId, state := .follower, pendingRequestSnapshot
    raftLog := { r.raftLog with maxApplyUnpersistedLogLimit := 0 } }

/-- The node votes for itself in the next term. -/
def becomeCandidate (r : Raft) : Except Fatal Raft :=
  if r.state = .leader then .error .invalidTransition
  else do
    let r := r.reset (← checkedAdd r.term 1)
    return { r with vote := r.id, state := .candidate }

/-- The node asks for pre-votes and keeps its term and its vote. -/
def becomePreCandidate (r : Raft) : Except Fatal Raft :=
  if r.state = .leader then .error .invalidTransition
  else .ok { r with state := .preCandidate, prs := r.prs.resetVotes, leaderId := invalidId }

/-- The node leads its term and appends an empty entry. -/
def becomeLeader (r : Raft) : Except Fatal Raft := do
  if r.state = .follower then throw .invalidTransition
  else
    let r := r.reset r.term
    let r := { r with leaderId := r.id, state := .leader }
    let lastIndex := r.raftLog.lastIndex
    if lastIndex ≠ r.raftLog.persisted then throw (.unpersistedLeader lastIndex r.raftLog.persisted)
    else
      let r := { r with
        uncommittedState :=
          { r.uncommittedState with uncommittedSize := 0, lastLogTailIndex := lastIndex } }
      match r.prs.get r.id with
      | none => throw .missingWinner
      | some pr =>
          let r := { r with prs := r.prs.put r.id pr.becomeReplicate, pendingConfIndex := lastIndex }
          match ← r.appendEntry [{}] with
          | (r, true) => return r
          | (_, false) => throw .invalidTransition

/-- Persisted entries count as acknowledged by the leader itself. -/
def onPersistEntries (r : Raft) (index term : Nat) : Except Fatal Raft := do
  let (raftLog, update) := r.raftLog.maybePersist index term
  let r := { r with raftLog }
  if update && r.state = .leader then
    match r.prs.get r.id with
    | none => throw .missingOwn
    | some pr =>
        let (pr, updated) ← pr.maybeUpdate index
        let r := { r with prs := r.prs.put r.id pr }
        if updated then
          let (r, committed) ← r.maybeCommit
          if committed && r.shouldBcastCommit then r.bcastAppend else return r
        else return r
  else return r

/-- A persisted snapshot moves the persisted index. -/
def onPersistSnap (r : Raft) (index : Nat) : Except Fatal Raft := do
  let (raftLog, _) ← r.raftLog.maybePersistSnap index
  return { r with raftLog }

/-- A leader takes committed entries off its uncommitted size. -/
def reduceUncommittedSize (r : Raft) (ents : List Entry) : Raft :=
  if r.state ≠ .leader then r
  else { r with uncommittedState := (r.uncommittedState.maybeReduceUncommittedSize ents).1 }

end Raft

end RaftRs

import RaftRs.Act.Agreement
import RaftRs.Act.Core

namespace RaftRs

open Library

/-- What a call of a node may use. -/
inductive Input where
  /-- A stepped message. -/
  | message (m : Message)
  /-- A report that the entries up to a position are persisted. -/
  | persisted (index term : Nat)
  /-- A report that a snapshot is persisted. -/
  | persistedSnap (index : Nat)
  /-- An applied configuration change. -/
  | confChange (cc : ConfChangeV2)
  /-- A request for a snapshot. -/
  | requestSnapshot
  /-- A changed bound for applying unpersisted entries. -/
  | limit (size : Nat)
  /-- A changed batching mode. -/
  | batching (enabled : Bool)
  /-- A report that the entries up to an index are applied. -/
  | applied (index : Nat)
  /-- The permission to win an election. -/
  | election
  /-- The permission to campaign in every case. -/
  | campaign
  /-- The term of a node that asks for pre-votes before the call. -/
  | started (term : Nat)
  /-- The term of a leader that the node follows before the call. -/
  | leader (term : Nat)
  /-- The configuration of the node before the call. -/
  | configured (conf : Configuration)
  /-- A changed priority. -/
  | priority (priority : Int)

/-- An input that comes from the node and its storage alone. -/
def Input.Internal : Input → Prop
  | .persisted _ _ | .persistedSnap _ | .applied _ | .started _ | .leader _ | .configured _ => True
  | _ => False

/-- A message asks for a vote or a pre-vote. -/
def Message.IsVoteRequest (m : Message) : Prop :=
  m.msgType = .msgRequestVote ∨ m.msgType = .msgRequestPreVote

/-- A message answers a vote or pre-vote request. -/
def Message.IsVoteResponse (m : Message) : Prop :=
  m.msgType = .msgRequestVoteResponse ∨ m.msgType = .msgRequestPreVoteResponse

/-- A message may let its receiver win an election. -/
def Message.Elects (m : Message) : Prop :=
  m.msgType = .msgHup ∨ m.msgType = .msgTimeoutNow ∨ m.IsVoteResponse

/-- The answer of a follower to a message that it has accepted. -/
def Core.ackFor (c : Core) (m : Message) (index commit : Nat) : Message :=
  { msgType := .msgAppendResponse, toId := m.fromId, fromId := c.id, term := c.term, index, commit }

/-- A message has the term of the node or none. -/
def Core.Hears (c : Core) (m : Message) : Prop := m.term = c.term ∨ m.term = 0

/-- The receiver of a message of a leader is another node or the sender of a stepped response. -/
def Addressee (inp : Input → Prop) (c : Core) (toId : Nat) : Prop :=
  toId ≠ c.id ∨ ∃ m, inp (.message m) ∧ m.fromId = toId ∧
    (m.msgType = .msgAppendResponse ∨ m.msgType = .msgHeartbeatResponse)

/-- A node may start a campaign. -/
def Core.Eligible (inp : Input → Prop) (c : Core) : Prop := c.promotable = true ∨ inp .campaign

/-- A campaign of a node skips the pre-votes. -/
def Core.Direct (inp : Input → Prop) (c : Core) : Prop :=
  c.preVote = false ∨ ∃ m, inp (.message m) ∧ m.msgType = .msgTimeoutNow

/-- A quorum has voted for a node. -/
def Core.Won (c : Core) : Prop := c.conf.voters.Agrees fun id => c.votes id = some true

/-- The messages that a node may queue without another change of its core. -/
inductive Sends (inp : Input → Prop) (c : Core) : Message → Prop where
  | voteRequest {toId commit commitTerm logTerm deprecatedPriority : Nat} {priority : Int}
      {context : Bytes} (role : c.state = .candidate) (other : toId ≠ c.id)
      (info : c.log.commitInfo = .ok (commit, commitTerm)) (last : c.log.lastTerm = .ok logTerm) :
      Sends inp c { msgType := .msgRequestVote, toId, fromId := c.id, term := c.term,
                    index := c.log.lastIndex
                    logTerm, commit, commitTerm, context, deprecatedPriority, priority }
  | preVoteRequest {toId commit commitTerm logTerm deprecatedPriority : Nat} {priority : Int}
      {context : Bytes} (role : c.state = .preCandidate) (other : toId ≠ c.id)
      (info : c.log.commitInfo = .ok (commit, commitTerm)) :
      Sends inp c { msgType := .msgRequestPreVote, toId, fromId := c.id, term := c.term + 1
                    index := c.log.lastIndex, logTerm, commit, commitTerm, context,
                      deprecatedPriority, priority }
  | preVoteGrant {m : Message} (stepped : inp (.message m)) (kind : m.msgType = .msgRequestPreVote) :
      Sends inp c { msgType := .msgRequestPreVoteResponse, toId := m.fromId, fromId := c.id,
                    term := m.term }
  | voteReject {m : Message} {commit commitTerm : Nat} (stepped : inp (.message m))
      (kind : m.IsVoteRequest) (nonzero : c.term ≠ 0)
      (info : c.log.commitInfo = .ok (commit, commitTerm)) :
      Sends inp c { msgType := Raft.voteRespMsgType m.msgType, toId := m.fromId, fromId := c.id,
                    term := c.term
                    reject := true, commit, commitTerm }
  | stalePreVote {m : Message} (stepped : inp (.message m)) (kind : m.msgType = .msgRequestPreVote)
      (stale : m.term < c.term) :
      Sends inp c { msgType := .msgRequestPreVoteResponse, toId := m.fromId, fromId := c.id,
                    term := c.term
                    reject := true }
  | staleAppend {m : Message} (stepped : inp (.message m))
      (kind : m.msgType = .msgHeartbeat ∨ m.msgType = .msgAppend) (stale : m.term < c.term) :
      Sends inp c (c.ackFor m 0 0)
  | append {toId logTerm : Nat} {pos : Position} {ents : List Entry} {maxSize : Option Nat}
      {context : GetEntriesFor} (role : c.state = .leader) (other : Addressee inp c toId)
      (known : c.positions toId = some pos) (term : c.log.term (pos.nextIdx - 1) = .ok logTerm)
      (read : c.log.entries pos.nextIdx maxSize context = .ok (.ok ents)) :
      Sends inp c { msgType := .msgAppend, toId, fromId := c.id, term := c.term,
                    index := pos.nextIdx - 1, logTerm
                    entries := ents, commit := c.log.committed }
  | heartbeat {toId : Nat} {pos : Position} {context : Bytes} (role : c.state = .leader)
      (other : toId ≠ c.id) (known : c.positions toId = some pos)
      (pending : context = [] ∨ context ∈ c.readOnly.readIndexQueue ∨
        (c.readOnly.pendingReadIndex.get? context).isSome) :
      Sends inp c { msgType := .msgHeartbeat, toId, fromId := c.id, term := c.term
                    commit := min pos.matched c.log.committed, context }
  | timeoutNow {toId : Nat} (role : c.state = .leader) :
      Sends inp c { msgType := .msgTimeoutNow, toId, fromId := c.id, term := c.term }
  | heartbeatResponse {m : Message} (stepped : inp (.message m)) (kind : m.msgType = .msgHeartbeat)
      (heard : c.Hears m) (role : c.state = .follower) :
      Sends inp c { msgType := .msgHeartbeatResponse, toId := m.fromId, fromId := c.id, term := c.term
                    context := m.context, commit := c.log.committed }
  | appendReject {m : Message} {rejectHint logTerm : Nat} (stepped : inp (.message m))
      (kind : m.msgType = .msgAppend) :
      Sends inp c { msgType := .msgAppendResponse, toId := m.fromId, fromId := c.id, term := c.term
                    index := m.index, reject := true, rejectHint, logTerm, commit := c.log.committed }
  | snapshotRequest {toId rejectHint logTerm : Nat}
      (asked : c.pendingRequestSnapshot ≠ invalidIndex ∨ inp .requestSnapshot) :
      Sends inp c { msgType := .msgAppendResponse, toId, fromId := c.id, term := c.term
                    index := c.log.committed, reject := true, rejectHint, logTerm
                    requestSnapshot := c.pendingRequestSnapshot }
  | floorAck {m : Message} {commit : Nat} (stepped : inp (.message m))
      (kind : (m.msgType = .msgAppend ∧ m.index < c.log.committed) ∨ m.msgType = .msgSnapshot)
      (heard : c.Hears m) (role : c.state = .follower) :
      Sends inp c (c.ackFor m c.log.committed commit)
  | forward {m : Message} {toId fromId term : Nat} (stepped : inp (.message m))
      (role : c.state = .follower)
      (kind : (m.msgType = .msgPropose ∧ term = 0) ∨ (m.msgType = .msgReadIndex ∧ term = 0) ∨
        (m.msgType = .msgTransferLeader ∧ term = c.term)) :
      Sends inp c { m with toId, fromId, term }

/-- The bounds that a changed position of a follower keeps. -/
structure Moves (inp : Input → Prop) (c : Core) (pos pos' : Position) : Prop where
  matched : pos'.matched = pos.matched
  next : pos'.nextIdx ≤
    max (max pos.nextIdx (pos.matched + 1)) (max (pos.pendingSnapshot + 1) (c.log.lastIndex + 1))
  snapshot : pos'.pendingSnapshot = pos.pendingSnapshot ∨ pos'.pendingSnapshot = 0
  request : pos'.pendingRequestSnapshot = pos.pendingRequestSnapshot ∨ pos'.pendingRequestSnapshot = 0 ∨
    ∃ m, inp (.message m) ∧ m.msgType = .msgAppendResponse ∧
      pos'.pendingRequestSnapshot = m.requestSnapshot

/-- An acknowledged index raises the positions of a node. -/
def Position.raise (pos : Position) (index : Nat) : Position :=
  { pos with matched := max pos.matched index, nextIdx := max pos.nextIdx (index + 1) }

/-- A leader counts its own persisted entries. -/
def Core.countOwn (c : Core) (index : Nat) : Core :=
  if c.state = .leader then
    match c.positions c.id with
    | some pos => c.at' c.id (pos.raise index)
    | none => c
  else c

theorem Core.countOwn_rest (c : Core) (index : Nat) :
    c.countOwn index = { c with positions := (c.countOwn index).positions } := by
  unfold countOwn
  split
  · split <;> rfl
  · rfl

/-- An answered read changes only the messages and the read states. -/
theorem Core.respond_rest (c : Core) (req : Message) (index : Nat) :
    ∃ msgs readStates, c.respond req index = { c with msgs, readStates } := by
  unfold respond
  split
  · split
    · exact ⟨c.msgs, c.readStates, rfl⟩
    · exact ⟨_, _, rfl⟩
  · exact ⟨_, _, rfl⟩

/-- Answered reads change only the messages and the read states. -/
theorem Core.responds_rest (c : Core) (confirmed : List ReadIndexStatus) :
    ∃ msgs readStates, confirmed.foldl (fun c rs => c.respond rs.req rs.index) c = { c with
      msgs, readStates } := by
  induction confirmed generalizing c with
  | nil => exact ⟨c.msgs, c.readStates, rfl⟩
  | cons status rest ih =>
      obtain ⟨_, _, first⟩ := c.respond_rest status.req status.index
      obtain ⟨msgs, readStates, later⟩ := ih (c.respond status.req status.index)
      refine ⟨msgs, readStates, ?_⟩
      rw [List.foldl_cons, later, first]

/-- The atomic changes of a core. -/
inductive Act (inp : Input → Prop) (c : Core) : Core → Prop where
  | send {m : Message} (sends : Sends inp c m) : Act inp c (c.push m)
  | bump {m : Message} (stepped : inp (.message m)) (later : c.term < m.term) :
      Act inp c (c.asFollower m.term)
  | stepDown : Act inp c (c.asFollower c.term)
  | campaign (may : inp .election) (role : c.state ≠ .leader)
      (cause : (c.Eligible inp ∧ c.Direct inp) ∨ (c.state = .preCandidate ∧ c.Won)) :
      Act inp c c.asCandidate
  | preCampaign (may : inp .election) (role : c.state ≠ .leader) (eligible : c.Eligible inp) :
      Act inp c c.asPreCandidate
  | countSelf : Act inp c (c.count c.id true)
  | countVote {m : Message} (stepped : inp (.message m)) (kind : m.IsVoteResponse)
      (campaign : (c.state = .preCandidate ∧ m.msgType = .msgRequestPreVoteResponse ∧
        inp (.started c.term) ∧
          (m.term ≠ 0 → c.term ≤ m.term)) ∨
            (c.state = .candidate ∧ m.msgType = .msgRequestVoteResponse ∧ c.Hears m)) :
      Act inp c (c.count m.fromId (!m.reject))
  | lead (may : inp .election) (role : c.state = .candidate) (won : c.Won)
      (settled : c.log.lastIndex = c.log.persisted) (known : (c.positions c.id).isSome = true) :
      Act inp c c.asLeader
  | reserve {index : Nat} (role : c.state = .leader) (free : c.pendingConfIndex ≤ c.log.applied)
      (beyond : c.log.lastIndex < index) : Act inp c { c with pendingConfIndex := index }
  | grow {es : List Entry} {log : RaftLog} (role : c.state = .leader)
      (admitted : ∀ e ∈ Raft.assignPositions c.term c.log.lastIndex es, e.entryType ≠ .entryNormal →
        c.log.applied < e.index → e.index = c.pendingConfIndex)
      (done : c.log.append (Raft.assignPositions c.term c.log.lastIndex es) = .ok log)
      (source : inp .election ∨ ∃ m, inp (.message m) ∧ m.msgType = .msgPropose) :
      Act inp c { c with log }
  | leave {log : RaftLog} (role : c.state = .leader) (free : c.pendingConfIndex ≤ c.log.applied)
      (done : c.log.append
        (Raft.assignPositions c.term c.log.lastIndex [{ entryType := .entryConfChangeV2 }]) =
        .ok log) (given : ∃ index, inp (.applied index)) :
      Act inp c { c with log, pendingConfIndex := log.lastIndex }
  | grant {m : Message} (stepped : inp (.message m)) (kind : m.msgType = .msgRequestVote)
      (term : m.term = c.term) (nonzero : m.term ≠ 0)
      (free : c.vote = m.fromId ∨ c.vote = invalidId)
      (complete : c.log.isUpToDate m.index m.logTerm = .ok true) :
      Act inp c { c with
        vote := m.fromId
        msgs := c.msgs ++
          [{ msgType := .msgRequestVoteResponse, toId := m.fromId, fromId := c.id, term := m.term }] }
  | accept {m : Message} {log : RaftLog} {conflict last : Nat} (stepped : inp (.message m))
      (kind : m.msgType = .msgAppend) (heard : c.Hears m) (role : c.state = .follower)
      (unasked : c.pendingRequestSnapshot = invalidIndex) (above : c.log.committed ≤ m.index)
      (done : c.log.maybeAppend m.index m.logTerm m.commit m.entries =
        .ok (log, some (conflict, last))) :
      Act inp c { c with log, msgs := c.msgs ++ [c.ackFor m last log.committed] }
  | heartbeat {m : Message} {log : RaftLog} (stepped : inp (.message m))
      (kind : m.msgType = .msgHeartbeat) (heard : c.Hears m) (role : c.state = .follower)
      (done : c.log.commitTo m.commit = .ok log) :
      Act inp c { c with log }
  | restore {m : Message} {log : RaftLog} {conf : Configuration} {positions : Nat → Option Position}
      {votes : Nat → Option Bool}
      (stepped : inp (.message m)) (kind : m.msgType = .msgSnapshot) (heard : c.Hears m)
      (role : c.state = .follower)
      (fresh : c.pendingRequestSnapshot ≠ invalidIndex ∨
        c.log.matchTerm m.snapshot.metadata.index m.snapshot.metadata.term = false)
      (done : c.log.restore m.snapshot = .ok log)
      (same : confStateEq m.snapshot.metadata.confState conf.toConfState = true)
      (rostered : Rostered conf positions) :
      Act inp c { c with
        log, conf, positions, votes, pendingRequestSnapshot := invalidIndex
        promotable := conf.voters.contains c.id
        msgs := c.msgs ++ [c.ackFor m log.lastIndex 0] }
  | fastForward {m : Message} {log : RaftLog} (stepped : inp (.message m))
      (kind : m.msgType = .msgSnapshot) (heard : c.Hears m) (role : c.state = .follower)
      (agrees : c.log.matchTerm m.snapshot.metadata.index m.snapshot.metadata.term = true)
      (done : c.log.commitTo m.snapshot.metadata.index = .ok log) : Act inp c { c with log }
  | commitByVote {m : Message} {log : RaftLog} (stepped : inp (.message m))
      (kind : m.IsVoteRequest ∨ m.IsVoteResponse) (role : c.state ≠ .leader)
      (positive : m.commitTerm ≠ 0)
      (done : c.log.maybeCommit m.commit m.commitTerm = .ok (log, true)) : Act inp c { c with log }
  | commitByRead {m : Message} {log : RaftLog} (stepped : inp (.message m))
      (kind : m.msgType = .msgReadIndexResp) (heard : c.Hears m) (role : c.state = .follower)
      (done : c.log.maybeCommit m.index m.term = .ok (log, true)) : Act inp c { c with log }
  | commitByQuorum {i : Nat} {log : RaftLog} (role : c.state = .leader)
      (acked : c.conf.voters.Agrees fun id => ∃ pos, c.positions id = some pos ∧ i ≤ pos.matched)
      (done : c.log.maybeCommit i c.term = .ok (log, true)) : Act inp c { c with log }
  | acknowledge {m : Message} {pos : Position} (stepped : inp (.message m))
      (kind : m.msgType = .msgAppendResponse) (accepted : m.reject = false) (heard : c.Hears m)
      (role : c.state = .leader) (known : c.positions m.fromId = some pos) :
      Act inp c (c.at' m.fromId (pos.raise m.index))
  | move {id : Nat} {pos pos' : Position} (known : c.positions id = some pos)
      (moves : Moves inp c pos pos') :
      Act inp c (c.at' id pos')
  | sent {toId : Nat} {pos : Position} {ents : List Entry} {last : Entry} {maxSize : Option Nat}
      {context : GetEntriesFor} (known : c.positions toId = some pos)
      (read : c.log.entries pos.nextIdx maxSize context = .ok (.ok ents))
      (ends : ents.getLast? = some last) :
      Act inp c (c.at' toId { pos with nextIdx := last.index + 1 })
  | sendSnapshot {toId : Nat} {pos : Position} {snapshot : Snapshot} (role : c.state = .leader)
      (other : Addressee inp c toId) (known : c.positions toId = some pos)
      (taken : c.log.snapshot pos.pendingRequestSnapshot = .ok (c.log, .ok snapshot))
      (nonempty : snapshot.metadata.index ≠ 0) :
      Act inp c ((c.push { msgType := .msgSnapshot, toId, fromId := c.id, term := c.term,
                           snapshot }).at' toId
        { pos with pendingSnapshot := snapshot.metadata.index })
  | batch {toId : Nat} {pos : Position} {before after : List Message} {msg : Message} {ents : List Entry}
      {maxSize : Option Nat} {context : GetEntriesFor} (role : c.state = .leader)
      (enabled : c.batchAppend = true) (known : c.positions toId = some pos)
      (read : c.log.entries pos.nextIdx maxSize context = .ok (.ok ents))
      (queued : c.msgs = before ++ msg :: after) (kind : msg.msgType = .msgAppend)
      (receiver : msg.toId = toId) (continuous : ents = [] ∨ isContinuousEnts msg ents = true) :
      Act inp c { c with
        msgs := before ++ { msg with entries := msg.entries ++ ents, commit := c.log.committed } ::
          after }
  | persist {index term : Nat} {log : RaftLog} (reported : inp (.persisted index term))
      (done : c.log.maybePersist index term = (log, true)) : Act inp c ({ c with log }.countOwn index)
  | persistSnap {index : Nat} {log : RaftLog} {moved : Bool} (reported : inp (.persistedSnap index))
      (done : c.log.maybePersistSnap index = .ok (log, moved)) : Act inp c { c with log }
  | apply {index : Nat} {log : RaftLog} (given : inp (.applied index))
      (done : c.log.appliedTo index = .ok log) : Act inp c { c with log }
  | trigger {triggerSnapUnavailable triggerLogUnavailable : Bool} :
      Act inp c { c with
        log := { c.log with
          store := { c.log.store with triggerSnapUnavailable, triggerLogUnavailable } } }
  | limit {maxApplyUnpersistedLogLimit : Nat} (set : inp (.limit maxApplyUnpersistedLogLimit)) :
      Act inp c { c with log := { c.log with maxApplyUnpersistedLogLimit } }
  | batching {batchAppend : Bool} (set : inp (.batching batchAppend)) : Act inp c { c with batchAppend }
  | reconfigure {cc : ConfChangeV2} {conf : Configuration} {positions : Nat → Option Position}
      (changed : inp (.confChange cc)) (current : inp (.configured c.conf))
      (kept : Rostered c.conf c.positions → Rostered conf positions ∧
        (∀ id, c.conf.voters.contains id = true → cc.membershipChange.Retains c.conf id →
          conf.voters.contains id = true) ∧
        ∀ id, c.conf.Member id → cc.membershipChange.Keeps c.conf id → conf.Member id)
      (tracked : ∀ id pos, positions id = some pos → c.positions id = some pos ∨
        pos = { nextIdx := c.log.lastIndex }) :
      Act inp c { c with conf, positions, promotable := conf.voters.contains c.id }
  | prioritise {priority : Int} (set : inp (.priority priority)) : Act inp c { c with priority }
  | askSnapshot (asked : inp .requestSnapshot) (role : c.state ≠ .leader)
      (none : c.log.unstable.snapshot = none) (unasked : c.pendingRequestSnapshot = invalidIndex)
      (current : c.log.term c.log.lastIndex = .ok c.term) :
      Act inp c { c with pendingRequestSnapshot := c.log.lastIndex }
  | addRead {m : Message} {readOnly : ReadOnly} (stepped : inp (.message m))
      (kind : m.msgType = .msgReadIndex) (role : c.state = .leader)
      (current : c.log.matchTerm c.log.committed c.term = true)
      (done : c.readOnly.addRequest c.log.committed m c.id = .ok readOnly) :
      Act inp c { c with readOnly }
  | ackRead {id : Nat} {ctx : Bytes} (role : c.state = .leader)
      (source : (∃ m, inp (.message m) ∧ m.msgType = .msgHeartbeatResponse ∧ m.fromId = id ∧
        m.context = ctx ∧
        c.Hears m) ∨ ∃ cc, inp (.confChange cc)) :
        Act inp c { c with readOnly := (c.readOnly.recvAck id ctx).1 }
  | confirm {ctx : Bytes} {status : ReadIndexStatus} {readOnly : ReadOnly}
      {confirmed : List ReadIndexStatus} (role : c.state = .leader)
      (pending : c.readOnly.pendingReadIndex.get? ctx = some status)
      (acked : c.conf.voters.Agrees fun id => id ∈ status.acks.elems)
      (done : c.readOnly.advance ctx = .ok (readOnly, confirmed)) :
      Act inp c (confirmed.foldl (fun c rs => c.respond rs.req rs.index) { c with readOnly })
  | respondNow {m : Message} (stepped : inp (.message m)) (kind : m.msgType = .msgReadIndex)
      (role : c.state = .leader)
      (immediate : c.conf.voters.isSingleton = true ∨ c.readOnly.option = .leaseBased) :
      Act inp c (c.respond m c.log.committed)
  | learnRead {m : Message} {entry : Entry} (stepped : inp (.message m))
      (kind : m.msgType = .msgReadIndexResp) (heard : c.Hears m) (role : c.state = .follower)
      (single : m.entries = [entry]) :
      Act inp c { c with readStates := c.readStates ++ [{ index := m.index, requestCtx := entry.data }] }

/-- A sequence of atomic changes. -/
abbrev Acts (inp : Input → Prop) : Core → Core → Prop := Relation.ReflTransGen (Act inp)

/-- The failures of the commit rules, of the terms of messages, of a leader that lacks progress or
entries and of the inflight windows. -/
def Fatal.IsTraced : Fatal → Prop
  | .entryConflict _ _ => True
  | .toCommitOutOfRange _ _ => True
  | .missingOwn => True
  | .missingWinner => True
  | .unpersistedLeader _ _ => True
  | .invalidMessageTerm => True
  | .inflightsFull => True
  | .updateStateInSnapshot => True
  | _ => False

/-- The states in which a traced failure happens. -/
inductive Faults (inp : Input → Prop) (c : Core) (e : Fatal) : Prop where
  | append {m : Message} (stepped : inp (.message m)) (kind : m.msgType = .msgAppend) (heard : c.Hears m)
      (role : c.state = .follower) (above : c.log.committed ≤ m.index)
      (failed : c.log.maybeAppend m.index m.logTerm m.commit m.entries = .error e)
  | heartbeat {m : Message} (stepped : inp (.message m)) (kind : m.msgType = .msgHeartbeat)
      (heard : c.Hears m) (role : c.state = .follower) (failed : c.log.commitTo m.commit = .error e)
  | fastForward {m : Message} (stepped : inp (.message m)) (kind : m.msgType = .msgSnapshot)
      (agrees : c.log.matchTerm m.snapshot.metadata.index m.snapshot.metadata.term = true)
      (failed : c.log.commitTo m.snapshot.metadata.index = .error e)
  | commitByVote {m : Message} (stepped : inp (.message m)) (positive : m.commitTerm ≠ 0)
      (failed : c.log.maybeCommit m.commit m.commitTerm = .error e)
  | commitByRead {m : Message} (stepped : inp (.message m)) (kind : m.msgType = .msgReadIndexResp)
      (heard : c.Hears m) (failed : c.log.maybeCommit m.index m.term = .error e)
  | commitByQuorum {i : Nat} (role : c.state = .leader) (failed : c.log.maybeCommit i c.term = .error e)
  | missingOwn (role : c.state = .leader) (absent : c.positions c.id = none) (failed : e = .missingOwn)
  | missingWinner (may : inp .election) (role : c.state = .candidate) (won : c.Won)
      (absent : c.positions c.id = none) (failed : e = .missingWinner)
  | untermedVote {m : Message} (stepped : inp (.message m)) (kind : m.IsVoteRequest) (zero : m.term = 0)
      (failed : e = .invalidMessageTerm)
  | refuseUntermed {m : Message} (stepped : inp (.message m)) (kind : m.msgType = .msgRequestPreVote)
      (zero : c.term = 0) (later : m.term ≠ 0)
      (refused : c.log.isUpToDate m.index m.logTerm = .ok true →
        m.index ≤ c.log.lastIndex ∧ getPriority m < c.priority)
      (failed : e = .invalidMessageTerm)
  | forwardTermed {m : Message} (stepped : inp (.message m)) (role : c.state = .follower)
      (kind : m.msgType = .msgPropose ∨ m.msgType = .msgReadIndex ∨ m.msgType = .msgTransferLeader)
      (termed : m.term ≠ 0) (known : inp (.leader m.term)) (failed : e = .invalidMessageTerm)
  | unpersisted (may : inp .election) (role : c.state = .candidate) (won : c.Won)
      (unsettled : c.log.lastIndex ≠ c.log.persisted)
      (failed : e = .unpersistedLeader c.log.lastIndex c.log.persisted)

end RaftRs

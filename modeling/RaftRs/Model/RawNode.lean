import RaftRs.Model.Step

namespace RaftRs

open Library

/-- The messages that only a node itself steps. -/
def isLocalMsg : MessageType → Bool
  | .msgHup | .msgBeat | .msgUnreachable | .msgSnapStatus | .msgCheckQuorum => true
  | _ => false

/-- The messages that answer a request. -/
def isResponseMsg : MessageType → Bool
  | .msgAppendResponse | .msgRequestVoteResponse | .msgHeartbeatResponse | .msgUnreachable
  | .msgRequestPreVoteResponse => true
  | _ => false

/-- The committed entries and messages that need no persistence. -/
structure LightReady where
  commitIndex : Option Nat := none
  committedEntries : List Entry := []
  messages : List Message := []
deriving DecidableEq, Repr

/-- The state to persist, the entries to apply and the messages to send. -/
structure Ready where
  number : Nat
  ss : Option SoftState := none
  hs : Option HardState := none
  readStates : List ReadState := []
  entries : List Entry := []
  snapshot : Snapshot := {}
  isPersistedMsg : Bool := false
  light : LightReady := {}
  mustSync : Bool := false
deriving DecidableEq, Repr

def Ready.messages (rd : Ready) : List Message := if rd.isPersistedMsg then [] else rd.light.messages

/-- The messages that may be sent after the Ready is persisted. -/
def Ready.persistedMessages (rd : Ready) :
    List Message := if rd.isPersistedMsg then rd.light.messages else []

def Ready.committedEntries (rd : Ready) : List Entry := rd.light.committedEntries

/-- The last positions that a Ready hands out for persistence. -/
structure ReadyRecord where
  number : Nat
  lastEntry : Option (Nat × Nat) := none
  snapshot : Option (Nat × Nat) := none
deriving DecidableEq, Repr

/-- The node with the bookkeeping of its Readys. -/
structure RawNode where
  raft : Raft
  prevSs : SoftState
  prevHs : HardState
  maxNumber : Nat := 0
  records : List ReadyRecord := []
  commitSinceIndex : Nat

namespace RawNode

/-- A node is created from its storage. -/
def new (config : Config) (store : MemStorage) (rng : Nat → Nat) :
    Except Fatal (Except RaftError RawNode) :=
  if config.id = 0 then .error .invalidConfiguration
  else do
    match ← Raft.new config store rng with
    | .error error => return .error error
    | .ok raft =>
        return .ok
          { raft, prevHs := raft.hardState, prevSs := raft.softState,
            commitSinceIndex := config.applied }

section Calls

variable [ConfChangeCodec]

/-- A message steps the node and its result is returned. -/
def stepRaft (rn : RawNode) (m : Message) (debugAssertions : Bool := true) :
    Except Fatal (RawNode × Except RaftError Unit) := do
  let (raft, result) ← rn.raft.step m debugAssertions
  return ({ rn with raft }, result)

/-- The clock of the node advances. -/
def tick (rn : RawNode) (debugAssertions : Bool := true) : Except Fatal (RawNode × Bool) := do
  let (raft, hasReady) ← rn.raft.tick debugAssertions
  return ({ rn with raft }, hasReady)

def campaign (rn : RawNode) (debugAssertions : Bool := true) :
    Except Fatal (RawNode × Except RaftError Unit) :=
  rn.stepRaft { msgType := .msgHup } debugAssertions

def propose (rn : RawNode) (context data : Bytes) (debugAssertions : Bool := true) :
    Except Fatal (RawNode × Except RaftError Unit) :=
  rn.stepRaft { msgType := .msgPropose, fromId := rn.raft.id, entries := [{ data, context }] }
    debugAssertions

/-- An encoded configuration change is proposed. -/
def proposeConfChange (rn : RawNode) (context : Bytes) (cc : ConfChange ⊕ ConfChangeV2)
    (debugAssertions : Bool := true) :
    Except Fatal (RawNode × Except RaftError Unit) :=
  let entry : Entry :=
    match cc with
    | .inl cc => { entryType := .entryConfChange, data := ConfChangeCodec.encodeConfChange cc, context }
    | .inr cc =>
        { entryType := .entryConfChangeV2, data := ConfChangeCodec.encodeConfChangeV2 cc, context }
  rn.stepRaft { msgType := .msgPropose, entries := [entry] } debugAssertions

/-- A message from the network steps the node unless it is local or from an unknown peer. -/
def step (rn : RawNode) (m : Message) (debugAssertions : Bool := true) :
    Except Fatal (RawNode × Except RaftError Unit) :=
  if isLocalMsg m.msgType then .ok (rn, .error .stepLocalMsg)
  else if (rn.raft.prs.get m.fromId).isSome || !isResponseMsg m.msgType then
    rn.stepRaft m debugAssertions
  else .ok (rn, .error .stepPeerNotFound)

/-- A peer is reported as unreachable. -/
def reportUnreachable (rn : RawNode) (id : Nat) (debugAssertions : Bool := true) :
    Except Fatal RawNode := do
  let (rn, _) ← rn.stepRaft { msgType := .msgUnreachable, fromId := id } debugAssertions
  return rn

/-- The delivery of a snapshot is reported. -/
def reportSnapshot (rn : RawNode) (id : Nat) (failure : Bool) (debugAssertions : Bool := true) :
    Except Fatal RawNode := do
  let (rn, _) ← rn.stepRaft { msgType := .msgSnapStatus, fromId := id, reject := failure }
    debugAssertions
  return rn

/-- The leadership is offered to a node. -/
def transferLeader (rn : RawNode) (transferee : Nat) (debugAssertions : Bool := true) :
    Except Fatal RawNode := do
  let (rn, _) ← rn.stepRaft { msgType := .msgTransferLeader, fromId := transferee } debugAssertions
  return rn

/-- A read is requested under a context. -/
def readIndex (rn : RawNode) (rctx : Bytes) (debugAssertions : Bool := true) : Except Fatal RawNode := do
  let (rn, _) ← rn.stepRaft { msgType := .msgReadIndex, entries := [{ data := rctx }] } debugAssertions
  return rn

end Calls

/-- A heartbeat is broadcast on request. -/
def ping (rn : RawNode) : Except Fatal RawNode := do
  let raft ← rn.raft.ping
  return { rn with raft }

/-- A snapshot is requested from the leader. -/
def requestSnapshot (rn : RawNode) : Except Fatal (RawNode × Except RaftError Unit) := do
  let (raft, result) ← rn.raft.requestSnapshot
  return ({ rn with raft }, result)

/-- A committed configuration change is applied. -/
def applyConfChange (rn : RawNode) (cc : ConfChangeV2) :
    Except Fatal (RawNode × Except RaftError ConfState) := do
  let (raft, result) ← rn.raft.applyConfChange cc
  return ({ rn with raft }, result)

/-- Entries that were fetched asynchronously are sent if the node still leads its term. -/
def onEntriesFetched (rn : RawNode) (context : GetEntriesFor) : Except Fatal RawNode :=
  match context with
  | .sendAppend toId term aggressively =>
      if rn.raft.term ≠ term ∨ rn.raft.state ≠ .leader then .ok rn
      else if (rn.raft.prs.get toId).isNone then .ok rn
      else do
        let raft ← (if aggressively then rn.raft.sendAppendAggressively toId
          else rn.raft.sendAppend toId)
        return { rn with raft }
  | .empty true => .ok rn
  | _ => .error .invalidTransition

/-- The entries that can be applied and the queued messages are handed out. -/
def genLightReady (rn : RawNode) : Except Fatal (RawNode × LightReady) := do
  let entries ← rn.raft.raftLog.nextEntriesSince rn.commitSinceIndex
    (some rn.raft.maxCommittedSizePerReady)
  let committedEntries := entries.getD []
  let raft := rn.raft.reduceUncommittedSize committedEntries
  let rd : LightReady := { committedEntries, messages := raft.msgs }
  let raft := { raft with msgs := [] }
  match committedEntries.getLast? with
  | none => return ({ rn with raft }, rd)
  | some e =>
      if rn.commitSinceIndex < e.index then return ({ rn with raft, commitSinceIndex := e.index }, rd)
      else throw .readyAssertion

/-- The records of a candidate that became leader are dropped and hold no position. -/
def dropRecords (rn : RawNode) : Except Fatal RawNode :=
  if rn.prevSs.raftState ≠ .leader ∧ rn.raft.state = .leader then
    if rn.records.all fun record => record.lastEntry.isNone && record.snapshot.isNone then
      .ok { rn with records := [] }
    else .error .readyAssertion
  else .ok rn

/-- A pending snapshot is delivered before any further entry. -/
def readySnapshot (rn : RawNode) : Except Fatal (RawNode × Option Snapshot) :=
  match rn.raft.raftLog.unstable.snapshot with
  | none => .ok (rn, none)
  | some snapshot =>
      let index := snapshot.metadata.index
      if rn.commitSinceIndex > index then .error .readyAssertion
      else do
        if ← rn.raft.raftLog.hasNextEntriesSince index then throw .readyAssertion
        else return ({ rn with commitSinceIndex := index }, some snapshot)

/-- A Ready collects everything the application must persist, send and apply. -/
def ready (rn : RawNode) : Except Fatal (RawNode × Ready) := do
  let number := rn.maxNumber + 1
  let rn ← { rn with maxNumber := number }.dropRecords
  let ss := rn.raft.softState
  let hs := rn.raft.hardState
  let readStates := rn.raft.readStates
  let rn := { rn with raft := { rn.raft with readStates := [] } }
  let (rn, snapshot) ← rn.readySnapshot
  let entries := rn.raft.raftLog.unstable.entries
  let lastEntry := entries.getLast?.map fun e => (e.index, e.term)
  let isPersistedMsg := decide (rn.raft.state ≠ .leader)
  let (rn, light) ← rn.genLightReady
  let record : ReadyRecord :=
    { number, lastEntry, snapshot := snapshot.map fun s => (s.metadata.index, s.metadata.term) }
  let rd : Ready :=
    { number
      ss := if ss ≠ rn.prevSs then some ss else none
      hs := if hs ≠ rn.prevHs then some hs else none
      mustSync := (decide (hs.vote ≠ rn.prevHs.vote ∨ hs.term ≠ rn.prevHs.term)) || snapshot.isSome ||
        lastEntry.isSome
      readStates, snapshot := snapshot.getD {}, entries, isPersistedMsg, light }
  return ({ rn with records := rn.records ++ [record] }, rd)

/-- The application has something to do. -/
def hasReady (rn : RawNode) : Except Fatal Bool :=
  if !rn.raft.msgs.isEmpty || rn.raft.softState ≠ rn.prevSs || rn.raft.hardState ≠ rn.prevHs ||
    !rn.raft.readStates.isEmpty || !rn.raft.raftLog.unstable.entries.isEmpty ||
    (match rn.raft.raftLog.unstable.snapshot with
      | some snapshot => !snapshot.isEmpty
      | none => false) then .ok true
  else rn.raft.raftLog.hasNextEntriesSince rn.commitSinceIndex

/-- A written Ready moves the previous states and the stable positions. -/
def commitReady (rn : RawNode) (rd : Ready) : Except Fatal RawNode := do
  let rn := { rn with prevSs := rd.ss.getD rn.prevSs, prevHs := rd.hs.getD rn.prevHs }
  match rn.records.getLast? with
  | none => throw .missing
  | some record =>
      if record.number ≠ rd.number then throw .readyAssertion
      else
        let raftLog ← (match record.snapshot with
          | some (index, _) => rn.raft.raftLog.stableSnap index
          | none => pure rn.raft.raftLog)
        let raftLog ← (match record.lastEntry with
          | some (index, term) => raftLog.stableEntries index term
          | none => pure raftLog)
        return { rn with raft := { rn.raft with raftLog } }

/-- The last snapshot index, entry index and entry term of a sequence of records. -/
def persistedPosition (records : List ReadyRecord) : Nat × Nat × Nat :=
  records.foldl (fun (snapIndex, index, term) record =>
    let (snapIndex, index, term) := match record.snapshot with
      | some (i, _) => (i, 0, 0)
      | none => (snapIndex, index, term)
    match record.lastEntry with
    | some (i, t) => (snapIndex, i, t)
    | none => (snapIndex, index, term)) (0, 0, 0)

/-- The Readys up to a number are persisted. -/
def onPersistReady (rn : RawNode) (number : Nat) : Except Fatal RawNode := do
  let persisted := rn.records.takeWhile fun record => record.number ≤ number
  let rn := { rn with records := rn.records.dropWhile fun record => record.number ≤ number }
  let (snapIndex, index, term) := persistedPosition persisted
  let raft ← (if snapIndex ≠ 0 then rn.raft.onPersistSnap snapIndex else pure rn.raft)
  let raft ← (if index ≠ 0 then raft.onPersistEntries index term else pure raft)
  return { rn with raft }

/-- A persisted Ready is advanced and what follows from it is handed out. -/
def advanceAppend (rn : RawNode) (rd : Ready) : Except Fatal (RawNode × LightReady) := do
  let rn ← rn.commitReady rd
  let rn ← rn.onPersistReady rn.maxNumber
  let (rn, light) ← rn.genLightReady
  if rn.raft.state ≠ .leader ∧ light.messages ≠ [] then throw .readyAssertion
  else
    let hs := rn.raft.hardState
    let (rn, light) ← (if hs.commit > rn.prevHs.commit then
        pure ({ rn with prevHs := { rn.prevHs with commit := hs.commit } },
          { light with commitIndex := some hs.commit })
      else if hs.commit = rn.prevHs.commit then pure (rn, { light with commitIndex := none })
      else throw .readyAssertion)
    if hs ≠ rn.prevHs then throw .readyAssertion else return (rn, light)

def advanceAppendAsync (rn : RawNode) (rd : Ready) : Except Fatal RawNode := rn.commitReady rd

/-- The entries up to an index are applied. -/
def advanceApplyTo (rn : RawNode) (applied : Nat) : Except Fatal RawNode := do
  let raft ← rn.raft.commitApply applied
  return { rn with raft }

def advanceApply (rn : RawNode) : Except Fatal RawNode := rn.advanceApplyTo rn.commitSinceIndex

/-- A persisted and applied Ready is advanced. -/
def advance (rn : RawNode) (rd : Ready) : Except Fatal (RawNode × LightReady) := do
  let applied := rn.commitSinceIndex
  let (rn, light) ← rn.advanceAppend rd
  let rn ← rn.advanceApplyTo applied
  return (rn, light)

end RawNode

end RaftRs

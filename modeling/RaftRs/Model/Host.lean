import RaftRs.Model.RawNode

namespace RaftRs

open Library

/-- A write to the stable storage leaves a content, and messages wait for it. -/
structure Write where
  number : Nat
  store : MemStorage
  msgs : List Message := []

/-- The application receives entries with the bound at their delivery, and snapshots. -/
inductive Delivery where
  | entry (entry : Entry) (bound : Nat)
  | snapshot (snapshot : Snapshot)

/-- A machine runs a node, its stable storage and its application. -/
structure Host where
  id : Nat
  raw : Option RawNode := none
  /-- The writes before the last durable one since the node started. -/
  past : List Write := []
  /-- The last durable write. -/
  durable : Write
  /-- The issued writes that are not yet durable. -/
  pending : List Write := []
  /-- The largest number that was reported as persisted. -/
  reported : Nat := 0
  /-- The largest number whose persisted messages were sent. -/
  sent : Nat := 0
  /-- The Ready that is being handled. -/
  outstanding : Option Ready := none
  delivered : List Delivery := []
  reads : List ReadState := []

/-- The calls of an application and the events of its machine. -/
inductive HostOp where
  | tick
  | campaign
  | propose (context data : Bytes)
  | proposeConfChange (context : Bytes) (cc : ConfChange ⊕ ConfChangeV2)
  | readIndex (rctx : Bytes)
  | transferLeader (transferee : Nat)
  | ping
  | reportUnreachable (peer : Nat)
  | reportSnapshot (peer : Nat) (failure : Bool)
  | requestSnapshot
  | applyConfChange (cc : ConfChangeV2)
  | onEntriesFetched (context : GetEntriesFor)
  | deliver (m : Message)
  | setPriority (priority : Int)
  | setCheckQuorum (checkQuorum : Bool)
  | setSkipBcastCommit (skip : Bool)
  | setBatchAppend (batchAppend : Bool)
  | setMaxCommittedSizePerReady (size : Nat)
  | setMaxApplyUnpersistedLogLimit (limit : Nat)
  | adjustMaxInflightMsgs (target cap : Nat)
  | triggerSnapUnavailable
  | triggerLogUnavailable (unavailable : Bool)
  | ready
  | flush
  | send (number : Nat)
  | advance
  | advanceAppend
  | advanceAppendAsync
  | onPersistReady (number : Nat)
  | advanceApplyTo (applied : Nat)
  | saveCommit
  | compact (compactIndex : Nat)
  | crash
  | restart (config : Config) (rng : Nat → Nat)

namespace Host

/-- A new machine has an empty storage with the initial configuration. -/
def fresh (id : Nat) (cs : ConfState) : Host :=
  { id, durable := { number := 0, store := MemStorage.newWithConfState cs } }

def withStore (rn : RawNode) (store : MemStorage) : RawNode :=
  { rn with raft := { rn.raft with raftLog := { rn.raft.raftLog with store } } }

/-- A call of an idle application changes its node. -/
def call (host : Host) (action : RawNode → Except Fatal RawNode) : Except Fatal (Host × List Message) :=
  match host.raw, host.outstanding with
  | some rn, none => do
      let rn ← action rn
      return ({ host with raw := some rn }, [])
  | _, _ => .ok (host, [])

/-- A call that also returns a result. -/
def callWith {α : Type} (host : Host) (action : RawNode → Except Fatal (RawNode × α)) :
    Except Fatal (Host × List Message) :=
  host.call fun rn => do
    let (rn, _) ← action rn
    return rn

def configure (host : Host) (action : Raft → Raft) : Except Fatal (Host × List Message) :=
  host.call fun rn => .ok { rn with raft := action rn.raft }

/-- The writes of a Ready: the snapshot, the entries and the hard state. -/
def writeReady (store : MemStorage) (rd : Ready) : Except Fatal MemStorage := do
  let store ← (if rd.snapshot.isEmpty then pure store
    else match store.applySnapshot rd.snapshot with
      | .ok store => pure store
      | .error _ => throw .unexpectedStorageError)
  let store ← store.append rd.entries
  return match rd.hs with
    | some hs => store.setHardstate hs
    | none => store

/-- The entries of a Ready are delivered with the bound of their moment. -/
def deliveries (rn : RawNode) (entries : List Entry) : List Delivery :=
  entries.map fun entry => .entry entry rn.raft.raftLog.applyBound

/-- A Ready is taken, its writes are issued and its immediate messages are sent. -/
def ready (host : Host) : Except Fatal (Host × List Message) :=
  match host.raw, host.outstanding with
  | some before, none => do
      let (rn, rd) ← before.ready
      let store ← writeReady rn.raft.raftLog.store rd
      let snapshots := if rd.snapshot.isEmpty then [] else [Delivery.snapshot rd.snapshot]
      return ({ host with
          raw := some (withStore rn store)
          pending := host.pending ++ [{ number := rd.number, store, msgs := rd.persistedMessages }]
          outstanding := some rd
          delivered := host.delivered ++ snapshots ++ deliveries rn rd.committedEntries
          reads := host.reads ++ rd.readStates }, rd.messages)
  | _, _ => .ok (host, [])

/-- The next issued write becomes durable. -/
def flush (host : Host) : Host :=
  match host.pending with
  | [] => host
  | write :: rest => { host with past := host.past ++ [host.durable], durable := write, pending := rest }

/-- The messages that wait for durable writes up to a number are sent. -/
def send (host : Host) (number : Nat) : Host × List Message :=
  if host.sent ≤ number ∧ number ≤ host.durable.number then
    ({ host with sent := number },
      ((host.past ++ [host.durable]).filter fun write => host.sent < write.number ∧
        write.number ≤ number).flatMap
        Write.msgs)
  else (host, [])

/-- A Ready whose writes are durable is advanced and the following light Ready is handled. -/
def advanceWith (host : Host) (action : RawNode → Ready → Except Fatal (RawNode × LightReady)) :
    Except Fatal (Host × List Message) :=
  match host.raw, host.outstanding, host.pending with
  | some rn, some rd, [] => do
      let (rn, light) ← action rn rd
      return ({ host with
          raw := some rn
          outstanding := none
          reported := max host.reported rn.maxNumber
          delivered := host.delivered ++ deliveries rn light.committedEntries }, light.messages)
  | _, _, _ => .ok (host, [])

/-- A Ready is advanced while its writes may still be pending. -/
def advanceAppendAsync (host : Host) : Except Fatal (Host × List Message) :=
  match host.raw, host.outstanding with
  | some rn, some rd => do
      let rn ← rn.advanceAppendAsync rd
      return ({ host with raw := some rn, outstanding := none }, [])
  | _, _ => .ok (host, [])

/-- Durable Readys are reported as persisted, in order. -/
def onPersistReady (host : Host) (number : Nat) : Except Fatal (Host × List Message) :=
  match host.raw, host.outstanding with
  | some rn, none =>
      if host.reported ≤ number ∧ number ≤ host.durable.number then do
        let rn ← rn.onPersistReady number
        return ({ host with raw := some rn, reported := max host.reported number }, [])
      else .ok (host, [])
  | _, _ => .ok (host, [])

/-- The application stores the commit index that was handed out last; this is a write of its own. -/
def saveCommit (host : Host) : Host :=
  match host.raw, host.outstanding with
  | some rn, none =>
      let hs := { rn.raft.raftLog.store.raftState.hardState with commit := rn.prevHs.commit }
      let store := rn.raft.raftLog.store.setHardstate hs
      { host with
        raw := some (withStore rn store)
        pending := host.pending ++ [{ number := rn.maxNumber, store }] }
  | _, _ => host

/-- The application may compact up to an applied entry that the storage holds. -/
def mayCompact (log : RaftLog) (compactIndex : Nat) : Bool :=
  compactIndex ≤ log.applied && compactIndex ≤ log.committed && compactIndex ≤ log.store.lastIndex &&
    compactIndex < log.unstable.offset

/-- The application compacts applied entries; the compaction is a write of its own. -/
def compact (host : Host) (compactIndex : Nat) : Except Fatal (Host × List Message) :=
  match host.raw, host.outstanding with
  | some rn, none =>
      if mayCompact rn.raft.raftLog compactIndex then do
        let store ← rn.raft.raftLog.store.compact compactIndex
        return ({ host with
            raw := some (withStore rn store)
            pending := host.pending ++ [{ number := rn.maxNumber, store }] }, [])
      else .ok (host, [])
  | _, _ => .ok (host, [])

/-- A fetch context names a node; the storage is only asked for entries of other nodes. -/
def fetchedFor (id : Nat) : GetEntriesFor → Bool
  | .sendAppend toId _ _ => toId == id
  | _ => false

/-- A crash loses the node and the writes that are not durable. -/
def crash (host : Host) : Host :=
  { id := host.id, durable := { host.durable with number := 0, msgs := [] } }

/-- A stopped machine starts its node from the durable content. -/
def restart (host : Host) (config : Config) (rng : Nat → Nat) : Except Fatal (Host × List Message) :=
  if host.raw.isNone ∧ config.id = host.id then do
    match ← RawNode.new config host.durable.store rng with
    | .error _ => return (host, [])
    | .ok rn => return ({ host with raw := some rn }, [])
  else .ok (host, [])

variable [ConfChangeCodec]

/-- A machine takes one step and sends messages; a step that is not possible changes nothing. -/
def step (host : Host) (op : HostOp) : Except Fatal (Host × List Message) :=
  match op with
  | .tick => host.callWith fun rn => rn.tick
  | .campaign => host.callWith fun rn => rn.campaign
  | .propose context data => host.callWith fun rn => rn.propose context data
  | .proposeConfChange context cc => host.callWith fun rn => rn.proposeConfChange context cc
  | .readIndex rctx => host.call fun rn => rn.readIndex rctx
  | .transferLeader transferee => host.call fun rn => rn.transferLeader transferee
  | .ping => host.call fun rn => rn.ping
  | .reportUnreachable peer => host.call fun rn => rn.reportUnreachable peer
  | .reportSnapshot peer failure => host.call fun rn => rn.reportSnapshot peer failure
  | .requestSnapshot => host.callWith fun rn => rn.requestSnapshot
  | .applyConfChange cc => host.callWith fun rn => rn.applyConfChange cc
  | .onEntriesFetched context => host.call fun rn =>
      if fetchedFor rn.raft.id context then .ok rn else rn.onEntriesFetched context
  | .deliver m => host.callWith fun rn => rn.step m
  | .setPriority priority => host.configure fun r => { r with priority }
  | .setCheckQuorum checkQuorum => host.configure fun r => { r with checkQuorum }
  | .setSkipBcastCommit skipBcastCommit => host.configure fun r => { r with skipBcastCommit }
  | .setBatchAppend batchAppend => host.configure fun r => { r with batchAppend }
  | .setMaxCommittedSizePerReady maxCommittedSizePerReady =>
      host.configure fun r => { r with maxCommittedSizePerReady }
  | .setMaxApplyUnpersistedLogLimit maxApplyUnpersistedLogLimit =>
      host.configure fun r => { r with raftLog := { r.raftLog with maxApplyUnpersistedLogLimit } }
  | .adjustMaxInflightMsgs target cap => host.call fun rn => do
      let raft ← rn.raft.adjustMaxInflightMsgs target cap
      return { rn with raft }
  | .triggerSnapUnavailable => host.configure fun r =>
      { r with raftLog := { r.raftLog with
        store := { r.raftLog.store with triggerSnapUnavailable := true } } }
  | .triggerLogUnavailable unavailable => host.configure fun r =>
      { r with
        raftLog := { r.raftLog with
          store := { r.raftLog.store with triggerLogUnavailable := unavailable } } }
  | .ready => host.ready
  | .flush => .ok (host.flush, [])
  | .send number => .ok (host.send number)
  | .advance => host.advanceWith fun rn rd => rn.advance rd
  | .advanceAppend => host.advanceWith fun rn rd => rn.advanceAppend rd
  | .advanceAppendAsync => host.advanceAppendAsync
  | .onPersistReady number => host.onPersistReady number
  | .advanceApplyTo applied => host.call fun rn => rn.advanceApplyTo applied
  | .saveCommit => .ok (host.saveCommit, [])
  | .compact compactIndex => host.compact compactIndex
  | .crash => .ok (host.crash, [])
  | .restart config rng => host.restart config rng

end Host

end RaftRs

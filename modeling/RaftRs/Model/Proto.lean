import Mathlib.Data.List.Basic
import Mathlib.Tactic

namespace RaftRs

abbrev Bytes := List UInt8

def invalidId : Nat := 0

def invalidIndex : Nat := 0

def noLimit : Nat := 2 ^ 64 - 1

/-- An entry carries client data or a configuration change. -/
inductive EntryType where
  | entryNormal
  | entryConfChange
  | entryConfChangeV2
deriving DecidableEq, Repr

/-- An entry of the replicated log. -/
structure Entry where
  entryType : EntryType := .entryNormal
  term : Nat := 0
  index : Nat := 0
  data : Bytes := []
  context : Bytes := []
  syncLog : Bool := false
deriving DecidableEq, Repr

/-- A configuration lists the two voter sets, the learners and the future learners. -/
structure ConfState where
  voters : List Nat := []
  learners : List Nat := []
  votersOutgoing : List Nat := []
  learnersNext : List Nat := []
  autoLeave : Bool := false
deriving DecidableEq, Repr

/-- The position and the configuration of a snapshot. -/
structure SnapshotMetadata where
  confState : ConfState := {}
  index : Nat := 0
  term : Nat := 0
deriving DecidableEq, Repr

/-- A snapshot of the applied state. -/
structure Snapshot where
  data : Bytes := []
  metadata : SnapshotMetadata := {}
deriving DecidableEq, Repr

def Snapshot.isEmpty (snapshot : Snapshot) : Bool := snapshot.metadata.index == 0

/-- The message kinds of the wire protocol and of the local interface. -/
inductive MessageType where
  | msgHup
  | msgBeat
  | msgPropose
  | msgAppend
  | msgAppendResponse
  | msgRequestVote
  | msgRequestVoteResponse
  | msgSnapshot
  | msgHeartbeat
  | msgHeartbeatResponse
  | msgUnreachable
  | msgSnapStatus
  | msgCheckQuorum
  | msgTransferLeader
  | msgTimeoutNow
  | msgReadIndex
  | msgReadIndexResp
  | msgRequestPreVote
  | msgRequestPreVoteResponse
deriving DecidableEq, Repr

/-- A message between nodes or from the application to its node. -/
structure Message where
  msgType : MessageType := .msgHup
  toId : Nat := 0
  fromId : Nat := 0
  term : Nat := 0
  logTerm : Nat := 0
  index : Nat := 0
  entries : List Entry := []
  commit : Nat := 0
  commitTerm : Nat := 0
  snapshot : Snapshot := {}
  requestSnapshot : Nat := 0
  reject : Bool := false
  rejectHint : Nat := 0
  context : Bytes := []
  deprecatedPriority : Nat := 0
  priority : Int := 0
deriving DecidableEq, Repr

/-- The term, the vote and the commit index that a node persists. -/
structure HardState where
  term : Nat := 0
  vote : Nat := 0
  commit : Nat := 0
deriving DecidableEq, Repr

/-- The ways a configuration change can be carried out. -/
inductive ConfChangeTransition where
  | auto
  | implicit
  | explicit
deriving DecidableEq, Repr

/-- The effect of a configuration change on one node. -/
inductive ConfChangeType where
  | addNode
  | removeNode
  | addLearnerNode
deriving DecidableEq, Repr

/-- A configuration change of one node. -/
structure ConfChangeSingle where
  changeType : ConfChangeType := .addNode
  nodeId : Nat := 0
deriving DecidableEq, Repr

/-- The legacy configuration change message. -/
structure ConfChange where
  changeType : ConfChangeType := .addNode
  nodeId : Nat := 0
  context : Bytes := []
  id : Nat := 0
deriving DecidableEq, Repr

/-- The configuration change message with joint consensus. -/
structure ConfChangeV2 where
  transition : ConfChangeTransition := .auto
  changes : List ConfChangeSingle := []
  context : Bytes := []
deriving DecidableEq, Repr

def ConfChange.intoV2 (change : ConfChange) : ConfChangeV2 :=
  { changes := [⟨change.changeType, change.nodeId⟩], context := change.context }

/-- A change uses joint consensus when it asks for it or changes several nodes. -/
def ConfChangeV2.enterJoint (change : ConfChangeV2) : Option Bool :=
  if change.transition ≠ .auto ∨ change.changes.length > 1 then
    match change.transition with
    | .auto | .implicit => some true
    | .explicit => some false
  else none

/-- A change without content leaves the joint configuration. -/
def ConfChangeV2.leaveJoint (change : ConfChangeV2) : Bool :=
  change.transition == .auto && change.changes.isEmpty

def eqWithoutOrder (lhs rhs : List Nat) : Bool :=
  lhs.all (fun l => rhs.contains l) && rhs.all (fun r => lhs.contains r)

/-- Two configurations are equal up to the order of their lists. -/
def confStateEq (lhs rhs : ConfState) : Bool :=
  if lhs.voters = rhs.voters ∧ lhs.learners = rhs.learners ∧ lhs.votersOutgoing = rhs.votersOutgoing ∧
      lhs.learnersNext = rhs.learnersNext ∧ lhs.autoLeave = rhs.autoLeave then true
  else
    eqWithoutOrder lhs.voters rhs.voters && eqWithoutOrder lhs.learners rhs.learners &&
      eqWithoutOrder lhs.votersOutgoing rhs.votersOutgoing &&
      eqWithoutOrder lhs.learnersNext rhs.learnersNext && lhs.autoLeave == rhs.autoLeave

/-- The generated protobuf code decodes the payload of configuration change entries. -/
class ConfChangeCodec where
  decodeConfChange : Bytes → Option ConfChange
  decodeConfChangeV2 : Bytes → Option ConfChangeV2
  encodeConfChange : ConfChange → Bytes
  encodeConfChangeV2 : ConfChangeV2 → Bytes

/-- The errors of a storage. -/
inductive StorageError where
  | compacted
  | unavailable
  | logTemporarilyUnavailable
  | snapshotOutOfDate
  | snapshotTemporarilyUnavailable
  | other (reason : String)
deriving DecidableEq, Repr

/-- The errors a call returns to the application. -/
inductive RaftError where
  | store (error : StorageError)
  | stepLocalMsg
  | stepPeerNotFound
  | proposalDropped
  | configInvalid (reason : String)
  | codecError
  | confChangeError (reason : String)
  | requestSnapshotDropped
deriving DecidableEq, Repr

/-- The assertions, fatal log lines and panics that stop a node. -/
inductive Fatal where
  /-- The term of the last or of the committed entry cannot be read. -/
  | unexpectedTerm (index : Nat)
  /-- An appended entry conflicts with a committed one. -/
  | entryConflict (conflict committed : Nat)
  /-- The commit index would pass the last index. -/
  | toCommitOutOfRange (toCommit lastIndex : Nat)
  /-- The applied index leaves its range. -/
  | appliedOutOfRange (index : Nat)
  /-- The persisted index would pass the end of the stable entries. -/
  | persistOutOfRange (index : Nat)
  /-- An append would overwrite a committed entry. -/
  | appendOutOfRange (after committed : Nat)
  /-- A slice has its bounds in the wrong order or outside of the log. -/
  | sliceOutOfBounds (low high : Nat)
  /-- The storage lost entries that the log still needs. -/
  | unavailableEntries (low high : Nat)
  /-- A restored snapshot lies below the commit index. -/
  | restoreBelowCommitted (index : Nat)
  /-- A stable snapshot does not match the unstable one. -/
  | stableMismatch
  /-- An index of a vector is out of range or an unsigned subtraction underflows. -/
  | indexOutOfRange
  /-- A sum does not fit into 64 bits. -/
  | addOverflow
  /-- The storage cannot compact entries it has not received. -/
  | compactNotReceived (compactIndex lastIndex : Nat)
  /-- The storage cannot append below its first or beyond its last index. -/
  | appendGap (index : Nat)
  /-- The commit index of the storage lies below its snapshot. -/
  | commitBelowSnapshot
  /-- A full inflight window cannot take another message. -/
  | inflightsFull
  /-- A progress in the snapshot state takes no optimistic update. -/
  | updateStateInSnapshot
  /-- A role transition is not allowed. -/
  | invalidTransition
  /-- A new leader has unpersisted entries. -/
  | unpersistedLeader (lastIndex persisted : Nat)
  /-- The stored hard state is out of the range of the log. -/
  | hardStateOutOfRange (commit : Nat)
  /-- The restored configuration differs from the stored one. -/
  | invalidConfiguration
  /-- The log cannot be loaded. -/
  | unexpectedStorageError
  /-- A proposal has no entry. -/
  | emptyProposal
  /-- A snapshot to send is empty. -/
  | emptySnapshot
  /-- A message is sent with a term it must not carry. -/
  | invalidMessageTerm
  /-- A candidate steps a message of a leader of another term. -/
  | termAssertion (term messageTerm : Nat)
  /-- A needed progress, record or queue element is missing. -/
  | missing
  /-- A leader has no progress for itself. -/
  | missingOwn
  /-- The winner of an election has no progress for itself. -/
  | missingWinner
  /-- An assertion on the order of Readys or of delivered entries fails. -/
  | readyAssertion
  /-- A loop runs longer than its bound. -/
  | diverges
deriving DecidableEq, Repr

/-- The sum of two numbers of 64 bits must have 64 bits. -/
def checkedAdd (a b : Nat) :
    Except Fatal Nat := if a + b < 2 ^ 64 then .ok (a + b) else .error .addOverflow

theorem checkedAdd_ok {a b sum : Nat} : checkedAdd a b = .ok sum ↔ a + b < 2 ^ 64 ∧ sum = a + b := by
  unfold checkedAdd
  split
  next fits =>
    refine ⟨fun same => ⟨fits, (Except.ok.inj same).symm⟩, ?_⟩
    rintro ⟨-, rfl⟩
    rfl
  next exceeds => exact ⟨nofun, fun both => absurd both.1 exceeds⟩

/-- An unsigned difference must not be negative. -/
def checkedSub (a b : Nat) : Except Fatal Nat := if b ≤ a then .ok (a - b) else .error .indexOutOfRange

end RaftRs

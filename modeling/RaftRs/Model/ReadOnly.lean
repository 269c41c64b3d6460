import RaftRs.Library.KeyMap
import RaftRs.Model.Proto

namespace RaftRs

open Library

/-- Reads are confirmed by a quorum or by the lease of the leader. -/
inductive ReadOnlyOption where
  | safe
  | leaseBased
deriving DecidableEq, Repr

/-- The answer to a read request. -/
structure ReadState where
  index : Nat
  requestCtx : Bytes
deriving DecidableEq, Repr

/-- A read request waits for a quorum of acknowledgements. -/
structure ReadIndexStatus where
  req : Message
  index : Nat
  acks : KeySet Nat
deriving DecidableEq, Repr

/-- The pending read requests in their order of arrival. -/
structure ReadOnly where
  option : ReadOnlyOption
  pendingReadIndex : KeyMap Bytes ReadIndexStatus := KeyMap.empty
  readIndexQueue : List Bytes := []

namespace ReadOnly

def new (option : ReadOnlyOption) : ReadOnly := { option }

/-- A request with a new context is queued with its read index. -/
def addRequest (ro : ReadOnly) (index : Nat) (req : Message) (selfId : Nat) : Except Fatal ReadOnly :=
  match req.entries.head? with
  | none => .error .indexOutOfRange
  | some entry =>
      let ctx := entry.data
      if ro.pendingReadIndex.contains ctx then .ok ro
      else
        let status := { req, index, acks := KeySet.empty.insert selfId }
        .ok { ro with
          pendingReadIndex := ro.pendingReadIndex.insert ctx status
          readIndexQueue := ro.readIndexQueue ++ [ctx] }

/-- An acknowledgement is added to the request of its context. -/
def recvAck (ro : ReadOnly) (id : Nat) (ctx : Bytes) : ReadOnly × Option (KeySet Nat) :=
  match ro.pendingReadIndex.get? ctx with
  | none => (ro, none)
  | some status =>
      let acks := status.acks.insert id
      ({ ro with pendingReadIndex := ro.pendingReadIndex.modify ctx fun rs => { rs with acks } },
        some acks)

/-- The search of a context stops at it and needs every request before it to be pending. -/
def position (ro : ReadOnly) (ctx : Bytes) : List Bytes → Nat → Except Fatal (Option Nat)
  | [], _ => .ok none
  | x :: rest, i =>
      if !ro.pendingReadIndex.contains x then .error .missing
      else if x = ctx then .ok (some i)
      else ro.position ctx rest (i + 1)

/-- The first requests leave the queue. -/
def popFront (ro : ReadOnly) : Nat → Except Fatal (ReadOnly × List ReadIndexStatus)
  | 0 => .ok (ro, [])
  | count + 1 =>
      match ro.readIndexQueue with
      | [] => .error .missing
      | ctx :: rest =>
          match ro.pendingReadIndex.get? ctx with
          | none => .error .missing
          | some status => do
              let ro := { ro with
                pendingReadIndex := ro.pendingReadIndex.remove ctx, readIndexQueue := rest }
              let (ro, rss) ← ro.popFront count
              return (ro, status :: rss)

/-- The requests up to a confirmed context leave the queue. -/
def advance (ro : ReadOnly) (ctx : Bytes) : Except Fatal (ReadOnly × List ReadIndexStatus) := do
  match ← ro.position ctx ro.readIndexQueue 0 with
  | some i => ro.popFront (i + 1)
  | none => return (ro, [])

def lastPendingRequestCtx (ro : ReadOnly) : Option Bytes := ro.readIndexQueue.getLast?

end ReadOnly

end RaftRs

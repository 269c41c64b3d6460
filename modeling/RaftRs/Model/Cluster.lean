import RaftRs.Model.Host
import Mathlib.Logic.Function.Basic
import Mathlib.Logic.Relation

namespace RaftRs

open Library

/-- A cluster is a family of machines and all messages that they have ever sent. -/
structure Cluster where
  hosts : Nat → Host
  network : List Message

def ConfState.jointConfig (cs : ConfState) : JointConfig :=
  { incoming := ⟨KeySet.ofList cs.voters⟩, outgoing := ⟨KeySet.ofList cs.votersOutgoing⟩ }

/-- No node is a quorum by itself. -/
def ConfState.NoSingleton (cs : ConfState) : Prop :=
  ∀ id, cs.jointConfig.voteResult (fun voter => if voter = id then some true else none) ≠ .won

/-- The operations that keep the configuration. -/
def HostOp.Fixed : HostOp → Prop
  | .applyConfChange _ => False
  | _ => True

instance (op : HostOp) : Decidable op.Fixed := by
  unfold HostOp.Fixed
  split <;> infer_instance

/-- The operations that keep the configuration and never batch entries. -/
def HostOp.Unbatched : HostOp → Prop
  | .applyConfChange _ => False
  | .setBatchAppend batchAppend => batchAppend = false
  | .restart config _ => config.batchAppend = false
  | _ => True

/-- The operations that keep the configuration, never batch entries and never request a snapshot. -/
def HostOp.Static (op : HostOp) : Prop := op.Unbatched ∧ op ≠ .requestSnapshot

namespace Cluster

/-- All machines start with an empty storage and the same configuration. -/
def initial (cs : ConfState) : Cluster := { hosts := fun id => Host.fresh id cs, network := [] }

variable [ConfChangeCodec]

/-- A message is delivered only after it was sent, and only to its receiver; proposals come from
applications. -/
def Deliverable (cluster : Cluster) (id : Nat) : HostOp → Prop
  | .deliver m => (m ∈ cluster.network ∧ m.toId = id) ∨ (m.msgType = .msgPropose ∧ m.term = 0)
  | _ => True

/-- One machine takes one allowed step and its messages join the network. -/
inductive Step (allowed : Host → HostOp → Prop) : Cluster → Cluster → Prop where
  | host {cluster : Cluster} {id : Nat} {op : HostOp} {host : Host} {sent : List Message}
      (permitted : allowed (cluster.hosts id) op) (deliverable : cluster.Deliverable id op)
      (stepped : (cluster.hosts id).step op = .ok (host, sent)) :
      Step allowed cluster
        { hosts := Function.update cluster.hosts id host, network := cluster.network ++ sent }

abbrev Steps (allowed : Host → HostOp → Prop) : Cluster → Cluster → Prop :=
  Relation.ReflTransGen (Step allowed)

/-- A cluster state that some run reaches. -/
def Reachable (allowed : Host → HostOp → Prop) (cs : ConfState) (cluster : Cluster) : Prop :=
  Steps allowed (initial cs) cluster

end Cluster

end RaftRs

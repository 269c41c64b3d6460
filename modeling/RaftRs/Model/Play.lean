import RaftRs.Library.Fallible
import RaftRs.Model.Cluster

namespace RaftRs

open Library

/-- The protobuf payloads of the changes that the scripted runs propose. -/
def sampleChanges : List (Bytes × ConfChangeV2) :=
  [([], {}),
    ([8, 2], { transition := .explicit }),
    ([18, 2, 16, 2], { changes := [{ nodeId := 2 }] }),
    ([18, 2, 16, 3], { changes := [{ nodeId := 3 }] }),
    ([18, 4, 8, 1, 16, 1], { changes := [{ changeType := .removeNode, nodeId := 1 }] }),
    ([18, 4, 8, 2, 16, 1], { changes := [{ changeType := .addLearnerNode, nodeId := 1 }] })]

/-- The codec of scripted runs, which propose no legacy change and no change that is not listed. -/
@[reducible] def ConfChangeCodec.sample : ConfChangeCodec :=
  { decodeConfChange := fun data => if data = [] then some {} else none
    decodeConfChangeV2 := fun data => sampleChanges.lookup data
    encodeConfChange := fun _ => []
    encodeConfChangeV2 :=
      fun cc => ((sampleChanges.find? fun sample => sample.2 = cc).map Prod.fst).getD [] }

/-- An event of a scripted run: an operation of a machine, or the delivery of the message at a place
of the network. -/
inductive Event where
  | operate (id : Nat) (op : HostOp)
  | deliver (place : Nat)

/-- An event that is allowed in every state. -/
def Event.Allowed (allowed : Host → HostOp → Prop) : Event → Prop
  | .operate _ op => (∀ m, op ≠ .deliver m) ∧ ∀ host, allowed host op
  | .deliver _ => ∀ host m, allowed host (.deliver m)

/-- An operation of a machine fails with an error. -/
def Host.fails [ConfChangeCodec] (host : Host) (op : HostOp) (e : Fatal) : Bool :=
  match host.step op with
  | .error failure => failure == e
  | .ok _ => false

theorem Host.fails_iff [ConfChangeCodec] {host : Host} {op : HostOp} {e : Fatal} :
    host.fails op e = true ↔ host.step op = .error e := by
  unfold Host.fails
  cases host.step op with
  | error failure => simp
  | ok next => simp

namespace Cluster

variable [ConfChangeCodec] {allowed : Host → HostOp → Prop} {cs : ConfState} {cluster cluster' : Cluster}

/-- A machine takes one step in its cluster. -/
def operate (cluster : Cluster) (id : Nat) (op : HostOp) : Except Fatal Cluster := do
  let (host, sent) ← (cluster.hosts id).step op
  return { hosts := Function.update cluster.hosts id host, network := cluster.network ++ sent }

/-- One event of a scripted run. -/
def perform (cluster : Cluster) : Event → Except Fatal Cluster
  | .operate id op => cluster.operate id op
  | .deliver place =>
      match cluster.network[place]? with
      | some m => cluster.operate m.toId (.deliver m)
      | none => .ok cluster

/-- A scripted run performs its events in order. -/
def play (cluster : Cluster) : List Event → Except Fatal Cluster
  | [] => .ok cluster
  | event :: events => do
      let cluster ← cluster.perform event
      cluster.play events

/-- A step of a machine is a step of its cluster. -/
theorem step_operate {id : Nat} {op : HostOp} (permitted : allowed (cluster.hosts id) op)
    (deliverable : cluster.Deliverable id op) (done : cluster.operate id op = .ok cluster') :
    Step allowed cluster cluster' := by
  obtain ⟨⟨host, sent⟩, stepped, done⟩ := bind_eq_ok.1 done
  obtain rfl := Except.ok.inj done
  exact .host permitted deliverable stepped

theorem steps_play {events : List Event} (all : ∀ event ∈ events, event.Allowed allowed)
    (done : cluster.play events = .ok cluster') : Steps allowed cluster cluster' := by
  induction events generalizing cluster with
  | nil =>
      obtain rfl := Except.ok.inj done
      exact .refl
  | cons event events ih =>
      obtain ⟨next, performed, done⟩ := bind_eq_ok.1 done
      have rest := ih (fun event member => all event (List.mem_cons_of_mem _ member)) done
      have allows := all event List.mem_cons_self
      cases event with
      | operate id op =>
          refine .head (step_operate (allows.2 _) ?_ performed) rest
          cases op with
          | deliver m => exact absurd rfl (allows.1 m)
          | _ => trivial
      | deliver place =>
          simp only [perform] at performed
          split at performed
          next m found =>
            exact .head (step_operate (allows _ m) (.inl ⟨List.mem_of_getElem? found, rfl⟩)
              performed) rest
          next =>
            obtain rfl := Except.ok.inj performed
            exact rest

theorem reachable_play {events : List Event} (all : ∀ event ∈ events, event.Allowed allowed)
    (done : (initial cs).play events = .ok cluster) : Reachable allowed cs cluster := steps_play all done

/-- A scripted run ends in a state in which a machine runs a node that passes a test. -/
def ends (cs : ConfState) (events : List Event) (id : Nat) (test : RawNode → Bool) : Bool :=
  match (initial cs).play events with
  | .ok cluster =>
      match (cluster.hosts id).raw with
      | some rn => test rn
      | none => false
  | .error _ => false

theorem reachable_ends {events : List Event} {id : Nat} {test : RawNode → Bool}
    (all : ∀ event ∈ events, event.Allowed allowed) (passed : ends cs events id test = true) :
    ∃ cluster rn, Reachable allowed cs cluster ∧ (cluster.hosts id).raw = some rn ∧ test rn = true := by
  unfold ends at passed
  split at passed
  next cluster done =>
    split at passed
    next rn running => exact ⟨cluster, rn, reachable_play all done, running, passed⟩
    next => cases passed
  next => cases passed

/-- The machine and the operation of an event. -/
def operation (cluster : Cluster) : Event → Option (Nat × HostOp)
  | .operate _ (.deliver _) => none
  | .operate id op => some (id, op)
  | .deliver place => cluster.network[place]?.map fun m => (m.toId, .deliver m)

omit [ConfChangeCodec] in
/-- The operation of an event can be delivered. -/
theorem deliverable_operation {event : Event} {id : Nat} {op : HostOp}
    (found : cluster.operation event = some (id, op)) :
    cluster.Deliverable id op := by
  cases event with
  | operate id' op' =>
      cases op' with
      | deliver m => cases found
      | _ =>
          obtain ⟨rfl, rfl⟩ := Prod.mk.inj (Option.some.inj found)
          trivial
  | deliver place =>
      obtain ⟨m, inside, same⟩ := Option.map_eq_some_iff.1 found
      obtain ⟨rfl, rfl⟩ := Prod.mk.inj same
      exact .inl ⟨List.mem_of_getElem? inside, rfl⟩

/-- A scripted run whose operations pass a test. -/
def guarded (permits : Host → HostOp → Bool) (cluster : Cluster) : List Event → Option Cluster
  | [] => some cluster
  | event :: events =>
      match cluster.operation event with
      | none => none
      | some (id, op) =>
          if permits (cluster.hosts id) op then
            match cluster.operate id op with
            | .ok next => next.guarded permits events
            | .error _ => none
          else none

theorem steps_guarded {permits : Host → HostOp → Bool}
    (sound : ∀ host op, permits host op = true → allowed host op) {events : List Event}
    (done : cluster.guarded permits events = some cluster') : Steps allowed cluster cluster' := by
  induction events generalizing cluster with
  | nil =>
      obtain rfl := Option.some.inj done
      exact .refl
  | cons event events ih =>
      unfold guarded at done
      split at done
      next => cases done
      next id op found =>
        split_ifs at done with permitted
        split at done
        next next operated =>
          exact .head (step_operate (sound _ _ permitted) (deliverable_operation found) operated)
            (ih done)
        next => cases done

/-- A scripted run whose operations pass a test reaches a state that passes another one. -/
def reaches (cs : ConfState) (permits : Host → HostOp → Bool) (events : List Event)
    (test : Cluster → Bool) : Bool :=
  match (initial cs).guarded permits events with
  | some cluster => test cluster
  | none => false

/-- A scripted run whose operations pass a test goes on to a state that passes another one. -/
def arrives (permits : Host → HostOp → Bool) (events : List Event) (test : Cluster → Bool)
    (cluster : Cluster) : Bool :=
  match cluster.guarded permits events with
  | some cluster => test cluster
  | none => false

theorem steps_arrives {permits : Host → HostOp → Bool} {events : List Event} {test : Cluster → Bool}
    (sound : ∀ host op, permits host op = true → allowed host op)
    (passed : cluster.arrives permits events test = true) :
    ∃ cluster', Steps allowed cluster cluster' ∧ test cluster' = true := by
  unfold arrives at passed
  split at passed
  next cluster' done => exact ⟨cluster', steps_guarded sound done, passed⟩
  next => cases passed

theorem reachable_reaches {permits : Host → HostOp → Bool} {events : List Event} {test : Cluster → Bool}
    (sound : ∀ host op, permits host op = true → allowed host op)
    (passed : reaches cs permits events test = true) :
    ∃ cluster, Reachable allowed cs cluster ∧ test cluster = true := by
  unfold reaches at passed
  split at passed
  next cluster done => exact ⟨cluster, steps_guarded sound done, passed⟩
  next => cases passed

end Cluster

end RaftRs

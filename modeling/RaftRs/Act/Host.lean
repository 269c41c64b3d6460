import RaftRs.Act.Step

namespace RaftRs

open Library

/-- What an operation hands to its node. -/
def HostOp.inputs : HostOp → Input → Prop
  | .deliver m, .message m' => m' = m
  | .propose _ _, .message m' => m'.msgType = .msgPropose ∧ m'.term = 0
  | .proposeConfChange _ _, .message m' => m'.msgType = .msgPropose ∧ m'.term = 0
  | .readIndex rctx, .message m' => m' = { msgType := .msgReadIndex, entries := [{ data := rctx }] }
  | .transferLeader transferee, .message m' =>
      m' = { msgType := .msgTransferLeader, fromId := transferee }
  | .requestSnapshot, .requestSnapshot => True
  | .applyConfChange cc, .confChange cc' => cc' = cc
  | .setMaxApplyUnpersistedLogLimit limit, .limit limit' => limit' = limit
  | .setBatchAppend batchAppend, .batching batchAppend' => batchAppend' = batchAppend
  | .advanceApplyTo applied, .applied index => index = applied
  | .tick, .election => True
  | .campaign, .election => True
  | .deliver m, .election => m.Elects
  | .campaign, .campaign => True
  | .setPriority priority, .priority priority' => priority' = priority
  | _, _ => False

/-- A node may always use its own state: the handed out entries, its term, leader and
configuration. -/
def RawNode.inputs (rn : RawNode) (inp : Input → Prop) : Input → Prop
  | .applied index => inp (.applied index) ∨ index ≤ rn.commitSinceIndex
  | .started term => term = rn.raft.term ∧ rn.raft.state = .preCandidate
  | .leader term => term = rn.raft.term ∧ rn.raft.state = .follower ∧ rn.raft.leaderId ≠ invalidId
  | .configured conf => conf = rn.raft.prs.conf
  | input => inp input

/-- The reported positions of persisted Readys. -/
def persistedInputs (snapIndex index term : Nat) : Input → Prop
  | .persistedSnap i => i = snapIndex ∧ i ≠ 0
  | .persisted i t => i = index ∧ t = term ∧ i ≠ 0
  | _ => False

/-- Persisted positions come from the storage alone. -/
theorem persistedInputs_internal {snapIndex index term : Nat} (input : Input)
    (given : persistedInputs snapIndex index term input) : input.Internal := by
  cases input with
  | persisted | persistedSnap => trivial
  | _ => exact given.elim

/-- A node uses what it is handed and its own state. -/
theorem RawNode.inputs_cases {rn : RawNode} {inp : Input → Prop} (input : Input)
    (given : rn.inputs inp input) :
    inp input ∨ input.Internal := by
  cases input with
  | applied | started | leader | configured => exact .inr trivial
  | _ => exact .inl given

theorem RawNode.inputs_internal {rn : RawNode} {inp : Input → Prop} (none : ∀ input, ¬ inp input)
    (input : Input) (given : rn.inputs inp input) : input.Internal :=
  (RawNode.inputs_cases input given).resolve_left (none input)

namespace Host

/-- The phases that the operations of a machine are made of. -/
inductive Phase (inp : Input → Prop) (permitted : Config → Prop) (host : Host) :
    Host → List Message → Prop where
  | call {rn : RawNode} {raft : Raft} (raw : host.raw = some rn) (idle : host.outstanding = none)
      (acts : Acts (rn.inputs inp) rn.raft.core raft.core) :
      Phase inp permitted host { host with raw := some { rn with raft } } []
  | ready {rn rn' : RawNode} {rd : Ready} {store : MemStorage} (raw : host.raw = some rn)
      (idle : host.outstanding = none) (done : rn.ready = .ok (rn', rd))
      (written : writeReady rn'.raft.raftLog.store rd = .ok store) :
      Phase inp permitted host
        { host with
          raw := some (withStore rn' store)
          pending := host.pending ++ [{ number := rd.number, store, msgs := rd.persistedMessages }]
          outstanding := some rd
          delivered :=
            host.delivered ++ (if rd.snapshot.isEmpty then [] else [Delivery.snapshot rd.snapshot]) ++
            deliveries rn' rd.committedEntries
          reads := host.reads ++ rd.readStates } rd.messages
  | flush {write : Write} {rest : List Write} (pending : host.pending = write :: rest) :
      Phase inp permitted host
        { host with past := host.past ++ [host.durable], durable := write, pending := rest } []
  | send {number : Nat} (ahead : host.sent ≤ number) (durable : number ≤ host.durable.number) :
      Phase inp permitted host { host with sent := number }
        (((host.past ++ [host.durable]).filter fun write => host.sent < write.number ∧
          write.number ≤ number).flatMap
          Write.msgs)
  | stable {rn rn' : RawNode} {rd : Ready} (raw : host.raw = some rn)
      (outstanding : host.outstanding = some rd) (done : rn.commitReady rd = .ok rn') :
      Phase inp permitted host { host with raw := some rn', outstanding := none } []
  | report {rn : RawNode} {raft : Raft} {number snapIndex index term : Nat} (raw : host.raw = some rn)
      (idle : host.outstanding = none) (durable : number ≤ host.durable.number ∨ host.pending = [])
      (position : RawNode.persistedPosition (rn.records.takeWhile fun record => record.number ≤ number) =
        (snapIndex, index, term))
      (acts : Acts (persistedInputs snapIndex index term) rn.raft.core raft.core) :
      Phase inp permitted host
        { host with
          raw := some { rn with
            raft, records := rn.records.dropWhile fun record => record.number ≤ number }
          reported := max host.reported number } []
  | light {rn rn' : RawNode} {light : LightReady} (raw : host.raw = some rn)
      (idle : host.outstanding = none) (done : rn.genLightReady = .ok (rn', light))
      (withheld : rn'.raft.state = .leader ∨ light.messages = [])
      (current : rn'.raft.term = rn'.prevHs.term ∧ rn'.raft.vote = rn'.prevHs.vote) :
      Phase inp permitted host
        { host with
          raw := some { rn' with prevHs := rn'.raft.hardState }
          delivered := host.delivered ++ deliveries rn' light.committedEntries } light.messages
  | saveCommit {rn : RawNode} {store : MemStorage} (raw : host.raw = some rn)
      (idle : host.outstanding = none) (saved : store = rn.raft.raftLog.store.setHardstate
        { rn.raft.raftLog.store.raftState.hardState with commit := rn.prevHs.commit }) :
      Phase inp permitted host
        { host with
          raw := some (withStore rn store)
          pending := host.pending ++ [{ number := rn.maxNumber, store }] } []
  | compact {rn : RawNode} {compactIndex : Nat} {store : MemStorage} (raw : host.raw = some rn)
      (idle : host.outstanding = none) (may : mayCompact rn.raft.raftLog compactIndex = true)
      (done : rn.raft.raftLog.store.compact compactIndex = .ok store) :
      Phase inp permitted host
        { host with
          raw := some (withStore rn store)
          pending := host.pending ++ [{ number := rn.maxNumber, store }] } []
  | crash : Phase inp permitted host host.crash []
  | restart {config : Config} {rng : Nat → Nat} {rn : RawNode} (stopped : host.raw = none)
      (same : config.id = host.id) (allowed : permitted config)
      (done : RawNode.new config host.durable.store rng = .ok (.ok rn)) :
      Phase inp permitted host { host with raw := some rn } []

/-- A sequence of phases and everything that they send. -/
inductive Phases (inp : Input → Prop) (permitted : Config → Prop) :
    Host → Host → List Message → Prop where
  | refl {host : Host} : Phases inp permitted host host []
  | step {host host' host'' : Host} {sent sent' : List Message}
      (first : Phase inp permitted host host' sent)
      (rest : Phases inp permitted host' host'' sent') : Phases inp permitted host host'' (sent ++ sent')

/-- A traced failure that no sequence of phases explains. -/
def Unexplained (inp : Input → Prop) (permitted : Config → Prop) (host : Host) (e : Fatal) : Prop :=
  e.IsTraced ∧ ¬ ∃ host' sent rn inp' c, Phases inp permitted host host' sent ∧ host'.raw = some rn ∧
    (∀ input, inp' input → inp input ∨ input.Internal) ∧ Acts inp' rn.raft.core c ∧ Faults inp' c e

variable {inp : Input → Prop} {permitted : Config → Prop} {host : Host}

theorem Phase.phases {host' : Host} {sent : List Message} (phase : Phase inp permitted host host' sent) :
    Phases inp permitted host host' sent := by
  have single := Phases.step phase .refl
  rwa [List.append_nil] at single

/-- A computation of a machine runs through phases. -/
def Runs (inp : Input → Prop) (permitted : Config → Prop) (host : Host)
    (run : Except Fatal (Host × List Message)) :
    Prop :=
  Meets (Unexplained inp permitted host) run fun x => Phases inp permitted host x.1 x.2

theorem Runs.stay : Runs inp permitted host (.ok (host, [])) := Phases.refl

/-- A call of an idle node runs through one phase. -/
theorem runs_call {action : RawNode → Except Fatal RawNode}
    (does : ∀ rn, Does (rn.inputs inp) rn.raft.core (action rn) (fun rn' => rn'.raft.core) fun rn' =>
      rn' = { rn with raft := rn'.raft }) : Runs inp permitted host (host.call action) := by
  unfold call
  split
  next rn raw idle =>
    have done := does rn
    cases result : action rn with
    | error e =>
        rw [result] at done
        intro ⟨fault, unexplained⟩
        refine done ⟨fault, ?_⟩
        rintro ⟨c, acts, faults⟩
        exact unexplained ⟨host, [], rn, rn.inputs inp, c, .refl, raw, RawNode.inputs_cases, acts,
          faults⟩
    | ok rn' =>
        rw [result] at done
        obtain ⟨acts, same⟩ := done
        rw [ok_bind]
        show Phases inp permitted host { host with raw := some rn' } []
        rw [same]
        exact (Phase.call raw idle acts).phases
  next => exact .stay

end Host

namespace RawNode

variable {inp : Input → Prop} {rn : RawNode}

/-- A call of a node that returns its changed state. -/
theorem does_raft {α : Type} {run : Except Fatal (Raft × α)} {post : Raft × α → Prop}
    (does : Does inp rn.raft.core run (fun x => x.1.core) post) :
    Does inp rn.raft.core (run >>= fun x => .ok ({ rn with raft := x.1 }, x.2))
    (fun x => x.1.raft.core) fun x =>
      x.1 = { rn with raft := x.1.raft } :=
  does.bind fun _ _ => .pure .refl rfl

theorem does_plain {run : Except Fatal Raft} {post : Raft → Prop}
    (does : Does inp rn.raft.core run Raft.core post) :
    Does inp rn.raft.core (run >>= fun raft => .ok { rn with raft }) (fun rn' => rn'.raft.core)
      fun rn' =>
      rn' = { rn with raft := rn'.raft } :=
  does.bind fun _ _ => .pure .refl rfl

/-- A call whose result is dropped. -/
theorem does_dropped {α : Type} {run : Except Fatal (RawNode × α)}
    (does : Does inp rn.raft.core run (fun x => x.1.raft.core) fun x => x.1 = { rn with
      raft := x.1.raft }) :
    Does inp rn.raft.core (run >>= fun x => .ok x.1) (fun rn' => rn'.raft.core) fun rn' =>
      rn' = { rn with raft := rn'.raft } :=
  does.bind fun _ same => .pure .refl same

variable [ConfChangeCodec]

theorem does_stepRaft {m : Message} (gives : rn.raft.Gives inp m) :
    Does inp rn.raft.core (rn.stepRaft m) (fun x => x.1.raft.core) fun x => x.1 = { rn with
      raft := x.1.raft } :=
  does_raft (Raft.does_step gives)

theorem does_step {m : Message} (gives : isLocalMsg m.msgType = false → rn.raft.Gives inp m) :
    Does inp rn.raft.core (rn.step m) (fun x => x.1.raft.core) fun x => x.1 = { rn with
      raft := x.1.raft } := by
  unfold step
  split
  · exact .pure .refl rfl
  next other =>
    split
    · exact does_stepRaft (gives (Bool.eq_false_iff.2 other))
    · exact .pure .refl rfl

omit [ConfChangeCodec]

theorem does_onEntriesFetched (context : GetEntriesFor) :
    Does inp rn.raft.core (if Host.fetchedFor rn.raft.id context then .ok rn
      else rn.onEntriesFetched context)
      (fun rn' => rn'.raft.core) fun rn' => rn' = { rn with raft := rn'.raft } := by
  have stay : Does inp rn.raft.core (.ok rn) (fun rn' => rn'.raft.core) fun rn' => rn' = { rn with
      raft := rn'.raft } :=
    .pure .refl rfl
  split
  · exact stay
  next other =>
    unfold onEntriesFetched
    split
    next toId term aggressively =>
      have other : toId ≠ rn.raft.id := by simpa [Host.fetchedFor] using other
      split
      · exact stay
      next leads =>
        push Not at leads
        split
        · exact stay
        · have does : Does inp rn.raft.core (if aggressively then rn.raft.sendAppendAggressively toId
              else rn.raft.sendAppend toId) Raft.core (Raft.Steady rn.raft) := by
            split
            · exact Raft.does_sendAppendAggressively leads.2 (.inl other)
            · exact Raft.does_sendAppend leads.2 (.inl other)
          exact does_plain does
    · exact stay
    · exact .fail not_false

end RawNode

end RaftRs

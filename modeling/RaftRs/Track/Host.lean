import RaftRs.Node.Forward
import RaftRs.Node.Runs
import RaftRs.Track.Call

namespace RaftRs

open Library

/-- The size of the data that an operation proposes to a leader. -/
def HostOp.proposalSize [ConfChangeCodec] : HostOp → Nat
  | .propose _ data => data.length
  | .proposeConfChange _ (.inl cc) => (ConfChangeCodec.encodeConfChange cc).length
  | .proposeConfChange _ (.inr cc) => (ConfChangeCodec.encodeConfChangeV2 cc).length
  | .deliver m => m.proposalSize
  | _ => 0

/-- The activity marks of a leader after an operation that calls it. -/
def Raft.activityOf (r : Raft) : HostOp → Nat → Option Bool
  | .tick => r.tickActivity
  | .deliver m => if isLocalMsg m.msgType then r.activity else r.activityAfter m
  | .applyConfChange cc => Raft.changedActivity (r.mapChange cc) r.activity
  | _ => r.activity

namespace RawNode

variable {rn rn' : RawNode} {largest : Nat} {activity : Nat → Option Bool} {op : HostOp}

/-- A call changes the node only, and lets it keep or win the lead. -/
def Leads (largest : Nat) (activity : Nat → Option Bool) (rn rn' : RawNode) : Prop :=
  rn' = { rn with raft := rn'.raft } ∧ rn.raft.Leads largest activity rn'.raft

theorem leads_of_tracks {run : Except Fatal Raft} (tracks : Yields run (Raft.Tracks largest rn.raft)) :
    Yields (run >>= fun raft => .ok { rn with raft }) (Leads largest rn.raft.activity rn) :=
  tracks.bind fun _ tracks => ⟨rfl, Raft.leads_of_tracks tracks⟩

/-- A call that drops its result. -/
theorem leads_dropped {α : Type} {run : Except Fatal (Raft × α)}
    (leads : Yields run fun x => rn.raft.Leads largest activity x.1) :
    Yields ((run >>= fun x => .ok ({ rn with raft := x.1 }, x.2)) >>= fun x : RawNode × α => .ok x.1)
      (Leads largest activity rn) := by
  rw [bind_assoc]
  exact leads.bind fun _ leads => ⟨rfl, leads⟩

theorem tracks_requestSnapshot {r : Raft} :
    Yields r.requestSnapshot fun x => Raft.Tracks largest r x.1 := by
  unfold Raft.requestSnapshot
  split
  · exact Raft.Tracks.refl
  simp only
  split
  · exact yields_error
  split
  · unfold Raft.sendRequestSnapshot
    have asked : Raft.Tracks largest r { r with pendingRequestSnapshot := r.raftLog.lastIndex } :=
      Raft.tracks_same rfl rfl rfl rfl rfl (Raft.same_log rfl)
    split
    · exact yields_error
    · exact Raft.tracks_send.bind fun _ more => asked.trans more
  · exact Raft.Tracks.refl

theorem leads_onEntriesFetched (context : GetEntriesFor) :
    Yields (if Host.fetchedFor rn.raft.id context then .ok rn else rn.onEntriesFetched context)
      (Leads largest rn.raft.activity rn) := by
  have stay : Yields (.ok rn : Except Fatal RawNode) (Leads largest rn.raft.activity rn) :=
    ⟨rfl, Raft.leads_of_tracks .refl⟩
  split
  · exact stay
  unfold onEntriesFetched
  split
  · split
    · exact stay
    split
    · exact stay
    · split
      · exact leads_of_tracks Raft.tracks_sendAppendAggressively
      · exact leads_of_tracks Raft.tracks_sendAppend
  · exact stay
  · exact yields_error

variable [ConfChangeCodec]

theorem leads_stepRaft {m : Message} (untermed : isLocalMsg m.msgType = true → m.term = 0)
    (size : m.proposalSize = largest) (marks : rn.raft.activityAfter m = activity) :
    Yields (rn.stepRaft m >>= fun x => .ok x.1) (Leads largest activity rn) := by
  subst size marks
  exact leads_dropped (Raft.leads_step untermed)

theorem leads_step (m : Message) :
    Yields (rn.step m >>= fun x => .ok x.1)
    (Leads m.proposalSize (rn.raft.activityOf (.deliver m)) rn) := by
  unfold step
  split
  next own =>
    have marks : rn.raft.activityOf (.deliver m) = rn.raft.activity := if_pos own
    rw [marks]
    exact ⟨rfl, Raft.leads_of_tracks .refl⟩
  next foreign =>
    have marks : rn.raft.activityOf (.deliver m) = rn.raft.activityAfter m := if_neg foreign
    rw [marks]
    split
    next => exact leads_stepRaft (fun own => absurd own foreign) rfl rfl
    next unknown =>
      have absent : rn.raft.prs.get m.fromId = none := by
        cases known : rn.raft.prs.get m.fromId with
        | none => rfl
        | some pr => simp [known] at unknown
      have check : m.msgType ≠ .msgCheckQuorum := fun kind => foreign (by rw [kind]; rfl)
      rw [Raft.activityAfter_unknown absent check]
      exact ⟨rfl, Raft.leads_of_tracks .refl⟩

end RawNode

/-- A call of the node lets it keep or win the lead. -/
theorem Host.step_leads [ConfChangeCodec] {op : HostOp} (calls : op.Calls) :
    ∃ action : RawNode → Except Fatal RawNode, (∀ host : Host, host.step op = host.call action) ∧
      ∀ rn, Yields (action rn) (RawNode.Leads op.proposalSize (rn.raft.activityOf op) rn) := by
  have same : ∀ {r r' : Raft}, r'.id = r.id → r'.term = r.term → r'.state = r.state →
      r'.uncommittedState = r.uncommittedState → r'.prs.progress = r.prs.progress →
      r'.raftLog = r.raftLog → Raft.Tracks 0 r r' := fun id term state uncommitted progress log =>
    Raft.tracks_same id term state uncommitted progress (Raft.same_log log)
  have switched : ∀ (r : Raft) (triggerSnapUnavailable triggerLogUnavailable : Bool), Raft.Tracks 0
      r { r with
      raftLog := { r.raftLog with
        store := { r.raftLog.store with triggerSnapUnavailable, triggerLogUnavailable } } } :=
    fun r snapUnavailable logUnavailable => Raft.tracks_same rfl rfl rfl rfl rfl fun sound =>
      ⟨⟨sound.mark r.raftLog.persisted r.raftLog.applied r.raftLog.maxApplyUnpersistedLogLimit
        snapUnavailable
        logUnavailable, rfl, le_rfl, fun _ _ => rfl⟩, rfl⟩
  cases op with
  | tick => exact ⟨_, fun _ => rfl, fun _ => RawNode.leads_dropped Raft.leads_tick⟩
  | campaign =>
      exact ⟨_, fun _ => rfl, fun rn => RawNode.leads_stepRaft (fun _ => rfl) rfl
        (Raft.activityAfter_other nofun nofun nofun)⟩
  | propose context data =>
      exact ⟨_, fun _ => rfl, fun rn => RawNode.leads_stepRaft (fun _ => rfl) rfl
        (Raft.activityAfter_other nofun nofun nofun)⟩
  | proposeConfChange context cc =>
      refine ⟨_, fun _ => rfl, fun rn => RawNode.leads_stepRaft (fun _ => rfl) ?_
        (Raft.activityAfter_other nofun nofun nofun)⟩
      cases cc <;> rfl
  | readIndex rctx =>
      exact ⟨_, fun _ => rfl, fun rn => RawNode.leads_stepRaft (fun _ => rfl) rfl
        (Raft.activityAfter_other nofun nofun nofun)⟩
  | transferLeader transferee =>
      exact ⟨_, fun _ => rfl, fun rn => RawNode.leads_stepRaft (fun _ => rfl) rfl
        (Raft.activityAfter_other nofun nofun nofun)⟩
  | ping =>
      refine ⟨_, fun _ => rfl, fun rn => RawNode.leads_of_tracks ?_⟩
      unfold Raft.ping
      split
      · exact Raft.tracks_bcastHeartbeatWithCtx _
      · exact Raft.Tracks.refl
  | reportUnreachable peer =>
      exact ⟨_, fun _ => rfl, fun rn => RawNode.leads_stepRaft (fun _ => rfl) rfl
        (Raft.activityAfter_other nofun nofun nofun)⟩
  | reportSnapshot peer failure =>
      exact ⟨_, fun _ => rfl, fun rn => RawNode.leads_stepRaft (fun _ => rfl) rfl
        (Raft.activityAfter_other nofun nofun nofun)⟩
  | requestSnapshot =>
      exact ⟨_, fun _ => rfl, fun rn => RawNode.leads_dropped
        (RawNode.tracks_requestSnapshot.mono fun _ => Raft.leads_of_tracks)⟩
  | applyConfChange cc =>
      refine ⟨_, fun _ => rfl, fun rn => RawNode.leads_dropped ?_⟩
      refine Meets.mono (Raft.tends_applyConfChange cc) fun x (done : Raft.Tends 0 _ _ ∧ _) _ lead => ?_
      exact .inl ⟨done.1.state.symm.trans lead, done⟩
  | onEntriesFetched context => exact ⟨_, fun _ => rfl, fun rn => RawNode.leads_onEntriesFetched context⟩
  | deliver m =>
      exact ⟨_, fun _ => rfl, fun rn => RawNode.leads_step m⟩
  | setPriority priority =>
      exact ⟨_, fun _ => rfl, fun _ => ⟨rfl, Raft.leads_of_tracks (same rfl rfl rfl rfl rfl rfl)⟩⟩
  | setCheckQuorum checkQuorum =>
      exact ⟨_, fun _ => rfl, fun _ => ⟨rfl, Raft.leads_of_tracks (same rfl rfl rfl rfl rfl rfl)⟩⟩
  | setSkipBcastCommit skip =>
      exact ⟨_, fun _ => rfl, fun _ => ⟨rfl, Raft.leads_of_tracks (same rfl rfl rfl rfl rfl rfl)⟩⟩
  | setBatchAppend batchAppend =>
      exact ⟨_, fun _ => rfl, fun _ => ⟨rfl, Raft.leads_of_tracks (same rfl rfl rfl rfl rfl rfl)⟩⟩
  | setMaxCommittedSizePerReady size =>
      exact ⟨_, fun _ => rfl, fun _ => ⟨rfl, Raft.leads_of_tracks (same rfl rfl rfl rfl rfl rfl)⟩⟩
  | setMaxApplyUnpersistedLogLimit limit =>
      refine ⟨_, fun _ => rfl,
        fun rn => ⟨rfl, Raft.leads_of_tracks (Raft.tracks_marks ⟨rfl, rfl⟩ fun sound => ?_)⟩⟩
      exact sound.mark rn.raft.raftLog.persisted rn.raft.raftLog.applied limit _ _
  | adjustMaxInflightMsgs target cap =>
      exact ⟨_, fun _ => rfl,
        fun _ => RawNode.leads_of_tracks (Raft.tracks_adjustMaxInflightMsgs target cap)⟩
  | triggerSnapUnavailable =>
      exact ⟨_, fun _ => rfl, fun rn => ⟨rfl, Raft.leads_of_tracks (switched rn.raft true _)⟩⟩
  | triggerLogUnavailable unavailable =>
      exact ⟨_, fun _ => rfl, fun rn => ⟨rfl, Raft.leads_of_tracks (switched rn.raft _ unavailable)⟩⟩
  | advanceApplyTo applied =>
      exact ⟨_, fun _ => rfl, fun _ => RawNode.leads_of_tracks (Raft.tracks_commitApply applied)⟩
  | _ => exact calls.elim

/-- The ways in which an operation that is no call changes a node: its log is written or settled, a
pending snapshot or entries are handed out, positions are reported, or the log is compacted. -/
inductive RawNode.Rest (op : HostOp) (rn rn' : RawNode) : Prop where
  | keep (raft : rn'.raft = { rn.raft with
      readStates := rn'.raft.readStates, raftLog := rn'.raft.raftLog })
      (log : rn.raft.raftLog.Alike rn'.raft.raftLog) (since : rn'.commitSinceIndex = rn.commitSinceIndex)
  | snapshot {s : Snapshot} (sound : rn.raft.raftLog.Sound)
      (pending : rn.raft.raftLog.unstable.snapshot = some s)
      (ahead : rn.commitSinceIndex ≤ s.metadata.index) (raft : rn'.raft = rn.raft)
      (since : rn'.commitSinceIndex = s.metadata.index)
  | light {light : LightReady} (sound : rn.raft.raftLog.Sound)
      (done : rn.genLightReady = .ok (rn', light))
  | serve (sound : rn.raft.raftLog.Sound) (tracks : Raft.Tracks 0 rn.raft rn'.raft)
      (forward : rn.Forward rn') (since : rn'.commitSinceIndex = rn.commitSinceIndex)
  | compact {compactIndex : Nat} {store : MemStorage} (of : op = .compact compactIndex)
      (sound : rn.raft.raftLog.Sound) (may : Host.mayCompact rn.raft.raftLog compactIndex = true)
      (done : rn.raft.raftLog.store.compact compactIndex = .ok store)
      (same : rn' = Host.withStore rn store)

/-- A sequence of such changes. -/
abbrev RawNode.Rests (op : HostOp) : RawNode → RawNode → Prop := Relation.ReflTransGen (RawNode.Rest op)

theorem RaftLog.Alike.of_eq {log log' : RaftLog} (same : log' = log) : log.Alike log' := by
  rw [same]
  exact ⟨rfl, rfl, rfl, fun _ => rfl, rfl, rfl, rfl⟩

namespace RawNode

variable {rn rn' : RawNode} {op : HostOp}

theorem rest_of_raft (raft : rn'.raft = rn.raft)
    (since : rn'.commitSinceIndex = rn.commitSinceIndex) : rn.Rest op rn' :=
  .keep (by rw [raft]) (.of_eq (congrArg Raft.raftLog raft)) since

theorem genLightReady_log {light : LightReady} (done : rn.genLightReady = .ok (rn', light)) :
    rn'.raft.raftLog = rn.raft.raftLog := congrArg Core.log (genLightReady_lights done).core

theorem ready_parts {rd : Ready} (done : rn.ready = .ok (rn', rd)) :
    ∃ rn₁ rn₂ : RawNode, rn₁.raft = { rn.raft with readStates := [] } ∧
      rn₁.genLightReady = .ok (rn₂, rd.light) ∧
      rn'.raft = rn₂.raft ∧ rn'.commitSinceIndex = rn₂.commitSinceIndex ∧
      ((rn.raft.raftLog.unstable.snapshot = none ∧ rn₁.commitSinceIndex = rn.commitSinceIndex) ∨
        ∃ s, rn.raft.raftLog.unstable.snapshot = some s ∧ rn.commitSinceIndex ≤ s.metadata.index ∧
          rn₁.commitSinceIndex = s.metadata.index) := by
  obtain ⟨rn₁, dropped, done⟩ := bind_eq_ok.1 done
  obtain ⟨⟨rn₂, snapshot⟩, taken, done⟩ := bind_eq_ok.1 done
  obtain ⟨⟨rn₃, light⟩, lit, done⟩ := bind_eq_ok.1 done
  obtain ⟨rfl, rfl⟩ := ok_pair_inj done
  obtain ⟨first, -⟩ := dropRecords_ok dropped
  have raft₁ : rn₁.raft = rn.raft := by rw [first]
  have since₁ : rn₁.commitSinceIndex = rn.commitSinceIndex := by rw [first]
  have raft₂ : rn₂.raft = { rn.raft with readStates := [] } := by
    rw [(readySnapshot_ok taken).1, ← raft₁]
  refine ⟨rn₂, rn₃, raft₂, lit, rfl, rfl, ?_⟩
  rcases readySnapshot_cases taken with ⟨none, rfl, -⟩ | ⟨s, pending, ahead, rfl, -⟩
  · exact .inl ⟨by rw [← raft₁]; exact none, since₁⟩
  · exact .inr ⟨s, by rw [← raft₁]; exact pending, since₁ ▸ ahead, rfl⟩

/-- A Ready ends with a light one of a node that differs in its reads and its last handed out index
only. -/
theorem ready_light (op : HostOp) {rd : Ready} (sound : rn.raft.raftLog.Sound)
    (done : rn.ready = .ok (rn', rd)) :
    ∃ rn₁ rn₂, rn.Rests op rn₁ ∧ rn₁.raft = { rn.raft with readStates := [] } ∧
      rn₁.genLightReady = .ok (rn₂, rd.light) ∧ rn'.raft = rn₂.raft ∧
      rn'.commitSinceIndex = rn₂.commitSinceIndex := by
  obtain ⟨rn₁, rn₂, raft₁, lit, raft, since, handed⟩ := ready_parts done
  refine ⟨rn₁, rn₂, ?_, raft₁, lit, raft, since⟩
  have started : rn.Rest op { rn with raft := rn₁.raft } :=
    .keep (by rw [raft₁]) (.of_eq (by rw [raft₁])) rfl
  have log : rn₁.raft.raftLog = rn.raft.raftLog := by rw [raft₁]
  refine (Relation.ReflTransGen.single started).tail ?_
  rcases handed with ⟨-, same⟩ | ⟨s, pending, ahead, same⟩
  · exact rest_of_raft rfl same
  · refine .snapshot ?_ ?_ ahead rfl same
    · exact log.symm ▸ sound
    · exact log.symm ▸ pending

theorem rests_ready {rd : Ready} {store : MemStorage} (sound : rn.raft.raftLog.Sound)
    (done : rn.ready = .ok (rn', rd)) (stored : Host.writeReady rn'.raft.raftLog.store rd = .ok store) :
    rn.Rests op (Host.withStore rn' store) := by
  have readies := ready_readies done
  have written := (readies.written sound stored).busy
  have log : rn'.raft.raftLog = rn.raft.raftLog := congrArg Core.log readies.core
  obtain ⟨rn₁, rn₂, chain, raft₁, lit, raft, since⟩ := ready_light op sound done
  have sound₁ : rn₁.raft.raftLog.Sound := by
    rw [raft₁]
    exact sound
  refine (chain.tail (.light sound₁ lit)).tail (.keep ?_ ?_ since)
  · rw [← raft]
    rfl
  · show rn₂.raft.raftLog.Alike { rn'.raft.raftLog with store }
    rw [← raft, log]
    exact written

/-- A written Ready becomes stable. -/
theorem rest_commitReady {rd : Ready} {log : RaftLog} (busy : rn.Busy rd log)
    (done : rn.commitReady rd = .ok rn') :
    rn.Rest op rn' ∧ rn'.raft.raftLog.Sound := by
  obtain ⟨wf, none, -, alike, -, same⟩ := busy.settle done
  have positioned : ∀ s, rn'.raft.raftLog.unstable.snapshot = some s → s.metadata.index ≠ 0 := by
    rw [none]
    nofun
  refine ⟨.keep ?_ alike ?_, wf, positioned⟩
  · rw [same]
  · rw [same]

/-- Readys are reported as persisted. -/
theorem rest_onPersistReady {number : Nat} (sound : rn.raft.raftLog.Sound)
    (done : rn.onPersistReady number = .ok rn') : rn.Rest op rn' ∧ rn'.raft.raftLog.Sound := by
  have serves : Yields (rn.onPersistReady number) fun rn' =>
      Raft.Tracks 0 rn.raft rn'.raft ∧ rn'.commitSinceIndex = rn.commitSinceIndex := by
    unfold onPersistReady
    refine Meets.bind ?_ fun r₁ (one : Raft.Tracks 0 rn.raft r₁) => ?_
    · split
      · exact Raft.tracks_onPersistSnap _
      · exact Raft.Tracks.refl
    refine Meets.bind ?_ fun r₂ (two : Raft.Tracks 0 r₁ r₂) => ⟨one.trans two, rfl⟩
    split
    · exact Raft.tracks_onPersistEntries _ _
    · exact Raft.Tracks.refl
  obtain ⟨tracks, since⟩ := serves.of_eq_ok done
  exact ⟨.serve sound tracks (forward_onPersistReady done) since, (tracks.log sound).sound⟩

/-- An advanced Ready becomes stable, is reported as persisted and is followed by a light one. -/
theorem advanceAppend_light {rd : Ready} {light : LightReady}
    (done : rn.advanceAppend rd = .ok (rn', light)) :
    ∃ rn₁ rn₂ rn₃ light₃, rn.commitReady rd = .ok rn₁ ∧ rn₁.onPersistReady rn₁.maxNumber = .ok rn₂ ∧
      rn₂.genLightReady = .ok (rn₃, light₃) ∧ rn'.raft = rn₃.raft ∧
      rn'.commitSinceIndex = rn₃.commitSinceIndex := by
  unfold advanceAppend at done
  obtain ⟨rn₁, committed, done⟩ := bind_eq_ok.1 done
  obtain ⟨rn₂, persisted, done⟩ := bind_eq_ok.1 done
  obtain ⟨⟨rn₃, light₃⟩, lit, done⟩ := bind_eq_ok.1 done
  refine ⟨rn₁, rn₂, rn₃, light₃, committed, persisted, lit, ?_⟩
  simp only at done
  split at done
  · cases done
  obtain ⟨⟨rn₄, light₄⟩, moved, done⟩ := bind_eq_ok.1 done
  simp only at done
  split at done
  · cases done
  obtain ⟨rfl, -⟩ := ok_pair_inj done
  split at moved
  · obtain ⟨rfl, -⟩ := ok_pair_inj moved
    exact ⟨rfl, rfl⟩
  split at moved
  · obtain ⟨rfl, -⟩ := ok_pair_inj moved
    exact ⟨rfl, rfl⟩
  · cases moved

theorem rests_advanceAppend {rd : Ready} {log : RaftLog} {light : LightReady} (busy : rn.Busy rd log)
    (done : rn.advanceAppend rd = .ok (rn', light)) : rn.Rests op rn' ∧ rn'.raft.raftLog.Sound := by
  obtain ⟨rn₁, rn₂, rn₃, light₃, committed, persisted, lit, raft, since⟩ := advanceAppend_light done
  obtain ⟨settled, sound₁⟩ := rest_commitReady busy committed
  obtain ⟨reported, sound₂⟩ := rest_onPersistReady sound₁ persisted
  have sound₃ : rn₃.raft.raftLog.Sound := genLightReady_log lit ▸ sound₂
  have chain : rn.Rests op rn₃ :=
    ((Relation.ReflTransGen.single settled).tail reported).tail (.light sound₂ lit)
  exact ⟨chain.tail (rest_of_raft raft since), raft ▸ sound₃⟩

theorem rests_advance {rd : Ready} {log : RaftLog} {light : LightReady} (busy : rn.Busy rd log)
    (done : rn.advance rd = .ok (rn', light)) : rn.Rests op rn' := by
  unfold advance at done
  obtain ⟨⟨rn₁, light₁⟩, advanced, done⟩ := bind_eq_ok.1 done
  obtain ⟨rn₂, applied, done⟩ := bind_eq_ok.1 done
  obtain ⟨rfl, -⟩ := ok_pair_inj done
  obtain ⟨chain, sound⟩ := rests_advanceAppend busy advanced
  have forward : rn₁.Forward rn₂ := forward_advanceApplyTo applied
  obtain ⟨raft, moved, same⟩ := bind_eq_ok.1 applied
  obtain rfl := Except.ok.inj same
  exact chain.tail
    (.serve sound ((Raft.tracks_commitApply rn.commitSinceIndex).of_eq_ok moved) forward rfl)

end RawNode

namespace Host

variable {host host' : Host} {op : HostOp} {sent : List Message}

/-- How an operation reaches a running node: by a call, without one, or by a start. -/
inductive Reaches [ConfChangeCodec] (host : Host) (op : HostOp) (rn' : RawNode) : Prop where
  | call {rn : RawNode} (raw : host.raw = some rn) (idle : host.outstanding = none) (calls : op.Calls)
      (sound : rn.raft.raftLog.Sound) (forward : rn.Forward rn')
      (leads : rn.Leads op.proposalSize (rn.raft.activityOf op) rn')
  | rest {rn : RawNode} (raw : host.raw = some rn) (uncalled : op.Calls → host.outstanding ≠ none)
      (rests : rn.Rests op rn')
  | start {config : Config} {rng : Nat → Nat} (stopped : host.raw = none) (of : op = .restart config rng)
      (done : RawNode.new config host.durable.store rng = .ok (.ok rn'))
      (starts : rn'.Starts config host.durable.store)

variable [ConfChangeCodec] {rn' : RawNode}

theorem reaches_same (uncalled : op.Calls → host.outstanding ≠ none) (running : host.raw = some rn') :
    host.Reaches op rn' := .rest running uncalled .refl

/-- A call reaches its node when the machine is idle. -/
theorem reaches_call (tidy : host.Tidy) (calls : op.Calls) (stepped : host.step op = .ok (host', sent))
    (running : host'.raw = some rn') : host.Reaches op rn' := by
  have forward : ∀ rn, host.raw = some rn → host.outstanding = none → rn.Forward rn' := by
    intro rn raw idle
    obtain ⟨action, same, does⟩ := Host.step_call calls
    rcases Host.call_ok does (same host ▸ stepped) with ⟨rfl, -⟩ | ⟨other, raft, raw', -, acts, rfl, -⟩
    · obtain rfl := Option.some.inj (raw.symm.trans running)
      exact .refl
    · obtain rfl := Option.some.inj (raw.symm.trans raw')
      obtain rfl := Option.some.inj running
      exact acts.forward
  obtain ⟨action, same, leads⟩ := Host.step_leads calls
  rw [same] at stepped
  unfold Host.call at stepped
  split at stepped
  next rn raw idle =>
    obtain ⟨rn₁, called, stepped⟩ := bind_eq_ok.1 stepped
    obtain ⟨rfl, -⟩ := ok_pair_inj stepped
    obtain rfl := Option.some.inj running
    exact .call raw idle calls (tidy.idle rn raw idle).log (forward rn raw idle)
      ((leads rn).of_eq_ok called)
  next other =>
    obtain ⟨rfl, -⟩ := ok_pair_inj stepped
    exact reaches_same (fun _ idle => other _ running idle) running

/-- Every operation reaches the node that runs after it. -/
theorem step_reaches (tidy : host.Tidy) (stepped : host.step op = .ok (host', sent))
    (running : host'.raw = some rn') : host.Reaches op rn' := by
  by_cases calls : op.Calls
  · exact reaches_call tidy calls stepped running
  have uncalled : op.Calls → host.outstanding ≠ none := fun other => absurd other calls
  cases step_moves stepped with
  | stay => exact reaches_same uncalled running
  | call other => exact absurd other calls
  | @ready rn _ rd store raw idle taken written =>
      obtain rfl := Option.some.inj running
      exact .rest raw uncalled (RawNode.rests_ready (tidy.idle rn raw idle).log taken written)
  | flush pending => exact reaches_same uncalled running
  | send range => exact reaches_same uncalled running
  | @advance rn _ rd light raw outstanding written advanced =>
      obtain rfl := Option.some.inj running
      obtain ⟨log, busy⟩ := tidy.busy rn rd raw outstanding
      exact .rest raw uncalled (RawNode.rests_advance busy advanced)
  | @advanceAppend rn _ rd light raw outstanding written advanced =>
      obtain rfl := Option.some.inj running
      obtain ⟨log, busy⟩ := tidy.busy rn rd raw outstanding
      exact .rest raw uncalled (RawNode.rests_advanceAppend busy advanced).1
  | @advanceAppendAsync rn _ rd raw outstanding advanced =>
      obtain rfl := Option.some.inj running
      obtain ⟨log, busy⟩ := tidy.busy rn rd raw outstanding
      exact .rest raw uncalled (.single (RawNode.rest_commitReady busy advanced).1)
  | @onPersistReady rn _ number raw idle durable reported =>
      obtain rfl := Option.some.inj running
      exact .rest raw uncalled
        (.single (RawNode.rest_onPersistReady (tidy.idle rn raw idle).log reported).1)
  | @saveCommit rn store raw idle stored =>
      obtain rfl := Option.some.inj running
      subst stored
      exact .rest raw uncalled (.single (.keep rfl ⟨rfl, rfl, rfl, fun _ => rfl, rfl, rfl, rfl⟩ rfl))
  | @compact rn index store raw idle may compacted =>
      obtain rfl := Option.some.inj running
      exact .rest raw uncalled (.single (.compact rfl (tidy.idle rn raw idle).log may compacted rfl))
  | crash => cases running
  | restart stopped own started =>
      obtain rfl := Option.some.inj running
      exact .start stopped rfl started (RawNode.new_starts tidy.durable started)

end Host

end RaftRs

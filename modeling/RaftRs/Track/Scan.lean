import RaftRs.Log.Page
import RaftRs.Model.Play
import RaftRs.Node.Uniform
import RaftRs.Track.Count

namespace RaftRs

open Library

variable {handed : Nat}

/-- The applied and the last handed out index are committed and not behind a pending snapshot. -/
structure RaftLog.Ordered (handed : Nat) (log : RaftLog) : Prop where
  applied : log.applied ≤ log.committed
  since : handed ≤ log.committed
  pending : ∀ s, log.unstable.snapshot = some s → log.applied ≤ s.metadata.index ∧
    handed ≤ s.metadata.index

namespace RaftLog

variable {log log' : RaftLog}

theorem Ordered.keep (ordered : log.Ordered handed) (forward : log.Forward log')
    (applied : log'.applied = log.applied) (pending : log'.unstable.snapshot = log.unstable.snapshot) :
    log'.Ordered handed := by
  refine ⟨?_, ordered.since.trans forward.committed, ?_⟩
  · rw [applied]
    exact ordered.applied.trans forward.committed
  · rw [applied, pending]
    exact ordered.pending

/-- Handed out entries may be applied. -/
theorem Ordered.apply (ordered : log.Ordered handed) {index : Nat} (few : index ≤ handed)
    (done : log.appliedTo index = .ok log') : log'.Ordered handed := by
  unfold appliedTo at done
  split_ifs at done
  · obtain rfl := Except.ok.inj done
    exact ordered
  · obtain rfl := Except.ok.inj done
    refine ⟨few.trans ordered.since, ordered.since, fun s pending => ?_⟩
    have below := (ordered.pending s pending).2
    exact ⟨few.trans below, below⟩

/-- A restored snapshot lies above everything that was applied or handed out. -/
theorem Ordered.restore (ordered : log.Ordered handed) {snapshot : Snapshot}
    (done : log.restore snapshot = .ok log') : log'.Ordered handed := by
  unfold RaftLog.restore at done
  simp only at done
  split at done
  · cases done
  next newer =>
    obtain rfl := Except.ok.inj done
    have applied : log.applied ≤ snapshot.metadata.index := ordered.applied.trans (not_lt.1 newer)
    have since : handed ≤ snapshot.metadata.index := ordered.since.trans (not_lt.1 newer)
    refine ⟨applied, since, fun s pending => ?_⟩
    obtain rfl : snapshot = s := Option.some.inj pending
    exact ⟨applied, since⟩

theorem applied_append {ents : List Entry} (done : log.append ents = .ok log') :
    log'.applied = log.applied := by
  unfold append at done
  split at done
  · obtain rfl := Except.ok.inj done
    rfl
  · split_ifs at done
    obtain ⟨unstable, -, done⟩ := bind_eq_ok.1 done
    obtain rfl := Except.ok.inj done
    rfl

theorem applied_commitTo {toCommit : Nat} (done : log.commitTo toCommit = .ok log') :
    log'.applied = log.applied := by
  obtain ⟨rfl, -⟩ := commitTo_ok done
  rfl

theorem applied_maybeAppend {idx term committed : Nat} {ents : List Entry} {result : Option (Nat × Nat)}
    (done : log.maybeAppend idx term committed ents = .ok (log', result)) :
    log'.applied = log.applied := by
  unfold maybeAppend at done
  split_ifs at done
  · obtain ⟨middle, appended, done⟩ := bind_eq_ok.1 done
    obtain ⟨last, moved, done⟩ := bind_eq_ok.1 done
    obtain ⟨rfl, -⟩ := ok_pair_inj done
    rw [applied_commitTo moved]
    unfold appendFrom at appended
    split_ifs at appended
    · obtain rfl := Except.ok.inj appended
      rfl
    · obtain ⟨longer, grown, done⟩ := bind_eq_ok.1 appended
      obtain rfl := Except.ok.inj done
      rw [← applied_append grown]
      split <;> rfl
  · obtain ⟨rfl, -⟩ := ok_pair_inj done
    rfl

theorem applied_maybeCommit {maxIndex term : Nat} {moved : Bool}
    (done : log.maybeCommit maxIndex term = .ok (log', moved)) : log'.applied = log.applied := by
  unfold maybeCommit at done
  split at done
  · obtain ⟨middle, committed, done⟩ := bind_eq_ok.1 done
    cases done
    exact applied_commitTo committed
  · cases done
    rfl

theorem applied_maybePersist {index term : Nat} {moved : Bool}
    (done : log.maybePersist index term = (log', moved)) :
    log'.applied = log.applied := by
  rcases maybePersist_ok done with ⟨-, rfl⟩ | ⟨-, rfl, -⟩ <;> rfl

theorem applied_maybePersistSnap {index : Nat} {moved : Bool}
    (done : log.maybePersistSnap index = .ok (log', moved)) : log'.applied = log.applied := by
  unfold maybePersistSnap at done
  split_ifs at done <;> cases done <;> rfl

end RaftLog

namespace Raft

variable {r : Raft}

/-- The search for unapplied configuration changes before an election. -/
def hupScan (r : Raft) : Except Fatal Bool :=
  r.hasUnappliedConfChanges (r.raftLog.unstable.maybeFirstIndex.getD (r.raftLog.applied + 1))
    (r.raftLog.committed + 1) .transferLeader

/-- The kind of the campaign that an election starts with. -/
def hupCampaign (r : Raft) (transferLeader : Bool) : CampaignType :=
  if transferLeader then .transfer else if r.preVote then .preElection else .election

theorem hup_eq (role : r.state ≠ .leader) {transferLeader : Bool} :
    r.hup transferLeader = r.hupScan >>= fun changed =>
      if changed then .ok r else r.campaign (r.hupCampaign transferLeader) := by
  unfold hup hupScan hupCampaign
  rw [if_neg role]
  cases r.raftLog.unstable.maybeFirstIndex <;>
    exact congrArg _ (funext
      fun changed => by cases changed <;> cases transferLeader <;> cases r.preVote <;> rfl)

/-- A range contains a configuration change when the log has one there. -/
theorem hasConfChange_range {log : RaftLog} {low high : Nat} :
    hasConfChange (log.range low high) = true ↔ ∃ i e, low ≤ i ∧ i < high ∧ log.entryAt i = some e ∧
      (e.entryType = .entryConfChange ∨ e.entryType = .entryConfChangeV2) := by
  simp only [hasConfChange, List.any_eq_true, Bool.or_eq_true, beq_iff_eq, RaftLog.range,
    List.mem_filterMap, List.mem_range'_1]
  constructor
  · rintro ⟨e, ⟨i, ⟨least, most⟩, present⟩, changes⟩
    exact ⟨i, e, least, by omega, present, changes⟩
  · rintro ⟨i, e, least, most, present, changes⟩
    exact ⟨e, ⟨i, ⟨least, by omega⟩, present⟩, changes⟩

/-- The search reads the committed entries behind the applied index and behind a pending
snapshot. -/
theorem hupScan_eq {handed : Nat} (wf : r.raftLog.WF) (ordered : r.raftLog.Ordered handed)
    (covered : r.raftLog.unstable.snapshot = none → r.raftLog.applied < r.raftLog.committed →
      r.raftLog.firstIndex ≤ r.raftLog.applied + 1) :
    r.hupScan = .ok (hasConfChange
      (r.raftLog.range (max (r.raftLog.firstIndex - 1) r.raftLog.applied + 1)
        (r.raftLog.committed + 1))) := by
  have low := wf.low
  have high := wf.high
  have available : ∀ from', ¬ r.raftLog.Unavailable from' (r.raftLog.committed + 1) .transferLeader := by
    rintro from' ⟨-, -, blocked⟩
    simp [GetEntriesFor.canAsync] at blocked
  have scanned : ∀ from', r.raftLog.firstIndex ≤ from' →
      from' = max (r.raftLog.firstIndex - 1) r.raftLog.applied + 1 →
      r.hasUnappliedConfChanges from' (r.raftLog.committed + 1) .transferLeader = .ok (hasConfChange
        (r.raftLog.range (max (r.raftLog.firstIndex - 1) r.raftLog.applied + 1)
          (r.raftLog.committed + 1))) := by
    rintro from' first rfl
    rw [hasUnappliedConfChanges_eq wf first (by omega) (available _)]
    rcases Nat.lt_or_ge r.raftLog.applied r.raftLog.committed with behind | done
    · rw [decide_eq_true behind, Bool.true_and]
    · rw [RaftLog.range_of_le (by omega), decide_eq_false (by omega)]
      rfl
  unfold hupScan Unstable.maybeFirstIndex
  cases pending : r.raftLog.unstable.snapshot with
  | some s =>
      have first := RaftLog.firstIndex_of_snapshot pending
      have applied := (ordered.pending s pending).1
      exact scanned (s.metadata.index + 1) first.le (by omega)
  | none =>
      rcases Nat.lt_or_ge r.raftLog.applied r.raftLog.committed with behind | done
      · have first := covered pending behind
        exact scanned (r.raftLog.applied + 1) first (by omega)
      · rw [RaftLog.range_of_le (by omega)]
        unfold hasUnappliedConfChanges
        rw [if_pos done]
        rfl

/-- The search fails when the first entry behind the applied index is compacted. -/
theorem hupScan_compacted (none : r.raftLog.unstable.snapshot = none)
    (behind : r.raftLog.applied < r.raftLog.committed)
    (missing : r.raftLog.applied + 1 < r.raftLog.firstIndex) :
    r.hupScan = .error .unexpectedStorageError := by
  have positive : r.raftLog.committed + 1 - (r.raftLog.applied + 1) =
      r.raftLog.committed - r.raftLog.applied - 1 + 1 := by omega
  have refused :=
    RaftLog.slice_compacted (Nat.succ_le_succ behind.le) missing (some r.maxCommittedSizePerReady)
    .transferLeader
  unfold hupScan Unstable.maybeFirstIndex hasUnappliedConfChanges
  rw [none, if_neg (by omega)]
  simp only [Option.map_none, Option.getD_none, positive, RaftLog.scan, refused]
  rw [if_pos (by omega)]
  rfl

end Raft

section Act

variable {inp : Input → Prop} {c c' : Core}

/-- An atomic change keeps the applied index or applies what it was given. -/
theorem Act.applied_cases (act : Act inp c c') : c'.log.applied = c.log.applied ∨
    ∃ index, inp (.applied index) ∧ c.log.appliedTo index = .ok c'.log := by
  cases act with
  | apply given done => exact .inr ⟨_, given, done⟩
  | grow role admitted done => exact .inl (RaftLog.applied_append done)
  | leave role free done => exact .inl (RaftLog.applied_append done)
  | accept stepped kind heard role unasked above done => exact .inl (RaftLog.applied_maybeAppend done)
  | heartbeat stepped kind heard role done => exact .inl (RaftLog.applied_commitTo done)
  | restore stepped kind heard role fresh done =>
      unfold RaftLog.restore at done
      simp only at done
      split at done
      · cases done
      · obtain rfl := Except.ok.inj done
        exact .inl rfl
  | fastForward stepped kind heard role agrees done => exact .inl (RaftLog.applied_commitTo done)
  | commitByVote stepped kind role positive done => exact .inl (RaftLog.applied_maybeCommit done)
  | commitByRead stepped kind heard role done => exact .inl (RaftLog.applied_maybeCommit done)
  | commitByQuorum role acked done => exact .inl (RaftLog.applied_maybeCommit done)
  | persist reported done =>
      rw [Core.countOwn_rest]
      exact .inl (RaftLog.applied_maybePersist done)
  | persistSnap reported done => exact .inl (RaftLog.applied_maybePersistSnap done)
  | @confirm ctx status readOnly confirmed role pending acked done =>
      obtain ⟨_, _, rest⟩ := Core.responds_rest { c with readOnly } confirmed
      rw [rest]
      exact .inl rfl
  | @respondNow m stepped kind role immediate =>
      obtain ⟨_, _, rest⟩ := c.respond_rest m c.log.committed
      rw [rest]
      exact .inl rfl
  | _ => exact .inl rfl

/-- An atomic change that applies handed out entries keeps the order. -/
theorem Act.ordered (few : ∀ index, inp (.applied index) → index ≤ handed)
    (ordered : c.log.Ordered handed) (act : Act inp c c') : c'.log.Ordered handed := by
  rcases act.snapshot_cases with same | ⟨m, -, -, -, restored⟩
  · rcases act.applied_cases with kept | ⟨index, given, done⟩
    · exact ordered.keep act.forward.log kept same
    · exact ordered.apply (few index given) done
  · exact ordered.restore restored

/-- A sequence of such changes keeps the order. -/
theorem Acts.ordered (few : ∀ index, inp (.applied index) → index ≤ handed)
    (ordered : c.log.Ordered handed) (acts : Acts inp c c') : c'.log.Ordered handed := by
  induction acts with
  | refl => exact ordered
  | tail _ act ih => exact act.ordered few ih

/-- Without a message no snapshot is restored. -/
theorem Acts.snapshot_kept (unheard : ∀ m, ¬ inp (.message m)) (acts : Acts inp c c') :
    c'.log.unstable.snapshot = c.log.unstable.snapshot := by
  induction acts with
  | refl => rfl
  | tail _ act ih =>
      rcases act.snapshot_cases with same | ⟨m, stepped, -⟩
      · exact same.trans ih
      · exact absurd stepped (unheard m)

theorem Acts.applied_kept (ungiven : ∀ index, ¬ inp (.applied index)) (acts : Acts inp c c') :
    c'.log.applied = c.log.applied := by
  induction acts with
  | refl => rfl
  | tail _ act ih =>
      rcases act.applied_cases with same | ⟨index, given, -⟩
      · exact same.trans ih
      · exact absurd given (ungiven index)

end Act

namespace RawNode

variable {rn rn' : RawNode}

/-- The applied and the last handed out index of a node are committed. -/
def Behind (rn : RawNode) : Prop :=
  rn.raft.raftLog.applied ≤ rn.raft.raftLog.committed ∧ rn.commitSinceIndex ≤ rn.raft.raftLog.committed

/-- A node without a pending snapshot is in order when its indexes are committed. -/
theorem Behind.ordered (behind : rn.Behind) (none : rn.raft.raftLog.unstable.snapshot = none) :
    rn.raft.raftLog.Ordered rn.commitSinceIndex :=
  ⟨behind.1, behind.2, fun _ pending => absurd (none.symm.trans pending) nofun⟩

/-- A written Ready becomes stable and leaves the node in order. -/
theorem Behind.commitReady (behind : rn.Behind) {rd : Ready} {log : RaftLog} (busy : rn.Busy rd log)
    (done : rn.commitReady rd = .ok rn') :
    rn'.Behind ∧ rn'.raft.raftLog.unstable.snapshot = none := by
  obtain ⟨-, none, -, alike, -, same⟩ := busy.settle done
  have since : rn'.commitSinceIndex = rn.commitSinceIndex := by rw [same]
  refine ⟨⟨?_, ?_⟩, none⟩
  · rw [alike.applied, alike.committed]
    exact behind.1
  · rw [since, alike.committed]
    exact behind.2

/-- Persisted Readys leave the applied index and a pending snapshot alone. -/
theorem onPersistReady_kept {number : Nat} (done : rn.onPersistReady number = .ok rn') :
    rn'.raft.raftLog.applied = rn.raft.raftLog.applied ∧
      rn'.raft.raftLog.unstable.snapshot = rn.raft.raftLog.unstable.snapshot ∧
      rn'.commitSinceIndex = rn.commitSinceIndex := by
  obtain ⟨acts, same⟩ := (does_onPersistReady rfl).of_eq_ok done
  refine ⟨Acts.applied_kept (fun _ => not_false) acts, Acts.snapshot_kept (fun _ => not_false) acts, ?_⟩
  rw [same]

/-- A persisted Ready is advanced and leaves the node in order. -/
theorem Behind.advanceAppend (behind : rn.Behind) {rd : Ready} {log : RaftLog} {light : LightReady}
    (busy : rn.Busy rd log) (done : rn.advanceAppend rd = .ok (rn', light)) :
    rn'.Behind ∧ rn'.raft.raftLog.unstable.snapshot = none := by
  have rests : rn.Rests .advanceAppend rn' := (rests_advanceAppend busy done).1
  have forward := forward_advanceAppend done
  obtain ⟨rn₁, rn₂, rn₃, light₃, committed, persisted, lit, raft, -⟩ := advanceAppend_light done
  obtain ⟨-, none⟩ := behind.commitReady busy committed
  obtain ⟨-, -, -, alike, -⟩ := busy.settle committed
  obtain ⟨applied, pending, -⟩ := onPersistReady_kept persisted
  have log : rn'.raft.raftLog = rn₂.raft.raftLog := by rw [raft, genLightReady_log lit]
  refine ⟨⟨?_, rests.behind behind.2⟩, ?_⟩
  · have kept : rn'.raft.raftLog.applied = rn.raft.raftLog.applied := by rw [log, applied, alike.applied]
    rw [kept]
    exact behind.1.trans forward.log.committed
  · rw [log, pending, none]

/-- A persisted and applied Ready is advanced and leaves the node in order. -/
theorem Behind.advance (behind : rn.Behind) {rd : Ready} {log : RaftLog} {light : LightReady}
    (busy : rn.Busy rd log) (done : rn.advance rd = .ok (rn', light)) :
    rn'.raft.raftLog.Ordered rn'.commitSinceIndex := by
  obtain ⟨⟨rn₁, light₁⟩, advanced, done⟩ := bind_eq_ok.1 done
  obtain ⟨rn₂, applied, done⟩ := bind_eq_ok.1 done
  obtain ⟨rfl, -⟩ := ok_pair_inj done
  obtain ⟨behind₁, none⟩ := behind.advanceAppend busy advanced
  have rests : rn.Rests .advance rn₁ := (rests_advanceAppend busy advanced).1
  obtain ⟨raft, moved, same⟩ := bind_eq_ok.1 applied
  obtain rfl := Except.ok.inj same
  have acts : Acts (Eq (.applied rn.commitSinceIndex)) rn₁.raft.core raft.core :=
    ((Raft.does_commitApply rfl).of_eq_ok moved).1
  refine Acts.ordered (fun index given => ?_) (behind₁.ordered none) acts
  rw [← Input.applied.inj given]
  exact rests.since_le

end RawNode

namespace Host

variable {start host host' : Host} {op : HostOp} {ops : List HostOp} {sent : List Message}

/-- The application reports as applied what it was handed and starts its node with a committed
applied index. -/
def Heeds (host : Host) : HostOp → Prop
  | .advanceApplyTo applied => ∀ rn, host.raw = some rn → applied ≤ rn.commitSinceIndex
  | .restart config rng => ∀ rn, RawNode.new config host.durable.store rng = .ok (.ok rn) →
      config.applied ≤ rn.raft.raftLog.committed
  | _ => True

/-- A machine whose node has its indexes in order whenever no Ready is being handled. -/
structure Ordered (host : Host) : Prop where
  tidy : host.Tidy
  behind : ∀ rn, host.raw = some rn → rn.Behind
  idle : ∀ rn, host.raw = some rn → host.outstanding = none → rn.raft.raftLog.Ordered rn.commitSinceIndex

/-- A heedful call uses applied indexes that were handed out. -/
theorem Heeds.few {rn : RawNode} (heeds : host.Heeds op) (raw : host.raw = some rn) {index : Nat}
    (given : rn.inputs op.inputs (.applied index)) : index ≤ rn.commitSinceIndex := by
  rcases given with given | few
  · cases op with
    | advanceApplyTo applied =>
        obtain rfl : index = applied := given
        exact heeds rn raw
    | _ => exact given.elim
  · exact few

theorem behind_of_ordered {rn : RawNode} (ordered : rn.raft.raftLog.Ordered rn.commitSinceIndex) :
    rn.Behind :=
  ⟨ordered.applied, ordered.since⟩

theorem ordered_of_node (tidy : host'.Tidy)
    (node : ∀ rn, host'.raw = some rn → rn.raft.raftLog.Ordered rn.commitSinceIndex) : host'.Ordered :=
  ⟨tidy, fun rn raw => behind_of_ordered (node rn raw), fun rn raw _ => node rn raw⟩

/-- A new node starts in order when its applied index is committed. -/
theorem ordered_start {rn : RawNode} {config : Config} {store : MemStorage}
    (starts : rn.Starts config store) (applied : config.applied ≤ rn.raft.raftLog.committed) :
    rn.raft.raftLog.Ordered rn.commitSinceIndex := by
  have none : rn.raft.raftLog.unstable.snapshot = none := by
    rw [starts.log]
    rfl
  have low := starts.low
  refine RawNode.Behind.ordered ⟨?_, starts.since ▸ applied⟩ none
  rw [starts.applied]
  split
  · exact low
  · exact applied

/-- A taken Ready leaves the applied index and what was handed out behind the commit index. -/
theorem Ordered.ready {rn rn' : RawNode} {rd : Ready} {store : MemStorage} (ordered : host.Ordered)
    (raw : host.raw = some rn) (idle : host.outstanding = none) (taken : rn.ready = .ok (rn', rd))
    (written : writeReady rn'.raft.raftLog.store rd = .ok store) : (withStore rn' store).Behind := by
  have behind := ordered.behind rn raw
  have rests : rn.Rests .ready (withStore rn' store) :=
    RawNode.rests_ready (ordered.tidy.idle rn raw idle).log taken written
  have log : rn'.raft.raftLog = rn.raft.raftLog := congrArg Core.log (RawNode.ready_readies taken).core
  refine ⟨?_, rests.behind behind.2⟩
  show rn'.raft.raftLog.applied ≤ rn'.raft.raftLog.committed
  rw [log]
  exact behind.1

/-- A report of persisted Readys keeps the order. -/
theorem ordered_onPersistReady {rn rn' : RawNode} {number : Nat}
    (ordered : rn.raft.raftLog.Ordered rn.commitSinceIndex)
    (reported : rn.onPersistReady number = .ok rn') :
    rn'.raft.raftLog.Ordered rn'.commitSinceIndex := by
  obtain ⟨applied, pending, since⟩ := RawNode.onPersistReady_kept reported
  rw [since]
  exact ordered.keep (RawNode.forward_onPersistReady reported).log applied pending

/-- The order does not depend on the storage. -/
theorem ordered_withStore {rn : RawNode} (ordered : rn.raft.raftLog.Ordered rn.commitSinceIndex)
    (store : MemStorage) :
    (withStore rn store).raft.raftLog.Ordered (withStore rn store).commitSinceIndex :=
  ⟨ordered.applied, ordered.since, ordered.pending⟩

/-- Every heedful move keeps the order. -/
theorem Moves.ordered (ordered : host.Ordered) (tidy : host'.Tidy) (heeds : host.Heeds op)
    (moves : host.Moves op host' sent) : host'.Ordered := by
  have one : ∀ {rn : RawNode}, host'.raw = some rn → rn.raft.raftLog.Ordered rn.commitSinceIndex →
      host'.Ordered := by
    intro rn raw node
    refine ordered_of_node tidy fun rn' running => ?_
    obtain rfl := Option.some.inj (raw.symm.trans running)
    exact node
  cases moves with
  | stay => exact ordered
  | @call _ rn raft calls raw idle acts =>
      exact one rfl (Acts.ordered (fun _ => heeds.few raw) (ordered.idle rn raw idle) acts)
  | ready raw idle taken written =>
      refine ⟨tidy, fun rn' running => ?_, fun rn' _ none => by cases none⟩
      obtain rfl := Option.some.inj running
      exact ordered.ready raw idle taken written
  | flush pending => exact ⟨tidy, ordered.behind, ordered.idle⟩
  | send range => exact ⟨tidy, ordered.behind, ordered.idle⟩
  | @advance rn rn' rd light raw outstanding written advanced =>
      obtain ⟨log, busy⟩ := ordered.tidy.busy rn rd raw outstanding
      exact one rfl ((ordered.behind rn raw).advance busy advanced)
  | @advanceAppend rn rn' rd light raw outstanding written advanced =>
      obtain ⟨log, busy⟩ := ordered.tidy.busy rn rd raw outstanding
      obtain ⟨settled, none⟩ := (ordered.behind rn raw).advanceAppend busy advanced
      exact one rfl (settled.ordered none)
  | @advanceAppendAsync rn rn' rd raw outstanding advanced =>
      obtain ⟨log, busy⟩ := ordered.tidy.busy rn rd raw outstanding
      obtain ⟨settled, none⟩ := (ordered.behind rn raw).commitReady busy advanced
      exact one rfl (settled.ordered none)
  | onPersistReady raw idle durable reported =>
      exact one rfl (ordered_onPersistReady (ordered.idle _ raw idle) reported)
  | saveCommit raw idle stored => exact one rfl (ordered_withStore (ordered.idle _ raw idle) _)
  | compact raw idle may compacted => exact one rfl (ordered_withStore (ordered.idle _ raw idle) _)
  | crash => exact ordered_of_node tidy fun rn' running => by cases running
  | restart stopped own started =>
      exact one rfl (ordered_start (RawNode.new_starts ordered.tidy.durable started) (heeds _ started))

variable [ConfChangeCodec]

theorem step_ordered (ordered : host.Ordered) (formed : op.Tidy) (heeds : host.Heeds op)
    (stepped : host.step op = .ok (host', sent)) : host'.Ordered :=
  (step_moves stepped).ordered ordered (step_tidy ordered.tidy formed stepped) heeds

/-- In every state that a heedful application reaches, an election of a node that does not lead
finishes its search and campaigns exactly when no configuration change is committed behind the
applied index and the installed snapshot, unless a stored snapshot is not yet applied. -/
theorem election_scan {rn : RawNode} (tidy : start.Tidy) (stopped : start.raw = none)
    (formed : ∀ op ∈ ops, op.Tidy) (heeds : Obeys Heeds start ops) (done : start.run ops = .ok host)
    (raw : host.raw = some rn) (idle : host.outstanding = none) (role : rn.raft.state ≠ .leader) :
    (∃ changed, rn.raft.hupScan = .ok changed ∧
      (changed = true ↔ ∃ i e, max (rn.raft.raftLog.firstIndex - 1) rn.raft.raftLog.applied < i ∧
        i ≤ rn.raft.raftLog.committed ∧ rn.raft.raftLog.entryAt i = some e ∧
        (e.entryType = .entryConfChange ∨ e.entryType = .entryConfChangeV2)) ∧
      ∀ transferLeader, rn.raft.hup transferLeader =
        if changed then .ok rn.raft else rn.raft.campaign (rn.raft.hupCampaign transferLeader)) ↔
    (rn.raft.raftLog.unstable.snapshot = none → rn.raft.raftLog.applied < rn.raft.raftLog.committed →
      rn.raft.raftLog.firstIndex ≤ rn.raft.raftLog.applied + 1) := by
  have ordered : host.Ordered := by
    refine heeds.keeps (P := Ordered) (fun op inside _ _ _ ordered heeds stepped => ?_) ?_ done
    · exact step_ordered ordered (formed op inside) heeds stepped
    · refine ordered_of_node tidy fun rn raw => ?_
      cases stopped.symm.trans raw
  have wf : rn.raft.raftLog.WF := (ordered.tidy.idle rn raw idle).log.wf
  constructor
  · rintro ⟨changed, scanned, -⟩ none behind
    by_contra missing
    rw [Raft.hupScan_compacted none behind (Nat.lt_of_not_le missing)] at scanned
    cases scanned
  · intro covered
    have scanned := Raft.hupScan_eq wf (ordered.idle rn raw idle) covered
    refine ⟨_, scanned, ?_, fun transferLeader => ?_⟩
    · simp only [Raft.hasConfChange_range, Nat.succ_le_iff, Nat.lt_succ_iff]
    · rw [Raft.hup_eq role, scanned]
      rfl

omit [ConfChangeCodec] in
/-- A node with a snapshot that is not yet stored searches behind the snapshot. -/
theorem election_scan_pending : let _ := ConfChangeCodec.sample
    ∃ ops host rn, (fresh 1 { voters := [1, 2] }).run ops = .ok host ∧ host.raw = some rn ∧
      rn.raft.raftLog.applied < rn.raft.raftLog.committed ∧ ∃ changed, rn.raft.hupScan = .ok changed ∧
        (changed = true ↔ ∃ i e, max (rn.raft.raftLog.firstIndex - 1) rn.raft.raftLog.applied < i ∧
          i ≤ rn.raft.raftLog.committed ∧ rn.raft.raftLog.entryAt i = some e ∧
          (e.entryType = .entryConfChange ∨ e.entryType = .entryConfChangeV2)) ∧
        ∀ transferLeader, rn.raft.hup transferLeader =
          if changed then .ok rn.raft else rn.raft.campaign (rn.raft.hupCampaign transferLeader) := by
  intro _
  let snapshot : Snapshot := { metadata := { index := 5, term := 1, confState := { voters := [1, 2] } } }
  let ops : List HostOp :=
    [.restart { id := 1 } fun _ => 0,
      .deliver { msgType := .msgSnapshot, fromId := 2, toId := 1, term := 1, snapshot }]
  have passed : (fresh 1 { voters := [1, 2] }).ends ops (fun host => host.outstanding.isNone &&
      host.raw.any fun rn =>
      rn.raft.state == .follower && rn.raft.raftLog.unstable.snapshot == some snapshot &&
        decide (rn.raft.raftLog.applied < rn.raft.raftLog.committed)) = true := by decide +kernel
  have formed : ∀ op ∈ ops, op.Tidy := by
    rw [List.forall_mem_cons, List.forall_mem_singleton]
    refine ⟨nofun, fun m same => ?_⟩
    obtain rfl := HostOp.deliver.inj same
    exact ⟨nofun, fun _ => by decide⟩
  have heeds : Obeys Heeds (fresh 1 { voters := [1, 2] }) ops :=
    ⟨fun _ _ => Nat.zero_le _, fun _ _ _ => ⟨trivial, fun _ _ _ => trivial⟩⟩
  obtain ⟨host, done, tested⟩ := run_ends passed
  simp only [Bool.and_eq_true, beq_iff_eq, Option.any_eq_true, Option.isNone_iff_eq_none,
    decide_eq_true_eq] at tested
  obtain ⟨idle, rn, running, ⟨follows, pending⟩, behind⟩ := tested
  refine ⟨ops, host, rn, done, running, behind, ?_⟩
  refine (election_scan (tidy_fresh 1 { voters := [1, 2] }) rfl formed heeds done running idle ?_).2
    fun none => ?_
  · rw [follows]
    nofun
  · cases pending.symm.trans none

omit [ConfChangeCodec] in
/-- A node that has stored a snapshot and not yet applied it fails at the start of an election. -/
theorem stored_snapshot_fails : let _ := ConfChangeCodec.sample
    ∃ ops host rn, (fresh 1 { voters := [1, 2] }).run ops = .ok host ∧ (∀ op ∈ ops, op.Tidy) ∧
      Obeys Heeds (fresh 1 { voters := [1, 2] }) ops ∧ host.raw = some rn ∧ host.outstanding = none ∧
      rn.raft.state = .follower ∧ rn.raft.raftLog.entryAt 5 = none ∧
      rn.raft.hupScan = .error .unexpectedStorageError ∧
        host.step .campaign = .error .unexpectedStorageError := by
  intro _
  let snapshot : Snapshot := { metadata := { index := 5, term := 1, confState := { voters := [1, 2] } } }
  let ops : List HostOp :=
    [.restart { id := 1 } fun _ => 0,
      .deliver { msgType := .msgSnapshot, fromId := 2, toId := 1, term := 1, snapshot },
      .ready, .flush, .advanceAppend]
  have passed : (fresh 1 { voters := [1, 2] }).ends ops
      (fun host => host.fails .campaign .unexpectedStorageError &&
      host.outstanding.isNone && host.raw.any fun rn => rn.raft.state == .follower &&
        rn.raft.raftLog.entryAt 5 == none && rn.raft.raftLog.unstable.snapshot == none &&
        decide (rn.raft.raftLog.applied < rn.raft.raftLog.committed) &&
        decide (rn.raft.raftLog.applied + 1 < rn.raft.raftLog.firstIndex)) = true := by decide +kernel
  have formed : ∀ op ∈ ops, op.Tidy := by
    simp only [ops, List.forall_mem_cons]
    refine ⟨by simp [HostOp.Tidy], fun m same => ?_, by simp [HostOp.Tidy], by simp [HostOp.Tidy],
      by simp [HostOp.Tidy], List.forall_mem_nil _⟩
    obtain rfl := HostOp.deliver.inj same
    exact ⟨by simp, fun _ => by decide⟩
  have heeds : Obeys Heeds (fresh 1 { voters := [1, 2] }) ops :=
    ⟨fun _ _ => Nat.zero_le _,
      fun _ _ _ => ⟨trivial, fun _ _ _ => ⟨trivial, fun _ _ _ => ⟨trivial, fun _ _ _ =>
      ⟨trivial, fun _ _ _ => trivial⟩⟩⟩⟩⟩
  obtain ⟨host, done, tested⟩ := run_ends passed
  simp only [Bool.and_eq_true, beq_iff_eq, Option.any_eq_true, Option.isNone_iff_eq_none,
    decide_eq_true_eq] at tested
  obtain ⟨⟨failed, idle⟩, rn, running, ⟨⟨⟨follows, absent⟩, none⟩, behind⟩, missing⟩ := tested
  exact ⟨ops, host, rn, done, formed, heeds, running, idle, follows, absent,
    Raft.hupScan_compacted none behind missing, fails_iff.1 failed⟩

end Host

end RaftRs

import RaftRs.Act.Emit
import RaftRs.Node.Saved

namespace RaftRs

open Library

/-- Two stored configurations have the same voters. -/
structure ConfState.Alike (cs cs' : ConfState) : Prop where
  voters : ∀ id, id ∈ cs'.voters ↔ id ∈ cs.voters
  votersOutgoing : ∀ id, id ∈ cs'.votersOutgoing ↔ id ∈ cs.votersOutgoing

namespace ConfState.Alike

variable {cs cs' cs'' : ConfState}

theorem refl (cs : ConfState) : cs.Alike cs := ⟨fun _ => Iff.rfl, fun _ => Iff.rfl⟩

theorem trans (first : cs.Alike cs') (second : cs'.Alike cs'') : cs.Alike cs'' :=
  ⟨fun id => (second.voters id).trans (first.voters id),
    fun id => (second.votersOutgoing id).trans (first.votersOutgoing id)⟩

theorem symm (alike : cs.Alike cs') : cs'.Alike cs :=
  ⟨fun id => (alike.voters id).symm, fun id => (alike.votersOutgoing id).symm⟩

end ConfState.Alike

theorem mem_of_eqWithoutOrder {lhs rhs : List Nat} (same : eqWithoutOrder lhs rhs = true) (id : Nat) :
    id ∈ rhs ↔ id ∈ lhs := by
  simp only [eqWithoutOrder, Bool.and_eq_true, List.all_eq_true, List.contains_iff_mem] at same
  exact ⟨same.2 id, same.1 id⟩

theorem alike_of_confStateEq {lhs rhs : ConfState} (same : confStateEq lhs rhs = true) :
    lhs.Alike rhs := by
  unfold confStateEq at same
  split at same
  next equal => exact ⟨fun id => by rw [equal.1], fun id => by rw [equal.2.2.1]⟩
  next =>
    simp only [Bool.and_eq_true] at same
    obtain ⟨⟨⟨⟨voters, -⟩, outgoing⟩, -⟩, -⟩ := same
    exact ⟨mem_of_eqWithoutOrder voters, mem_of_eqWithoutOrder outgoing⟩

/-- Voter sets with the same voters have the same majorities. -/
theorem MajorityConfig.Agrees.congr {first second : MajorityConfig} {p : Nat → Prop}
    (agrees : first.Agrees p) (same : ∀ id, id ∈ first.voters.elems ↔ id ∈ second.voters.elems) :
    second.Agrees p := by
  have perm : first.voters.elems.Perm second.voters.elems :=
    (List.perm_ext_iff_of_nodup first.voters.nodup second.voters.nodup).2 same
  rcases agrees with empty | ⟨members, nodup, all, enough⟩
  · left
    have none : first.voters.elems = [] := by simpa [isEmpty, KeySet.isEmpty] using empty
    rw [none] at perm
    simp [isEmpty, KeySet.isEmpty, perm.nil_eq.symm]
  · refine Or.inr ⟨members, nodup, fun voter inside => ?_, ?_⟩
    · exact ⟨(same voter).1 (all voter inside).1, (all voter inside).2⟩
    · unfold KeySet.len at enough ⊢
      rwa [← perm.length_eq]

/-- The quorums of a configuration are those of the stored one with the same voters. -/
theorem ConfState.Alike.agrees {cs : ConfState} {conf : Configuration} {p : Nat → Prop}
    (alike : cs.Alike conf.toConfState) (agrees : conf.voters.Agrees p) : cs.jointConfig.Agrees p := by
  refine ⟨agrees.1.congr fun id => ?_, agrees.2.congr fun id => ?_⟩
  · exact (alike.voters id).trans (KeySet.mem_ofList _ _).symm
  · exact (alike.votersOutgoing id).trans (KeySet.mem_ofList _ _).symm

/-- A snapshot message carries the voters of a configuration. -/
def Message.Uniform (cs : ConfState) (m : Message) : Prop :=
  m.msgType = .msgSnapshot → cs.Alike m.snapshot.metadata.confState

/-- A node uses, stores and sends the voters of a configuration. -/
structure Core.Uniform (cs : ConfState) (c : Core) : Prop where
  conf : cs.Alike c.conf.toConfState
  store : cs.Alike c.log.store.raftState.confState
  snapshot : ∀ s, c.log.unstable.snapshot = some s → cs.Alike s.metadata.confState
  msgs : ∀ m ∈ c.msgs, m.Uniform cs

variable {cs : ConfState} {inp : Input → Prop} {permitted : Config → Prop} {c c' : Core} {m : Message}

/-- A snapshot of the storage has its configuration and stands at its commit index or at the
requested one. -/
theorem MemStorage.snapshot_metadata {store store' : MemStorage} {request : Nat} {snapshot : Snapshot}
    (taken : store.snapshot request = .ok (store', .ok snapshot)) :
    snapshot.metadata.confState = store.raftState.confState ∧
      snapshot.metadata.index = max store.raftState.hardState.commit request := by
  have core : ∀ {snap : Snapshot}, store.snapshotCore = .ok snap →
      snap.metadata.confState = store.raftState.confState ∧
        snap.metadata.index = store.raftState.hardState.commit := by
    intro snap done
    unfold snapshotCore at done
    simp only at done
    split_ifs at done
    · obtain rfl := Except.ok.inj done
      exact ⟨rfl, rfl⟩
    · split at done
      · cases done
      · split_ifs at done
        split at done
        · obtain rfl := Except.ok.inj done
          exact ⟨rfl, rfl⟩
        · cases done
  unfold MemStorage.snapshot at taken
  split_ifs at taken
  · cases taken
  · obtain ⟨snap, done, taken⟩ := bind_eq_ok.1 taken
    obtain ⟨confState, index⟩ := core done
    split_ifs at taken with below
    · obtain ⟨-, same⟩ := ok_pair_inj taken
      obtain rfl := Except.ok.inj same
      exact ⟨confState, by simp only; omega⟩
    · obtain ⟨-, same⟩ := ok_pair_inj taken
      obtain rfl := Except.ok.inj same
      exact ⟨confState, by omega⟩

/-- A snapshot of the log is the pending one or comes from the storage. -/
theorem RaftLog.snapshot_source {log log' : RaftLog} {request : Nat} {snapshot : Snapshot}
    (taken : log.snapshot request = .ok (log', .ok snapshot)) :
    log.unstable.snapshot = some snapshot ∨
      ∃ store, log.store.snapshot request = .ok (store, .ok snapshot) := by
  have stored : ∀ {run}, run = log.store.snapshot request →
      (run >>= fun x => .ok ({ log with store := x.1 }, x.2)) =
        (.ok (log', .ok snapshot) : Except Fatal (RaftLog × Except StorageError Snapshot)) →
      ∃ store, log.store.snapshot request = .ok (store, .ok snapshot) := by
    intro run read taken
    subst read
    obtain ⟨⟨store, result⟩, read, taken⟩ := bind_eq_ok.1 taken
    obtain ⟨-, rfl⟩ := ok_pair_inj taken
    exact ⟨store, read⟩
  unfold RaftLog.snapshot at taken
  simp only at taken
  split at taken
  next snap pending =>
    split_ifs at taken
    · obtain ⟨-, same⟩ := ok_pair_inj taken
      obtain rfl := Except.ok.inj same
      exact .inl pending
    · exact .inr (stored rfl taken)
  next => exact .inr (stored rfl taken)

theorem Core.Emits.uniform (uniform : c.Uniform cs) (emits : c.Emits inp c' m) : m.Uniform cs := by
  cases emits with
  | sends sends =>
      intro kind
      cases sends with
      | voteReject stepped other nonzero info =>
          rcases other with other | other <;> simp [Raft.voteRespMsgType, other] at kind
      | forward stepped role other =>
          rcases other with ⟨other, -⟩ | ⟨other, -⟩ | ⟨other, -⟩ <;> simp [other] at kind
      | _ => cases kind
  | snapshot role same taken =>
      intro _
      rcases RaftLog.snapshot_source taken with pending | ⟨store, stored⟩
      · exact uniform.snapshot _ pending
      · show cs.Alike _
        rw [(MemStorage.snapshot_metadata stored).1]
        exact uniform.store
  | batched role queued kind same =>
      intro other
      cases kind.symm.trans other
  | _ =>
      intro kind
      cases kind

/-- A pending snapshot stays or comes from a message. -/
theorem Act.snapshot_cases (act : Act inp c c') : c'.log.unstable.snapshot = c.log.unstable.snapshot ∨
    ∃ m, inp (.message m) ∧ m.msgType = .msgSnapshot ∧ c.Hears m ∧
      c.log.restore m.snapshot = .ok c'.log := by
  cases act with
  | stepDown => exact .inl rfl
  | grow role admitted done => exact .inl (RaftLog.rooted_append done).snapshot
  | leave role free done => exact .inl (RaftLog.rooted_append done).snapshot
  | accept stepped kind heard role unasked above done =>
      exact .inl (RaftLog.rooted_maybeAppend done).snapshot
  | heartbeat stepped kind heard role done => exact .inl (RaftLog.marks_commitTo done).rooted.snapshot
  | restore stepped kind heard role fresh done => exact .inr ⟨_, stepped, kind, heard, done⟩
  | fastForward stepped kind heard role agrees done =>
      exact .inl (RaftLog.marks_commitTo done).rooted.snapshot
  | commitByVote stepped kind role positive done =>
      exact .inl (RaftLog.marks_maybeCommit done).rooted.snapshot
  | commitByRead stepped kind heard role done =>
      exact .inl (RaftLog.marks_maybeCommit done).rooted.snapshot
  | commitByQuorum role acked done => exact .inl (RaftLog.marks_maybeCommit done).rooted.snapshot
  | persist reported done =>
      rw [Core.countOwn_rest]
      exact .inl (RaftLog.marks_maybePersist done).rooted.snapshot
  | persistSnap reported done => exact .inl (RaftLog.marks_maybePersistSnap done).rooted.snapshot
  | apply given done => exact .inl (RaftLog.marks_appliedTo done).rooted.snapshot
  | @confirm ctx status readOnly confirmed role pending acked done =>
      obtain ⟨_, _, rest⟩ := Core.responds_rest { c with readOnly } confirmed
      rw [rest]
      exact .inl rfl
  | @respondNow m stepped kind role immediate =>
      obtain ⟨_, _, rest⟩ := c.respond_rest m c.log.committed
      rw [rest]
      exact .inl rfl
  | _ => exact .inl rfl

/-- A configuration stays, comes from a snapshot or from an applied change. -/
theorem Act.conf_cases (act : Act inp c c') : c'.conf = c.conf ∨ (∃ cc, inp (.confChange cc)) ∨
    ∃ m, inp (.message m) ∧ m.msgType = .msgSnapshot ∧
      confStateEq m.snapshot.metadata.confState c'.conf.toConfState = true := by
  cases act with
  | restore stepped kind heard role fresh done same rostered =>
      exact .inr (.inr ⟨_, stepped, kind, same⟩)
  | reconfigure changed current kept => exact .inr (.inl ⟨_, changed⟩)
  | persist reported done =>
      rw [Core.countOwn_rest]
      exact .inl rfl
  | @confirm ctx status readOnly confirmed role pending acked done =>
      obtain ⟨_, _, rest⟩ := Core.responds_rest { c with readOnly } confirmed
      rw [rest]
      exact .inl rfl
  | @respondNow m stepped kind role immediate =>
      obtain ⟨_, _, rest⟩ := c.respond_rest m c.log.committed
      rw [rest]
      exact .inl rfl
  | _ => exact .inl rfl

/-- Every atomic change without a configuration change keeps the voters of a node. -/
theorem Act.uniform (heard : ∀ m, inp (.message m) → m.Uniform cs) (fixed : ∀ cc, ¬ inp (.confChange cc))
    (uniform : c.Uniform cs) (act : Act inp c c') : c'.Uniform cs where
  conf := by
    rcases act.conf_cases with same | ⟨cc, changed⟩ | ⟨m, stepped, kind, same⟩
    · rw [same]
      exact uniform.conf
    · exact absurd changed (fixed cc)
    · exact (heard m stepped kind).trans (alike_of_confStateEq same)
  store := by
    rw [act.store_same.raftState]
    exact uniform.store
  snapshot s pending := by
    rcases act.snapshot_cases with same | ⟨m, stepped, kind, -, restored⟩
    · exact uniform.snapshot s (same ▸ pending)
    · obtain rfl := Option.some.inj ((RaftLog.restore_rest restored).2.symm.trans pending)
      exact heard m stepped kind
  msgs m inside := by
    rcases act.emits inside with old | new
    · exact uniform.msgs m old
    · exact new.uniform uniform

/-- A sequence of atomic changes without a configuration change keeps the voters of a node. -/
theorem Acts.uniform (heard : ∀ m, inp (.message m) → m.Uniform cs)
    (fixed : ∀ cc, ¬ inp (.confChange cc)) (uniform : c.Uniform cs) (acts : Acts inp c c') :
    c'.Uniform cs := by
  induction acts with
  | refl => exact uniform
  | tail _ act ih => exact act.uniform heard fixed ih

/-- A machine keeps the voters of a configuration in its node, its writes and its messages. -/
abbrev Host.Uniform (cs : ConfState) : Host → Prop :=
  Host.Bears (Core.Uniform cs) (fun store => cs.Alike store.raftState.confState) (Message.Uniform cs)

namespace Host

variable {host host' : Host} {sent : List Message}

/-- A written Ready leaves the voters of its snapshot or of the storage. -/
theorem writeReady_alike {store store' : MemStorage} {rd : Ready}
    (done : writeReady store rd = .ok store') (stored : cs.Alike store.raftState.confState)
    (handed : rd.snapshot.isEmpty = false → cs.Alike rd.snapshot.metadata.confState) :
    cs.Alike store'.raftState.confState := by
  obtain ⟨middle, last, unapplied, applied, appended, same⟩ := writeReady_ok done
  have written : cs.Alike middle.raftState.confState := by
    cases empty : rd.snapshot.isEmpty with
    | true =>
        rw [unapplied empty]
        exact stored
    | false =>
        have installed := applied empty
        unfold MemStorage.applySnapshot at installed
        simp only at installed
        split_ifs at installed
        obtain rfl := Except.ok.inj installed
        exact handed empty
  have kept : cs.Alike last.raftState.confState := by
    rw [MemStorage.raftState_append appended]
    exact written
  rw [same]
  cases rd.hs with
  | none => exact kept
  | some hs => exact kept

/-- A rewritten storage keeps its voters. -/
theorem uniform_withStore {rn : RawNode} {store : MemStorage} (uniform : rn.raft.core.Uniform cs)
    (kept : store.raftState.confState = rn.raft.raftLog.store.raftState.confState) :
    (withStore rn store).raft.core.Uniform cs ∧ cs.Alike store.raftState.confState := by
  have stored : cs.Alike store.raftState.confState := by
    rw [kept]
    exact uniform.store
  exact ⟨⟨uniform.conf, stored, uniform.snapshot, uniform.msgs⟩, stored⟩

/-- A taken Ready writes a snapshot with the voters of the machine. -/
theorem Uniform.ready {rn rn' : RawNode} {rd : Ready} {store : MemStorage} (uniform : host.Uniform cs)
    (raw : host.raw = some rn) (readies : rn.Readies rn' rd)
    (written : writeReady rn'.raft.raftLog.store rd = .ok store) (delivered : List Delivery)
    (reads : List ReadState) :
    Uniform cs { host with
      raw := some (withStore rn' store)
      pending := host.pending ++ [{ number := rd.number, store, msgs := rd.persistedMessages }]
      outstanding := some rd, delivered, reads } := by
  have node := uniform.running rn raw
  have log : rn'.raft.raftLog = rn.raft.raftLog := congrArg Core.log readies.core
  rw [log] at written
  have stored : cs.Alike store.raftState.confState := by
    refine writeReady_alike written node.store fun nonempty => ?_
    cases pending : rn.raft.raftLog.unstable.snapshot with
    | none =>
        rw [readies.snapshot, pending] at nonempty
        cases nonempty
    | some s =>
        rw [readies.snapshot, pending]
        exact node.snapshot s pending
  obtain ⟨chain, waiting⟩ :=
    uniform.issue { number := rd.number, store, msgs := rd.persistedMessages } stored
    (readies.queued node.msgs).2
  refine ⟨?_, chain, waiting⟩
  rintro _ running
  cases running
  rw [readies.core_withStore store]
  exact ⟨node.conf, stored, node.snapshot, List.forall_mem_nil _⟩

/-- A node whose written Ready has become stable keeps its voters. -/
theorem uniform_settled {rn rn' : RawNode} {rd : Ready} {log : RaftLog} (busy : rn.Busy rd log)
    (done : rn.commitReady rd = .ok rn') (node : rn.raft.core.Uniform cs) :
    rn'.raft.core.Uniform cs := by
  obtain ⟨-, snapshot, -, -, store, same⟩ := busy.settle done
  have core : rn'.raft.core = { rn.raft.core with log := rn'.raft.raftLog } := by
    rw [same]
    rfl
  rw [core]
  refine ⟨node.conf, ?_, fun s pending => (by cases snapshot.symm.trans pending), node.msgs⟩
  show cs.Alike rn'.raft.raftLog.store.raftState.confState
  rw [store]
  exact node.store

/-- A node starts with the voters of its storage. -/
theorem uniform_starts {config : Config} {store : MemStorage} {rn : RawNode}
    (starts : rn.Starts config store) (stored : cs.Alike store.raftState.confState) :
    rn.raft.core.Uniform cs := by
  have log : rn.raft.core.log = _ := starts.log
  have msgs : rn.raft.core.msgs = [] := by rw [starts.core]
  refine ⟨stored.trans (alike_of_confStateEq starts.conf).symm, ?_, ?_, ?_⟩
  · rw [log]
    exact stored
  · rw [log]
    intro s pending
    cases pending
  · rw [msgs]
    exact List.forall_mem_nil _

/-- Every phase without a configuration change keeps the voters of a machine. -/
theorem Phase.uniform (heard : ∀ m, inp (.message m) → m.Uniform cs)
    (fixed : ∀ cc, ¬ inp (.confChange cc)) (tidy : host.Tidy) (uniform : host.Uniform cs)
    (phase : Phase inp permitted host host' sent) :
    host'.Uniform cs ∧ ∀ m ∈ sent, m.Uniform cs := by
  cases phase with
  | @call rn raft raw idle acts =>
      have heard : ∀ m, rn.inputs inp (.message m) → m.Uniform cs := heard
      have node := Acts.uniform heard fixed (uniform.running rn raw) acts
      exact ⟨uniform.resume rfl rfl rfl rfl node, List.forall_mem_nil _⟩
  | @ready rn rn' rd store raw idle done written =>
      have readies := RawNode.ready_readies done
      exact ⟨uniform.ready raw readies written _ _, (readies.queued (uniform.running rn raw).msgs).1⟩
  | flush pending => exact ⟨uniform.flush pending, List.forall_mem_nil _⟩
  | send ahead durable =>
      exact ⟨⟨uniform.running, uniform.chain, uniform.waiting⟩, fun m => uniform.released⟩
  | @stable rn rn' rd raw outstanding done =>
      obtain ⟨log, busy⟩ := tidy.busy rn rd raw outstanding
      exact ⟨uniform.resume rfl rfl rfl rfl (uniform_settled busy done (uniform.running rn raw)),
        List.forall_mem_nil _⟩
  | @report rn raft number snapIndex index term raw idle durable position acts =>
      have node := Acts.uniform (fun _ => False.elim) (fun _ => not_false) (uniform.running rn raw) acts
      exact ⟨uniform.resume rfl rfl rfl rfl node, List.forall_mem_nil _⟩
  | @light rn rn' light raw idle done withheld current =>
      have lights := RawNode.genLightReady_lights done
      have node := uniform.running rn raw
      refine ⟨uniform.resume rfl rfl rfl rfl ?_, ?_⟩
      · show rn'.raft.core.Uniform cs
        rw [lights.core]
        exact ⟨node.conf, node.store, node.snapshot, List.forall_mem_nil _⟩
      · rw [lights.messages]
        exact node.msgs
  | @saveCommit rn store raw idle done =>
      have kept : store.raftState.confState = rn.raft.raftLog.store.raftState.confState := by
        rw [done]
        rfl
      obtain ⟨node, stored⟩ := uniform_withStore (uniform.running rn raw) kept
      exact ⟨uniform.rewrite node stored rn.maxNumber, List.forall_mem_nil _⟩
  | @compact rn compactIndex store raw idle may done =>
      have sound : rn.raft.raftLog.Sound := (tidy.idle rn raw idle).log
      obtain ⟨-, -, -, state⟩ := compacted_store sound.wf may done
      obtain ⟨node, stored⟩ :=
        uniform_withStore (uniform.running rn raw) (congrArg RaftState.confState state)
      exact ⟨uniform.rewrite node stored rn.maxNumber, List.forall_mem_nil _⟩
  | crash => exact ⟨uniform.crash, List.forall_mem_nil _⟩
  | @restart config rng rn stopped same allowed done =>
      have node :=
        uniform_starts (RawNode.new_starts tidy.durable done) (uniform.chain _ List.mem_cons_self)
      exact ⟨uniform.resume rfl rfl rfl rfl node, List.forall_mem_nil _⟩

end Host

theorem Message.Own.uniform (ofOwn : m.Own) : m.Uniform cs := by
  intro other
  obtain ⟨kind | kind | kind, -⟩ := ofOwn <;> exact absurd (kind.symm.trans other) nofun

theorem HostOp.Fixed.no_confChange {op : HostOp} (fixed : op.Fixed) (cc : ConfChangeV2) :
    ¬ op.inputs (.confChange cc) := by
  cases op with
  | applyConfChange cc => exact absurd fixed not_false
  | _ => exact not_false

namespace Cluster

variable [ConfChangeCodec] {allowed : Host → HostOp → Prop} {cluster : Cluster}

/-- Every machine of a run with one fixed configuration keeps its voters. -/
theorem Reachable.uniform (fixed : ∀ host op, allowed host op → op.Fixed)
    (reachable : Reachable allowed cs cluster) :
    (∀ id, (cluster.hosts id).Uniform cs) ∧ ∀ m ∈ cluster.network, m.Uniform cs := by
  refine reachable.keepsTidy (P := fun _ host => host.Uniform cs) (fun id => ?_) ?_ ?_
  · refine ⟨fun rn running => (by cases running), fun write member => ?_, fun write member => ?_⟩
    · rw [List.mem_singleton.1 member]
      exact .refl cs
    · rw [List.mem_singleton.1 member]
      exact List.forall_mem_nil _
  · exact fun _ => Message.Own.uniform
  · rintro op ⟨host, permitted⟩ heard _ host host' sent tidy _ uniform phase
    exact phase.uniform (fun m input => (heard m input).2) (fixed _ op permitted).no_confChange tidy
      uniform

end Cluster

end RaftRs

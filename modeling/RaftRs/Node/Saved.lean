import RaftRs.Node.Forward
import RaftRs.Node.Runs

namespace RaftRs

open Library

/-- The term of a node and its vote in that term. -/
structure Ballot where
  term : Nat
  vote : Nat

/-- A ballot comes before another one: its term is over, or it still allows the vote of the
other. -/
def Ballot.Before (b b' : Ballot) : Prop :=
  b.term < b'.term ∨ (b.term = b'.term ∧ (b.vote = b'.vote ∨ b.vote = invalidId))

theorem Ballot.Before.refl (b : Ballot) : b.Before b := .inr ⟨rfl, .inl rfl⟩

theorem Ballot.Before.trans {b b' b'' : Ballot} (first : b.Before b') (second : b'.Before b'') :
    b.Before b'' := by
  rcases first with lower | ⟨term, vote⟩
  · rcases second with lower' | ⟨term', -⟩
    · exact .inl (lower.trans lower')
    · exact .inl (term' ▸ lower)
  · rcases second with lower' | ⟨term', vote'⟩
    · exact .inl (term ▸ lower')
    · refine .inr ⟨term.trans term', ?_⟩
      rcases vote with same | unset
      · rw [same]
        exact vote'
      · exact .inr unset

theorem Ballot.Before.term_le {b b' : Ballot} (before : b.Before b') : b.term ≤ b'.term :=
  before.elim le_of_lt fun same => same.1.le

/-- The ballot of a hard state. -/
def HardState.ballot (hs : HardState) : Ballot := { term := hs.term, vote := hs.vote }

/-- The ballot of a storage. -/
def MemStorage.ballot (store : MemStorage) : Ballot := store.raftState.hardState.ballot

/-- The ballot of a node. -/
def Core.ballot (c : Core) : Ballot := { term := c.term, vote := c.vote }

theorem Core.Forward.ballot {c c' : Core} (forward : c.Forward c') : c.ballot.Before c'.ballot := by
  rcases forward.term.lt_or_eq with lower | same
  · exact .inl lower
  · exact .inr ⟨same, (forward.vote same.symm).imp Eq.symm And.left⟩

/-- A snapshot gives the storage a later ballot. -/
theorem MemStorage.ballot_applySnapshot {store store' : MemStorage} {snapshot : Snapshot}
    (done : store.applySnapshot snapshot = .ok store') : store.ballot.Before store'.ballot := by
  unfold applySnapshot at done
  simp only at done
  split_ifs at done
  obtain rfl := Except.ok.inj done
  rcases (le_max_left store.raftState.hardState.term snapshot.metadata.term).lt_or_eq with lower | same
  · exact .inl lower
  · exact .inr ⟨same, .inl rfl⟩

theorem MemStorage.raftState_append {store store' : MemStorage} {ents : List Entry}
    (done : store.append ents = .ok store') : store'.raftState = store.raftState := by
  unfold append at done
  split at done
  · obtain rfl := Except.ok.inj done
    rfl
  · split_ifs at done
    obtain rfl := Except.ok.inj done
    rfl

/-- A written Ready leaves its hard state, or the former ballot where it has none. -/
theorem Host.writeReady_ballot {store store' : MemStorage} {rd : Ready} {hs : HardState}
    (done : writeReady store rd = .ok store') (before : hs.ballot.Before store.ballot) :
    (rd.hs.getD hs).ballot.Before store'.ballot := by
  obtain ⟨middle, last, unapplied, applied, appended, same⟩ := writeReady_ok done
  have raised : store.ballot.Before middle.ballot := by
    cases empty : rd.snapshot.isEmpty with
    | true =>
        rw [unapplied empty]
        exact .refl _
    | false => exact MemStorage.ballot_applySnapshot (applied empty)
  have kept : last.ballot = middle.ballot := by
    unfold MemStorage.ballot
    rw [MemStorage.raftState_append appended]
  cases written : rd.hs with
  | none =>
      rw [written] at same
      rw [same, Option.getD_none]
      exact (before.trans raised).trans (kept ▸ .refl _)
  | some hs' =>
      rw [written] at same
      rw [same, Option.getD_some]
      exact .refl _

/-- A storage keeps its content. -/
structure MemStorage.Same (store store' : MemStorage) : Prop where
  entries : store'.entries = store.entries
  snapshotMetadata : store'.snapshotMetadata = store.snapshotMetadata
  raftState : store'.raftState = store.raftState

theorem MemStorage.Same.of_eq {store store' : MemStorage} (same : store' = store) :
    store.Same store' := by
  subst same
  exact ⟨rfl, rfl, rfl⟩

theorem MemStorage.Same.trans {store store' store'' : MemStorage} (first : store.Same store')
    (second : store'.Same store'') : store.Same store'' :=
  ⟨second.entries.trans first.entries, second.snapshotMetadata.trans first.snapshotMetadata,
    second.raftState.trans first.raftState⟩

theorem MemStorage.Same.ballot {store store' : MemStorage} (same : store.Same store') :
    store'.ballot = store.ballot := congrArg (fun state => state.hardState.ballot) same.raftState

/-- Appended unstable entries leave a pending snapshot alone. -/
theorem Unstable.snapshot_truncateAndAppend {unstable unstable' : Unstable} {ents : List Entry}
    (done : unstable.truncateAndAppend ents = .ok unstable') :
    unstable'.snapshot = unstable.snapshot := by
  unfold truncateAndAppend at done
  split at done
  · cases done
  · simp only at done
    split_ifs at done
    · obtain rfl := Except.ok.inj done
      rfl
    · obtain rfl := Except.ok.inj done
      rfl
    · obtain ⟨_, -, done⟩ := bind_eq_ok.1 done
      obtain rfl := Except.ok.inj done
      rfl

/-- Two logs over the same storage and the same pending snapshot. -/
structure RaftLog.Rooted (log log' : RaftLog) : Prop where
  store : log'.store = log.store
  snapshot : log'.unstable.snapshot = log.unstable.snapshot

namespace RaftLog

variable {log log' : RaftLog}

theorem Marks.rooted (marks : log.Marks log') : log.Rooted log' :=
  ⟨marks.store, congrArg Unstable.snapshot marks.unstable⟩

theorem rooted_append {ents : List Entry} (done : log.append ents = .ok log') : log.Rooted log' := by
  unfold append at done
  split at done
  · obtain rfl := Except.ok.inj done
    exact ⟨rfl, rfl⟩
  · split_ifs at done
    obtain ⟨unstable, appended, done⟩ := bind_eq_ok.1 done
    obtain rfl := Except.ok.inj done
    exact ⟨rfl, Unstable.snapshot_truncateAndAppend appended⟩

theorem rooted_appendFrom {idx conflictIdx : Nat} {ents : List Entry}
    (done : log.appendFrom idx conflictIdx ents = .ok log') : log.Rooted log' := by
  unfold appendFrom at done
  split_ifs at done
  · obtain rfl := Except.ok.inj done
    exact ⟨rfl, rfl⟩
  · obtain ⟨middle, appended, done⟩ := bind_eq_ok.1 done
    obtain rfl := Except.ok.inj done
    have kept := rooted_append appended
    split <;> exact ⟨kept.store, kept.snapshot⟩

theorem rooted_maybeAppend {idx term committed : Nat} {ents : List Entry} {result : Option (Nat × Nat)}
    (done : log.maybeAppend idx term committed ents = .ok (log', result)) : log.Rooted log' := by
  unfold maybeAppend at done
  split_ifs at done
  · obtain ⟨middle, appended, done⟩ := bind_eq_ok.1 done
    obtain ⟨last, moved, done⟩ := bind_eq_ok.1 done
    obtain ⟨rfl, -⟩ := ok_pair_inj done
    have kept := rooted_appendFrom appended
    have marks := (marks_commitTo moved).rooted
    exact ⟨marks.store.trans kept.store, marks.snapshot.trans kept.snapshot⟩
  · obtain ⟨rfl, -⟩ := ok_pair_inj done
    exact ⟨rfl, rfl⟩

/-- A restored snapshot is pending and leaves the storage alone until it is written. -/
theorem restore_rest {snapshot : Snapshot} (done : log.restore snapshot = .ok log') :
    log'.store = log.store ∧ log'.unstable.snapshot = some snapshot := by
  unfold restore at done
  simp only at done
  split at done
  · cases done
  · obtain rfl := Except.ok.inj done
    exact ⟨rfl, rfl⟩

end RaftLog

variable {inp : Input → Prop} {permitted : Config → Prop}

theorem Act.store_same {c c' : Core} (act : Act inp c c') : c.log.store.Same c'.log.store := by
  cases act with
  | grow role admitted done => exact .of_eq (RaftLog.rooted_append done).store
  | leave role free done => exact .of_eq (RaftLog.rooted_append done).store
  | accept stepped kind heard role unasked above done =>
      exact .of_eq (RaftLog.rooted_maybeAppend done).store
  | heartbeat stepped kind heard role done => exact .of_eq (RaftLog.marks_commitTo done).store
  | restore stepped kind heard role fresh done => exact .of_eq (RaftLog.restore_rest done).1
  | fastForward stepped kind heard role agrees done => exact .of_eq (RaftLog.marks_commitTo done).store
  | commitByVote stepped kind role positive done => exact .of_eq (RaftLog.marks_maybeCommit done).store
  | commitByRead stepped kind heard role done => exact .of_eq (RaftLog.marks_maybeCommit done).store
  | commitByQuorum role acked done => exact .of_eq (RaftLog.marks_maybeCommit done).store
  | persist reported done =>
      rw [Core.countOwn_rest]
      exact .of_eq (RaftLog.marks_maybePersist done).store
  | persistSnap reported done => exact .of_eq (RaftLog.marks_maybePersistSnap done).store
  | apply given done => exact .of_eq (RaftLog.marks_appliedTo done).store
  | @confirm ctx status readOnly confirmed role pending acked done =>
      obtain ⟨_, _, rest⟩ := Core.responds_rest { c with readOnly } confirmed
      rw [rest]
      exact .of_eq rfl
  | @respondNow m stepped kind role immediate =>
      obtain ⟨_, _, rest⟩ := c.respond_rest m c.log.committed
      rw [rest]
      exact .of_eq rfl
  | _ => exact ⟨rfl, rfl, rfl⟩

theorem Acts.store_same {c c' : Core} (acts : Acts inp c c') : c.log.store.Same c'.log.store := by
  induction acts with
  | refl => exact .of_eq rfl
  | tail _ act ih => exact ih.trans act.store_same

/-- A machine has stored the ballots that its node has handed out. -/
structure Host.Saved (host : Host) : Prop where
  idle : ∀ rn, host.raw = some rn → host.outstanding = none →
    rn.prevHs.ballot.Before rn.raft.raftLog.store.ballot ∧ rn.prevHs.ballot.Before rn.raft.core.ballot
  busy : ∀ rn rd, host.raw = some rn → host.outstanding = some rd →
    rn.raft.core.ballot.Before rn.raft.raftLog.store.ballot ∧
      (rd.hs.getD rn.prevHs).ballot = rn.raft.core.ballot

namespace Host

variable {host host' : Host} {sent : List Message}

theorem saved_of_none (stopped : host.raw = none) : host.Saved :=
  ⟨fun _ running => absurd (stopped.symm.trans running) nofun,
    fun _ _ running => absurd (stopped.symm.trans running) nofun⟩

/-- The hard state that a Ready hands out has the ballot of the node. -/
theorem ballot_readies {rn rn' : RawNode} {rd : Ready} (readies : rn.Readies rn' rd) :
    (rd.hs.getD rn.prevHs).ballot = rn.raft.core.ballot := by
  rw [readies.hs]
  by_cases same : rn.raft.hardState = rn.prevHs
  · rw [if_neg (not_not.2 same), Option.getD_none, ← same]
    rfl
  · rw [if_pos same]
    rfl

/-- A call moves the node forward and leaves the stored ballot alone. -/
theorem acts_saved {r r' : Raft} {hs : HardState} (acts : Acts inp r.core r'.core)
    (saved : hs.ballot.Before r.raftLog.store.ballot ∧ hs.ballot.Before r.core.ballot) :
    hs.ballot.Before r'.raftLog.store.ballot ∧ hs.ballot.Before r'.core.ballot := by
  have store : r'.raftLog.store.ballot = r.raftLog.store.ballot := (Acts.store_same acts).ballot
  rw [store]
  exact ⟨saved.1, saved.2.trans (Acts.forward acts).ballot⟩

/-- A machine without a Ready has stored the ballot that its node has handed out. -/
theorem saved_of_idle {rn : RawNode} (raw : host.raw = some rn) (idle : host.outstanding = none)
    (node : rn.prevHs.ballot.Before rn.raft.raftLog.store.ballot ∧
      rn.prevHs.ballot.Before rn.raft.core.ballot) :
    host.Saved where
  idle rn' running _ := by
    obtain rfl := Option.some.inj (raw.symm.trans running)
    exact node
  busy _ _ _ busy := absurd (idle.symm.trans busy) nofun

/-- A taken Ready is written with the ballot of its node. -/
theorem saved_ready {rn rn' : RawNode} {rd : Ready} {store : MemStorage} (readies : rn.Readies rn' rd)
    (written : writeReady rn'.raft.raftLog.store rd = .ok store)
    (stored : rn.prevHs.ballot.Before rn.raft.raftLog.store.ballot) :
    (withStore rn' store).raft.core.ballot.Before store.ballot ∧
      (rd.hs.getD rn'.prevHs).ballot = (withStore rn' store).raft.core.ballot := by
  have log : rn'.raft.raftLog = rn.raft.raftLog := congrArg Core.log readies.core
  have ballot : (withStore rn' store).raft.core.ballot = rn.raft.core.ballot := by
    rw [readies.core_withStore store]
    rfl
  rw [log] at written
  refine ⟨?_, ?_⟩
  · rw [ballot, ← ballot_readies readies]
    exact writeReady_ballot written stored
  · rw [ballot, readies.prevHs]
    exact ballot_readies readies

/-- A node starts with the ballot of its storage. -/
theorem saved_starts {config : Config} {store : MemStorage} {rn : RawNode}
    (starts : rn.Starts config store) :
    rn.prevHs.ballot.Before rn.raft.raftLog.store.ballot ∧
      rn.prevHs.ballot.Before rn.raft.core.ballot := by
  have ballot : rn.raft.core.ballot = store.ballot := by
    rw [starts.core]
    rfl
  have same : rn.raft.raftLog.store = store := by
    rw [starts.log]
    rfl
  have prevHs : rn.prevHs.ballot = rn.raft.core.ballot := by
    rw [starts.prevHs]
    rfl
  rw [prevHs, ballot, same]
  exact ⟨.refl _, .refl _⟩

/-- Every phase keeps the stored ballots of a machine. -/
theorem Phase.saved (tidy : host.Tidy) (saved : host.Saved)
    (phase : Phase inp permitted host host' sent) :
    host'.Saved := by
  cases phase with
  | @call rn raft raw idle acts =>
      exact saved_of_idle rfl idle (acts_saved acts (saved.idle rn raw idle))
  | @ready rn rn' rd store raw idle done written =>
      refine ⟨fun _ _ none => absurd none nofun, ?_⟩
      rintro _ _ running busy
      cases running
      cases busy
      exact saved_ready (RawNode.ready_readies done) written (saved.idle rn raw idle).1
  | flush pending => exact ⟨saved.idle, saved.busy⟩
  | send ahead durable => exact ⟨saved.idle, saved.busy⟩
  | @stable rn rn' rd raw outstanding done =>
      obtain ⟨log, busy⟩ := tidy.busy rn rd raw outstanding
      obtain ⟨-, -, -, -, store, same⟩ := busy.settle done
      obtain ⟨stored, handed⟩ := saved.busy rn rd raw outstanding
      have prevHs : rn'.prevHs = rd.hs.getD rn.prevHs := by rw [same]
      have ballot : rn'.raft.core.ballot = rn.raft.core.ballot := by
        rw [same]
        rfl
      refine saved_of_idle rfl rfl ?_
      rw [store, prevHs, handed, ballot]
      exact ⟨stored, .refl _⟩
  | @report rn raft number snapIndex index term raw idle durable position acts =>
      exact saved_of_idle rfl idle (acts_saved acts (saved.idle rn raw idle))
  | @light rn rn' light raw idle done withheld current =>
      have lights := RawNode.genLightReady_lights done
      obtain ⟨stored, reached⟩ := saved.idle rn raw idle
      have log : rn'.raft.raftLog = rn.raft.raftLog := congrArg Core.log lights.core
      have prevHs : rn'.prevHs = rn.prevHs := by rw [lights.rest]
      have ballot : rn'.raft.hardState.ballot = rn.prevHs.ballot := by
        rw [← prevHs]
        simp only [HardState.ballot, Raft.hardState, current.1, current.2]
      refine saved_of_idle rfl idle ⟨?_, .refl _⟩
      show rn'.raft.hardState.ballot.Before rn'.raft.raftLog.store.ballot
      rw [ballot, log]
      exact stored
  | @saveCommit rn store raw idle done =>
      subst done
      exact saved_of_idle rfl idle (saved.idle rn raw idle)
  | @compact rn compactIndex store raw idle may done =>
      obtain ⟨stored, reached⟩ := saved.idle rn raw idle
      have sound : rn.raft.raftLog.Sound := (tidy.idle rn raw idle).log
      obtain ⟨-, -, -, state⟩ := compacted_store sound.wf may done
      have ballot : store.ballot = rn.raft.raftLog.store.ballot :=
        congrArg (fun state => state.hardState.ballot) state
      refine saved_of_idle rfl idle ⟨?_, reached⟩
      show rn.prevHs.ballot.Before store.ballot
      rw [ballot]
      exact stored
  | crash => exact saved_of_none rfl
  | @restart config rng rn stopped same allowed done =>
      exact saved_of_idle rfl (tidy.stopped stopped)
        (saved_starts (RawNode.new_starts tidy.durable done))

end Host

namespace Cluster

variable [ConfChangeCodec] {allowed : Host → HostOp → Prop} {cs : ConfState} {cluster : Cluster}

/-- A property that every phase of a tidy machine keeps holds in every reachable cluster. -/
theorem Reachable.keepsTidy {P : Nat → Host → Prop} {Q : Message → Prop}
    (start : ∀ id, P id (Host.fresh id cs)) (own : ∀ m : Message, m.Own → Q m)
    (keeps : ∀ op, (∃ host, allowed host op) → (∀ m, op.inputs (.message m) → m.Tidy ∧ Q m) →
      ∀ id host host' sent,
      host.Tidy → host.Saved → P id host → Host.Phase op.inputs op.permits host host' sent →
        P id host' ∧ ∀ m ∈ sent, Q m)
    (reachable : Reachable allowed cs cluster) :
    (∀ id, P id (cluster.hosts id)) ∧ ∀ m ∈ cluster.network, Q m := by
  have both :=
    reachable.keeps (P := fun id host => host.Tidy ∧ host.Saved ∧ P id host) (Q := fun m => m.Tidy ∧ Q m)
    (fun id => ⟨Host.tidy_fresh id cs, Host.saved_of_none rfl, start id⟩) ?_ ?_
  · exact ⟨fun id => (both.1 id).2.2, fun m inside => (both.2 m inside).2⟩
  · intro m ofOwn
    exact ⟨ofOwn.tidy, own m ofOwn⟩
  · rintro op permits heard id host host' sent ⟨tidy, saved, holds⟩ phase
    obtain ⟨tidy', sentTidy⟩ := phase.tidy (fun m input => (heard m input).1) tidy
    obtain ⟨holds', sent'⟩ := keeps op permits heard id host host' sent tidy saved holds phase
    exact ⟨⟨tidy', phase.saved tidy saved, holds'⟩, fun m inside => ⟨sentTidy m inside, sent' m inside⟩⟩

/-- Every machine of a reachable cluster has stored the ballots that its node has handed out. -/
theorem Reachable.saved (reachable : Reachable allowed cs cluster) (id : Nat) :
    (cluster.hosts id).Saved := by
  refine (reachable.keepsTidy (P := fun _ host => host.Saved) (Q := fun _ => True)
    (fun _ => Host.saved_of_none rfl)
    (fun _ _ => trivial) ?_).1 id
  intro op _ _ _ host host' sent tidy saved _ phase
  exact ⟨phase.saved tidy saved, fun _ _ => trivial⟩

end Cluster

end RaftRs

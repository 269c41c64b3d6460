import RaftRs.Node.Uniform

namespace RaftRs

open Library

/-- The commit indexes that a node has stored or handed out are at most its own. -/
structure RawNode.Marked (rn : RawNode) : Prop where
  stored : rn.raft.raftLog.store.raftState.hardState.commit ≤ rn.raft.raftLog.committed
  handed : rn.prevHs.commit ≤ rn.raft.raftLog.committed

/-- The commit indexes that a machine has stored or handed out are at most that of its node. -/
structure Host.Marked (host : Host) : Prop where
  running : ∀ rn, host.raw = some rn → rn.Marked
  outstanding : ∀ rn rd hs, host.raw = some rn → host.outstanding = some rd → rd.hs = some hs →
    hs.commit ≤ rn.raft.raftLog.committed

/-- A snapshot stands inside of the log or at the requested index. -/
theorem RaftLog.WF.snapshot_index {log log' : RaftLog} {request : Nat} {snapshot : Snapshot}
    (wf : log.WF) (stored : log.store.raftState.hardState.commit ≤ log.committed)
    (taken : log.snapshot request = .ok (log', .ok snapshot)) :
    snapshot.metadata.index ≤ max log.lastIndex request := by
  have high := wf.high
  have last := wf.last
  rcases RaftLog.snapshot_source taken with pending | ⟨store, taken⟩
  · have := wf.snapshot snapshot pending
    omega
  · have := (MemStorage.snapshot_metadata taken).2
    omega

variable {inp : Input → Prop} {permitted : Config → Prop}

/-- Atomic changes keep the stored commit index at most that of the node. -/
theorem Acts.stored_le {c c' : Core} (stored : c.log.store.raftState.hardState.commit ≤ c.log.committed)
    (acts : Acts inp c c') : c'.log.store.raftState.hardState.commit ≤ c'.log.committed := by
  rw [(Acts.store_same acts).raftState]
  exact stored.trans (Acts.forward acts).log.committed

theorem RawNode.Marked.acts {rn : RawNode} {raft : Raft} {records : List ReadyRecord}
    (marked : rn.Marked) (acts : Acts inp rn.raft.core raft.core) :
    RawNode.Marked { rn with raft, records } :=
  ⟨Acts.stored_le marked.stored acts, marked.handed.trans (Acts.forward acts).log.committed⟩

theorem RawNode.Starts.marked {config : Config} {store : MemStorage} {rn : RawNode}
    (starts : rn.Starts config store) : rn.Marked := by
  refine ⟨?_, ?_⟩
  · have stored : rn.raft.raftLog.store = store := by
      rw [starts.log]
      rfl
    rw [stored, starts.committed]
    split_ifs with unset
    · rw [unset]
      exact Nat.zero_le _
    · exact le_rfl
  · rw [starts.prevHs]
    exact le_rfl

namespace Host

variable {host host' : Host} {sent : List Message}

/-- A written Ready stores a commit index of its node. -/
theorem writeReady_commit {rn rn' : RawNode} {rd : Ready} {store : MemStorage}
    (readies : rn.Readies rn' rd) (wf : rn.raft.raftLog.WF)
    (stored : rn.raft.raftLog.store.raftState.hardState.commit ≤ rn.raft.raftLog.committed)
    (done : writeReady rn.raft.raftLog.store rd = .ok store) :
    store.raftState.hardState.commit ≤ rn.raft.raftLog.committed := by
  obtain ⟨middle, last, unapplied, applied, appended, same⟩ := writeReady_ok done
  have installed : middle.raftState.hardState.commit ≤ rn.raft.raftLog.committed := by
    cases empty : rd.snapshot.isEmpty with
    | true =>
        rw [unapplied empty]
        exact stored
    | false =>
        have written := applied empty
        unfold MemStorage.applySnapshot at written
        simp only at written
        split_ifs at written
        obtain rfl := Except.ok.inj written
        cases pending : rn.raft.raftLog.unstable.snapshot with
        | none =>
            rw [readies.snapshot, pending] at empty
            cases empty
        | some s =>
            have low := wf.low
            rw [RaftLog.firstIndex_of_snapshot pending] at low
            simp only [readies.snapshot, pending, Option.getD_some]
            omega
  have kept : last.raftState.hardState.commit ≤ rn.raft.raftLog.committed := by
    rw [MemStorage.raftState_append appended]
    exact installed
  rw [same, readies.hs]
  split_ifs
  · exact le_rfl
  · exact kept

theorem marked_of_node {rn : RawNode} (raw : host.raw = some rn) (idle : host.outstanding = none)
    (marked : rn.Marked) :
    host.Marked := by
  refine ⟨fun rn' running => ?_, fun _ _ _ _ busy => ?_⟩
  · obtain rfl := Option.some.inj (raw.symm.trans running)
    exact marked
  · cases idle.symm.trans busy

/-- A taken Ready hands out a commit index of its node. -/
theorem Marked.ready {rn rn' : RawNode} {rd : Ready} {store : MemStorage} (marked : host.Marked)
    (raw : host.raw = some rn) (wf : rn.raft.raftLog.WF) (readies : rn.Readies rn' rd)
    (written : writeReady rn.raft.raftLog.store rd = .ok store) {pending : List Write}
    {delivered : List Delivery} {reads : List ReadState} :
    Marked { host with
      raw := some (withStore rn' store), pending, outstanding := some rd, delivered, reads } := by
  have before := marked.running rn raw
  have log : rn'.raft.raftLog = rn.raft.raftLog := congrArg Core.log readies.core
  refine ⟨?_, ?_⟩
  · rintro _ running
    cases running
    refine ⟨?_, ?_⟩
    · show store.raftState.hardState.commit ≤ rn'.raft.raftLog.committed
      rw [log]
      exact writeReady_commit readies wf before.stored written
    · show rn'.prevHs.commit ≤ rn'.raft.raftLog.committed
      rw [log, readies.prevHs]
      exact before.handed
  · rintro _ _ hs running busy handed
    cases running
    cases busy
    show hs.commit ≤ rn'.raft.raftLog.committed
    rw [readies.hs] at handed
    split_ifs at handed
    obtain rfl := Option.some.inj handed
    rw [log]
    exact le_rfl

/-- Every phase keeps the stored and handed out commit indexes at most that of the node. -/
theorem Phase.marked (tidy : host.Tidy) (marked : host.Marked)
    (phase : Phase inp permitted host host' sent) :
    host'.Marked := by
  cases phase with
  | @call rn raft raw idle acts => exact marked_of_node rfl idle ((marked.running rn raw).acts acts)
  | @ready rn rn' rd store raw idle done written =>
      have readies := RawNode.ready_readies done
      have log : rn'.raft.raftLog = rn.raft.raftLog := congrArg Core.log readies.core
      rw [log] at written
      exact marked.ready raw (tidy.idle rn raw idle).log.wf readies written
  | flush pending => exact ⟨marked.running, marked.outstanding⟩
  | send ahead durable => exact ⟨marked.running, marked.outstanding⟩
  | @stable rn rn' rd raw outstanding done =>
      obtain ⟨log, busy⟩ := tidy.busy rn rd raw outstanding
      obtain ⟨-, -, -, alike, store, same⟩ := busy.settle done
      have before := marked.running rn raw
      have prevHs : rn'.prevHs = rd.hs.getD rn.prevHs := by rw [same]
      refine marked_of_node rfl rfl ⟨?_, ?_⟩
      · rw [store, alike.committed]
        exact before.stored
      · rw [alike.committed, prevHs]
        cases handed : rd.hs with
        | none => exact before.handed
        | some hs => exact marked.outstanding rn rd hs raw outstanding handed
  | @report rn raft number snapIndex index term raw idle durable position acts =>
      exact marked_of_node rfl idle ((marked.running rn raw).acts acts)
  | @light rn rn' light raw idle done withheld current =>
      have log : rn'.raft.raftLog = rn.raft.raftLog :=
        congrArg Core.log (RawNode.genLightReady_lights done).core
      refine marked_of_node rfl idle ⟨?_, le_rfl⟩
      show rn'.raft.raftLog.store.raftState.hardState.commit ≤ rn'.raft.raftLog.committed
      rw [log]
      exact (marked.running rn raw).stored
  | @saveCommit rn store raw idle saved =>
      subst saved
      have before := marked.running rn raw
      exact marked_of_node rfl idle ⟨before.handed, before.handed⟩
  | @compact rn compactIndex store raw idle may done =>
      have sound : rn.raft.raftLog.Sound := (tidy.idle rn raw idle).log
      obtain ⟨-, -, -, raftState⟩ := compacted_store sound.wf may done
      have before := marked.running rn raw
      refine marked_of_node rfl idle ⟨?_, before.handed⟩
      show store.raftState.hardState.commit ≤ _
      rw [raftState]
      exact before.stored
  | crash =>
      refine ⟨?_, ?_⟩
      · intro _ running
        cases running
      · intro _ _ _ running
        cases running
  | @restart config rng rn stopped same allowed done =>
      exact marked_of_node rfl (tidy.stopped stopped) (RawNode.new_starts tidy.durable done).marked

end Host

end RaftRs

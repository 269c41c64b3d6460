import Mathlib.Data.List.TakeWhile
import RaftRs.Node.Pace
import RaftRs.Track.Formed

namespace RaftRs

open Library

/-- A handed out position: its node does not campaign in its term, and as a leader of its term it
has written the entries up to it. -/
structure Core.Secures (i t : Nat) (written : Prop) (c : Core) : Prop where
  term : t ≤ c.term
  campaigns : c.state = .candidate → t < c.term
  leads : c.state = .leader → t = c.term → i ≤ c.log.lastIndex ∧ written

variable {inp : Input → Prop} {permitted : Config → Prop} {c c' : Core} {i t : Nat} {written : Prop}

/-- Every atomic change secures the positions that were handed out before. -/
theorem Act.secures (wf : c.log.WF) (secures : c.Secures i t written) (act : Act inp c c') :
    c'.Secures i t written where
  term := secures.term.trans act.forward.term
  campaigns runs := by
    rcases act.candidate_cases runs with ⟨before, same⟩ | next
    · rw [same]
      exact secures.campaigns before
    · rw [next]
      exact Nat.lt_succ_of_le secures.term
  leads role own := by
    obtain ⟨same, led | ⟨-, ran, -⟩⟩ := act.leader_turns role
    · obtain ⟨inside, written⟩ := secures.leads led (own.trans same)
      exact ⟨inside.trans (act.carries wf led role).2.last, written⟩
    · exact absurd (own.trans same) (secures.campaigns ran).ne

/-- A sequence of atomic changes secures the positions that were handed out before. -/
theorem Acts.secures (heard : ∀ m, inp (.message m) → m.Tidy) (tidy : c.Tidy)
    (secures : c.Secures i t written) (acts : Acts inp c c') : c'.Secures i t written := by
  induction acts with
  | refl => exact secures
  | tail before act ih => exact act.secures (Acts.tidy heard tidy before).log.wf ih

theorem MemStorage.Same.lastIndex {store store' : MemStorage} (same : store.Same store') :
    store'.lastIndex = store.lastIndex := by
  unfold MemStorage.lastIndex
  rw [same.entries, same.snapshotMetadata]

/-- A persisted position is that of a record. -/
theorem RawNode.persistedPosition_record {records : List ReadyRecord} {snapIndex index term : Nat}
    (position : persistedPosition records = (snapIndex, index, term)) (nonzero : index ≠ 0) :
    ∃ record ∈ records, record.lastEntry = some (index, term) := by
  induction records using List.reverseRecOn generalizing snapIndex index term with
  | nil =>
      obtain ⟨-, rest⟩ := Prod.mk.inj position
      exact absurd (Prod.mk.inj rest).1.symm nonzero
  | append_singleton front record ih =>
      rw [persistedPosition, List.foldl_append, ← persistedPosition] at position
      cases found : record.lastEntry with
      | some last =>
          obtain ⟨i, t⟩ := last
          simp only [List.foldl_cons, List.foldl_nil, found, Prod.mk.injEq] at position
          obtain ⟨-, rfl, rfl⟩ := position
          exact ⟨record, List.mem_append_right _ (List.mem_singleton_self _), found⟩
      | none =>
          simp only [List.foldl_cons, List.foldl_nil, found] at position
          split at position
          · obtain ⟨-, rest⟩ := Prod.mk.inj position
            exact absurd (Prod.mk.inj rest).1.symm nonzero
          · obtain ⟨earlier, member, same⟩ := ih position nonzero
            exact ⟨earlier, List.mem_append_left _ member, same⟩

/-- The last issued write of a chain. -/
def latestWrite (durable : Write) (pending : List Write) : Write := pending.getLast?.getD durable

/-- The last issued write ends the chain. -/
theorem exists_latestWrite (durable : Write) (pending : List Write) :
    ∃ front, durable :: pending = front ++ [latestWrite durable pending] := by
  rcases List.eq_nil_or_concat pending with rfl | ⟨front, last, rfl⟩
  · exact ⟨[], rfl⟩
  · exact ⟨durable :: front, by simp [latestWrite]⟩

@[simp] theorem latestWrite_append (durable : Write) (pending : List Write) (write : Write) :
    latestWrite durable (pending ++ [write]) = write := by
  simp [latestWrite]

@[simp] theorem latestWrite_cons (durable write : Write) (rest : List Write) :
    latestWrite durable (write :: rest) = latestWrite write rest := by
  simp [latestWrite, List.getLast?_cons]

/-- A node reads the last issued write, and the writes after a Ready hold what the Ready handed
out. -/
structure RawNode.Chains (durable : Write) (pending : List Write) (rn : RawNode) : Prop where
  last : (latestWrite durable pending).number = rn.maxNumber
  stored : (latestWrite durable pending).store.lastIndex = rn.raft.raftLog.store.lastIndex
  numbered : ∀ record ∈ rn.records, record.number ≤ rn.maxNumber
  secured : ∀ record ∈ rn.records, ∀ i t, record.lastEntry = some (i, t) → rn.raft.core.Secures i t
    (∀ write ∈ durable :: pending, record.number ≤ write.number → i ≤ write.store.lastIndex)

/-- A node of an unchanged chain that has changed by calls and reports. -/
theorem RawNode.Chains.acts {durable : Write} {pending : List Write} {rn : RawNode} {raft : Raft}
    {records : List ReadyRecord} (chains : rn.Chains durable pending)
    (heard : ∀ m, inp (.message m) → m.Tidy) (tidy : rn.raft.core.Tidy)
    (fewer : records ⊆ rn.records) (acts : Acts inp rn.raft.core raft.core) :
    Chains durable pending { rn with raft, records } where
  last := chains.last
  stored := chains.stored.trans (Acts.store_same acts).lastIndex.symm
  numbered record member := chains.numbered record (fewer member)
  secured record member i t found :=
    Acts.secures heard tidy (chains.secured record (fewer member) i t found) acts

theorem RawNode.Chains.keep {durable : Write} {pending : List Write} {rn rn' : RawNode}
    (chains : rn.Chains durable pending) (number : rn'.maxNumber = rn.maxNumber)
    (records : rn'.records = rn.records)
    (core : rn'.raft.core.term = rn.raft.core.term ∧ rn'.raft.core.state = rn.raft.core.state)
    (store : rn'.raft.raftLog.store = rn.raft.raftLog.store)
    (last : rn'.raft.core.log.lastIndex = rn.raft.core.log.lastIndex) : rn'.Chains durable pending where
  last := chains.last.trans number.symm
  stored := by
    rw [store]
    exact chains.stored
  numbered := by
    rw [records, number]
    exact chains.numbered
  secured record member i t found := by
    have secures := chains.secured record (records ▸ member) i t found
    refine ⟨?_, ?_, ?_⟩
    · rw [core.1]
      exact secures.term
    · rw [core.1, core.2]
      exact secures.campaigns
    · rw [core.1, core.2, last]
      exact secures.leads

namespace Host

/-- The writes of a machine are numbered in their order and hold what its node has handed out. -/
structure Chained (host : Host) : Prop where
  rising : (host.durable :: host.pending).Pairwise fun earlier later => earlier.number ≤ later.number
  stopped : host.raw = none → host.durable.number = 0 ∧ host.pending = []
  running : ∀ rn, host.raw = some rn → rn.Chains host.durable host.pending

variable {host host' : Host} {sent : List Message}

/-- No write has a larger number than the last one. -/
theorem Chained.number_le (chained : host.Chained) {write : Write}
    (member : write ∈ host.durable :: host.pending) :
    write.number ≤ (latestWrite host.durable host.pending).number := by
  obtain ⟨front, whole⟩ := exists_latestWrite host.durable host.pending
  have rising := chained.rising
  rw [whole] at rising member
  rcases List.mem_append.1 member with early | last
  · exact (List.pairwise_append.1 rising).2.2 write early _ (List.mem_singleton_self _)
  · rw [List.mem_singleton.1 last]

/-- A further write joins the chain. -/
theorem Chained.issue (chained : host.Chained) {write : Write}
    (number : (latestWrite host.durable host.pending).number ≤ write.number) :
    (host.durable :: (host.pending ++ [write])).Pairwise fun earlier later => earlier.number ≤
      later.number := by
  rw [← List.cons_append]
  refine List.pairwise_append.2 ⟨chained.rising, List.pairwise_singleton _ _,
    fun earlier member later last => ?_⟩
  rw [List.mem_singleton.1 last]
  exact (chained.number_le member).trans number

/-- A rewritten storage of the same length joins the chain. -/
theorem Chained.rewrite {rn : RawNode} {store : MemStorage} (chained : host.Chained)
    (raw : host.raw = some rn) (ends : store.lastIndex = rn.raft.raftLog.store.lastIndex)
    (last : ({ rn.raft.raftLog with store } : RaftLog).lastIndex =
      rn.raft.raftLog.lastIndex) :
    Chained { host with
      raw := some (withStore rn store),
        pending := host.pending ++ [{ number := rn.maxNumber, store }] } := by
  have chains := chained.running rn raw
  obtain ⟨front, whole⟩ := exists_latestWrite host.durable host.pending
  have latest_mem : latestWrite host.durable host.pending ∈ host.durable :: host.pending := by
    rw [whole]
    exact List.mem_append_right _ (List.mem_singleton_self _)
  refine ⟨chained.issue chains.last.le, fun none => (by cases none), ?_⟩
  rintro _ running
  cases running
  refine ⟨?_, ?_, chains.numbered, fun record member i t found => ?_⟩
  · simp [withStore]
  · simp [withStore]
  · have secures := chains.secured record member i t found
    refine ⟨secures.term, secures.campaigns, fun role own => ?_⟩
    obtain ⟨inside, held⟩ := secures.leads role own
    refine ⟨inside.trans last.ge, fun write issued later => ?_⟩
    rw [← List.cons_append] at issued
    rcases List.mem_append.1 issued with old | new
    · exact held write old later
    · rw [List.mem_singleton.1 new]
      have kept := held _ latest_mem (chains.last ▸ chains.numbered record member)
      rw [chains.stored] at kept
      rw [ends]
      exact kept

/-- A Ready joins the chain with its record. -/
theorem Chained.ready {rn rn' : RawNode} {rd : Ready} {store : MemStorage} (chained : host.Chained)
    (raw : host.raw = some rn) (readies : rn.Readies rn' rd) (sound : rn.raft.raftLog.Sound)
    (stored : rn.raft.raftLog.Written store)
    (past : ∀ e ∈ rn.raft.raftLog.unstable.entries, e.term ≤ rn.raft.term ∧
      (rn.raft.state = .candidate → e.term < rn.raft.term))
    (msgs : List Message) (delivered : List Delivery) (reads : List ReadState) :
    Chained { host with
      raw := some (withStore rn' store)
      pending := host.pending ++ [{ number := rd.number, store, msgs }]
      outstanding := some rd, delivered, reads } := by
  have chains := chained.running rn raw
  have last : ({ rn.raft.raftLog with store } : RaftLog).lastIndex = rn.raft.raftLog.lastIndex :=
    stored.busy.last
  have core := readies.core_withStore store
  have number : rn.maxNumber ≤ rd.number := by rw [readies.number]; exact Nat.le_succ _
  have maxNumber : (withStore rn' store).maxNumber = rd.number := by
    rw [readies.number]; exact readies.maxNumber
  refine ⟨chained.issue (chains.last.le.trans number), fun none => (by cases none), ?_⟩
  rintro _ running
  cases running
  obtain ⟨kept, records, source⟩ := readies.records
  have records : (withStore rn' store).records =
      kept ++ [RawNode.recordOf (rn.maxNumber + 1) rn.raft.raftLog] := records
  have fewer : kept ⊆ rn.records := by
    rcases source with rfl | ⟨rfl, -⟩
    · exact List.Subset.refl _
    · exact List.nil_subset _
  refine ⟨?_, ?_, fun record member => ?_, fun record member i t found => ?_⟩
  · simp [maxNumber]
  · simp [withStore]
  · rw [records] at member
    rw [maxNumber]
    rcases List.mem_append.1 member with old | new
    · exact (chains.numbered record (fewer old)).trans number
    · rw [List.mem_singleton.1 new, readies.number]
      exact le_rfl
  · rw [records] at member
    rw [core]
    rcases List.mem_append.1 member with old | new
    · have secures := chains.secured record (fewer old) i t found
      refine ⟨secures.term, secures.campaigns, fun role own => ?_⟩
      obtain ⟨inside, held⟩ := secures.leads role own
      refine ⟨inside.trans last.ge, fun write issued later => ?_⟩
      rw [← List.cons_append] at issued
      rcases List.mem_append.1 issued with early | new
      · exact held write early later
      · rw [List.mem_singleton.1 new]
        exact inside.trans stored.last.ge
    · rw [List.mem_singleton.1 new] at found ⊢
      obtain ⟨e, ends, same⟩ := Option.map_eq_some_iff.1 found
      obtain ⟨rfl, rfl⟩ := Prod.mk.inj same
      obtain ⟨low, below⟩ := past e (List.mem_of_getLast? ends)
      have inside : e.index ≤ rn.raft.raftLog.lastIndex := by
        have counted := sound.wf.contiguous.last ends
        have whole := sound.wf.last
        omega
      refine ⟨low, below, fun role own => ⟨inside.trans last.ge, fun write issued later => ?_⟩⟩
      rw [← List.cons_append] at issued
      rcases List.mem_append.1 issued with early | new
      · have := chained.number_le early
        rw [chains.last] at this
        simp only [RawNode.recordOf] at later
        omega
      · rw [List.mem_singleton.1 new]
        exact inside.trans stored.last.ge

/-- A machine stays chained while only its node changes. -/
theorem Chained.resume {rn : RawNode} (chained : host.Chained) (durable : host'.durable = host.durable)
    (pending : host'.pending = host.pending) (raw : host'.raw = some rn)
    (chains : rn.Chains host.durable host.pending) : host'.Chained := by
  refine ⟨?_, fun none => ?_, fun rn' running => ?_⟩
  · rw [durable, pending]
    exact chained.rising
  · cases raw.symm.trans none
  · obtain rfl := Option.some.inj (raw.symm.trans running)
    rw [durable, pending]
    exact chains

/-- The first pending write leaves the chain when it becomes durable. -/
theorem Chained.flush {write : Write} {rest : List Write} (chained : host.Chained)
    (pending : host.pending = write :: rest) :
    Chained { host with past := host.past ++ [host.durable], durable := write, pending := rest } := by
  have rising := chained.rising
  rw [pending] at rising
  refine ⟨(List.pairwise_cons.1 rising).2, fun none => ?_, fun rn raw => ?_⟩
  · cases pending.symm.trans (chained.stopped none).2
  · have chains := chained.running rn raw
    rw [pending] at chains
    refine ⟨?_, ?_, chains.numbered, fun record member i t found => ?_⟩
    · exact (congrArg Write.number (latestWrite_cons _ _ _)).symm.trans chains.last
    · exact (congrArg (fun write => write.store.lastIndex) (latestWrite_cons _ _ _)).symm.trans
        chains.stored
    · have secures := chains.secured record member i t found
      exact ⟨secures.term, secures.campaigns, fun role own =>
        (secures.leads role own).imp_right fun held other issued => held other
          (List.mem_cons_of_mem _ issued)⟩

/-- Every phase keeps the chain of a machine whose unstable entries are those of its log. -/
theorem Phase.chained (heard : ∀ m, inp (.message m) → m.Tidy) (tidy : host.Tidy)
    (chained : host.Chained) (past : ∀ rn, host.raw = some rn → ∀ e ∈ rn.raft.raftLog.unstable.entries,
      e.term ≤ rn.raft.term ∧ (rn.raft.state = .candidate → e.term < rn.raft.term))
    (phase : Phase inp permitted host host' sent) : host'.Chained := by
  cases phase with
  | @call rn raft raw idle acts =>
      have heard : ∀ m, rn.inputs inp (.message m) → m.Tidy := heard
      exact chained.resume rfl rfl rfl
        ((chained.running rn raw).acts heard (tidy.idle rn raw idle) (List.Subset.refl _) acts)
  | @ready rn rn' rd store raw idle done written =>
      have readies := RawNode.ready_readies done
      have sound := (tidy.idle rn raw idle).log
      exact chained.ready raw readies sound (readies.written sound written) (past rn raw) _ _ _
  | flush pending => exact chained.flush pending
  | send ahead durable => exact ⟨chained.rising, chained.stopped, chained.running⟩
  | @stable rn rn' rd raw outstanding done =>
      obtain ⟨log, busy⟩ := tidy.busy rn rd raw outstanding
      obtain ⟨-, -, -, alike, store, same⟩ := busy.settle done
      refine chained.resume rfl rfl rfl ((chained.running rn raw).keep ?_ ?_ ?_ store alike.last)
      · rw [same]
      · rw [same]
      · rw [same]
        exact ⟨rfl, rfl⟩
  | @report rn raft number snapIndex index term raw idle durable position acts =>
      exact chained.resume rfl rfl rfl ((chained.running rn raw).acts (fun _ => False.elim)
        (tidy.idle rn raw idle) (List.dropWhile_sublist _).subset acts)
  | @light rn rn' light raw idle done withheld current =>
      have lights := RawNode.genLightReady_lights done
      have log : rn'.raft.raftLog = rn.raft.raftLog := congrArg Core.log lights.core
      refine chained.resume rfl rfl rfl ((chained.running rn raw).keep ?_ ?_ ?_
        (congrArg RaftLog.store log) (congrArg RaftLog.lastIndex log))
      · show rn'.maxNumber = rn.maxNumber
        rw [lights.rest]
      · show rn'.records = rn.records
        rw [lights.rest]
      · show rn'.raft.core.term = _ ∧ rn'.raft.core.state = _
        rw [lights.core]
        exact ⟨rfl, rfl⟩
  | @saveCommit rn store raw idle saved =>
      subst saved
      exact chained.rewrite raw rfl rfl
  | @compact rn compactIndex store raw idle may done =>
      have wf := (tidy.idle rn raw idle).log.wf
      exact chained.rewrite raw (compacted_store wf may done).2.1 (compacted wf may done).2.1
  | crash =>
      exact ⟨List.pairwise_singleton _ _, fun _ => ⟨rfl, rfl⟩, fun _ running => (by cases running)⟩
  | @restart config rng rn stopped same allowed done =>
      obtain ⟨zero, none⟩ := chained.stopped stopped
      have starts := RawNode.new_starts tidy.durable done
      refine chained.resume rfl rfl rfl ⟨?_, ?_, ?_, ?_⟩
      · rw [none, starts.maxNumber]
        exact zero
      · rw [none, starts.log]
        rfl
      · rw [starts.records]
        exact List.forall_mem_nil _
      · rw [starts.records]
        exact List.forall_mem_nil _

/-- A leader that reports a position of its term has written the entries up to it in every write
that a crash may leave. -/
theorem Chained.reported {rn : RawNode} {number snapIndex index term : Nat} (chained : host.Chained)
    (raw : host.raw = some rn) (durable : number ≤ host.durable.number ∨ host.pending = [])
    (position : RawNode.persistedPosition (rn.records.takeWhile fun record => record.number ≤ number) =
      (snapIndex, index, term)) (nonzero : index ≠ 0) (role : rn.raft.state = .leader)
      (own : term = rn.raft.term)
    {write : Write} (member : write ∈ host.durable :: host.pending) : index ≤ write.store.lastIndex := by
  obtain ⟨record, taken, found⟩ := RawNode.persistedPosition_record position nonzero
  have known := (List.takeWhile_sublist _).subset taken
  have chains := chained.running rn raw
  refine ((chains.secured record known index term found).leads role own).2 write member ?_
  rcases durable with low | none
  · have early : record.number ≤ number := by simpa using List.mem_takeWhile_imp taken
    have first : host.durable.number ≤ write.number := by
      rcases List.mem_cons.1 member with rfl | later
      · exact le_rfl
      · exact (List.pairwise_cons.1 chained.rising).1 write later
    exact early.trans (low.trans first)
  · rw [none] at member
    rw [List.mem_singleton.1 member]
    have last := chains.last
    rw [none] at last
    exact last ▸ chains.numbered record known

end Host

end RaftRs

import RaftRs.Node.Tidy

namespace RaftRs

open Library

theorem RaftLog.Written.setHardstate {log : RaftLog} {store : MemStorage} (written : log.Written store)
    (hs : HardState) : log.Written (store.setHardstate hs) :=
  ⟨⟨written.wf.contiguous, written.wf.after⟩, written.last, written.first, written.snapshot,
    written.base, written.entryAt⟩

/-- A node whose Ready has been written but is not yet advanced; the log is that of the moment
before. -/
structure RawNode.Busy (rn : RawNode) (rd : Ready) (log : RaftLog) : Prop where
  sound : log.Sound
  written : log.Written rn.raft.raftLog.store
  same : rn.raft.raftLog = { log with store := rn.raft.raftLog.store }
  records : ∃ kept, rn.records = kept ++ [RawNode.recordOf rd.number log]
  msgs : rn.raft.msgs = []

/-- A machine with sound logs that sends tidy messages. -/
structure Host.Tidy (host : Host) : Prop where
  durable : host.durable.store.WF
  issued : ∀ write ∈ host.pending, write.store.WF ∧ ∀ m ∈ write.msgs, m.Tidy
  waiting : ∀ write ∈ host.past ++ [host.durable], ∀ m ∈ write.msgs, m.Tidy
  stopped : host.raw = none → host.outstanding = none
  idle : ∀ rn, host.raw = some rn → host.outstanding = none → rn.raft.core.Tidy
  busy : ∀ rn rd, host.raw = some rn → host.outstanding = some rd → ∃ log, rn.Busy rd log

/-- A Ready of a sound node is written as a whole. -/
theorem RawNode.Readies.written {rn rn' : RawNode} {rd : Ready} (readies : rn.Readies rn' rd)
    (sound : rn.raft.raftLog.Sound) {store : MemStorage}
    (done : Host.writeReady rn'.raft.raftLog.store rd = .ok store) :
    rn.raft.raftLog.Written store := by
  have log : rn'.raft.raftLog = rn.raft.raftLog := congrArg Core.log readies.core
  rw [log] at done
  obtain ⟨middle, last, unapplied, applied, appended, same⟩ := Host.writeReady_ok done
  rw [readies.entries] at appended
  have written : rn.raft.raftLog.Written last := by
    refine sound.wf.written ?_ ?_ appended
    · intro s pending
      have handed : rd.snapshot = s := by rw [readies.snapshot, pending, Option.getD_some]
      rw [handed] at applied
      apply applied
      simp [Snapshot.isEmpty, sound.positioned s pending]
    · intro none
      have handed : rd.snapshot = {} := by rw [readies.snapshot, none, Option.getD_none]
      rw [handed] at unapplied
      exact unapplied rfl
  rw [same]
  cases rd.hs with
  | none => exact written
  | some hs => exact written.setHardstate hs

/-- A node whose Ready is being written. -/
theorem RawNode.Readies.core_withStore {rn rn' : RawNode} {rd : Ready} (readies : rn.Readies rn' rd)
    (store : MemStorage) :
    (Host.withStore rn' store).raft.core =
      { rn.raft.core with msgs := [], readStates := [], log := { rn.raft.raftLog with store } } := by
  have log : rn'.raft.raftLog = rn.raft.raftLog := congrArg Core.log readies.core
  have stored : (Host.withStore rn' store).raft.core = { rn'.raft.core with
      log := { rn'.raft.raftLog with store } } := rfl
  rw [stored, readies.core, log]

/-- The messages of a Ready, at once or after its writes, were queued. -/
theorem RawNode.Readies.queued {rn rn' : RawNode} {rd : Ready} {P : Message → Prop}
    (readies : rn.Readies rn' rd) (queued : ∀ m ∈ rn.raft.msgs, P m) :
    (∀ m ∈ rd.messages, P m) ∧ ∀ m ∈ rd.persistedMessages, P m := by
  rw [readies.messages, readies.persistedMessages]
  split_ifs
  · exact ⟨queued, List.forall_mem_nil _⟩
  · exact ⟨List.forall_mem_nil _, queued⟩

/-- A written Ready becomes stable and leaves the content of the log alone. -/
theorem RawNode.Busy.settle {rn rn' : RawNode} {rd : Ready} {log : RaftLog} (busy : rn.Busy rd log)
    (done : rn.commitReady rd = .ok rn') :
    rn'.raft.raftLog.WF ∧ rn'.raft.raftLog.unstable.snapshot = none ∧
      rn'.raft.raftLog.unstable.entries = [] ∧
      rn.raft.raftLog.Alike rn'.raft.raftLog ∧ rn'.raft.raftLog.store = rn.raft.raftLog.store ∧
      rn' = { rn with
        prevSs := rd.ss.getD rn.prevSs, prevHs := rd.hs.getD rn.prevHs
        raft := { rn.raft with raftLog := rn'.raft.raftLog } } := by
  obtain ⟨kept, records⟩ := busy.records
  obtain ⟨settled, same⟩ := RawNode.commitReady_stable records busy.same done
  obtain ⟨entriesSize, stable⟩ := busy.sound.wf.stable rn.raft.raftLog.store
  have log' : rn'.raft.raftLog =
      { log with
        store := rn.raft.raftLog.store, unstable := { entriesSize, offset := log.lastIndex + 1 } } := by
    rw [busy.same, stable] at settled
    exact (Except.ok.inj settled).symm
  obtain ⟨wf, alike⟩ := busy.written.settle busy.sound.wf entriesSize log'
  have before : log.Alike rn.raft.raftLog := by
    have := busy.written.busy
    rwa [← busy.same] at this
  refine ⟨wf, ?_, ?_, before.join alike, ?_, same⟩ <;> rw [log']

/-- A log keeps its end and its applied index and loses at most entries and the term before them. -/
structure RaftLog.Shrinks (log log' : RaftLog) : Prop where
  last : log'.lastIndex = log.lastIndex
  applied : log'.applied = log.applied
  entryAt : ∀ i e, log'.entryAt i = some e → log.entryAt i = some e
  boundary : ∀ t, log'.boundaryTerm = some t → log'.firstIndex = log.firstIndex ∧
    log.boundaryTerm = some t

theorem RaftLog.Shrinks.of_eq {log log' : RaftLog} (same : log' = log) : log.Shrinks log' := by
  subst same
  exact ⟨rfl, rfl, fun _ _ present => present, fun _ known => ⟨rfl, known⟩⟩

theorem RaftLog.Alike.shrinks {log log' : RaftLog} (alike : log.Alike log') : log.Shrinks log' :=
  ⟨alike.last, alike.applied, fun i _ present => (alike.entryAt i).symm.trans present,
    fun _ known => ⟨alike.first, alike.boundary.symm.trans known⟩⟩

namespace Host

variable {inp : Input → Prop} {permitted : Config → Prop} {host host' : Host} {sent : List Message}

theorem tidy_fresh (id : Nat) (cs : ConfState) : (fresh id cs).Tidy := by
  refine ⟨⟨contiguous_nil _, Nat.zero_lt_one⟩, ?_, ?_, fun _ => rfl, ?_, ?_⟩
  · intro write member
    cases member
  · intro write member
    rw [List.mem_singleton.1 member]
    nofun
  · intro rn running
    cases running
  · intro rn rd running
    cases running

/-- A compaction that the application may do keeps the shape and the retained entries of the log. -/
theorem compacted {log : RaftLog} {compactIndex : Nat} {store : MemStorage} (wf : log.WF)
    (may : mayCompact log compactIndex = true) (done : log.store.compact compactIndex = .ok store) :
    RaftLog.WF { log with store } ∧ ({ log with store } : RaftLog).lastIndex = log.lastIndex ∧
      ∀ i, ({ log with store } : RaftLog).firstIndex ≤ i →
        ({ log with store } : RaftLog).entryAt i = log.entryAt i := by
  simp only [mayCompact, Bool.and_eq_true, decide_eq_true_eq] at may
  obtain ⟨⟨⟨-, committed⟩, stored⟩, settled⟩ := may
  obtain ⟨kept, last, -, -, entryAt⟩ := wf.compact (by omega) stored (fun _ => settled.le) done rfl
  exact ⟨kept, last, entryAt⟩

/-- A compaction that the application may do moves only the first index of the storage. -/
theorem compacted_store {log : RaftLog} {compactIndex : Nat} {store : MemStorage} (wf : log.WF)
    (may : mayCompact log compactIndex = true) (done : log.store.compact compactIndex = .ok store) :
    store.firstIndex = max log.store.firstIndex compactIndex ∧ store.lastIndex = log.store.lastIndex ∧
      store.snapshotMetadata = log.store.snapshotMetadata ∧ store.raftState = log.store.raftState := by
  simp only [mayCompact, Bool.and_eq_true, decide_eq_true_eq] at may
  obtain ⟨-, first, last, metadata, raftState, -⟩ := wf.store.compact may.1.2 done
  exact ⟨first, last, metadata, raftState⟩

/-- A compaction that the application may do shrinks the log. -/
theorem compacted_shrinks {log : RaftLog} {compactIndex : Nat} {store : MemStorage} (wf : log.WF)
    (may : mayCompact log compactIndex = true) (done : log.store.compact compactIndex = .ok store) :
    log.Shrinks { log with store } := by
  obtain ⟨kept, last, same⟩ := compacted wf may done
  refine ⟨last, rfl, fun i e present => (same i (kept.bounds present).1).symm.trans present,
    fun t known => ?_⟩
  obtain ⟨first, -, metadata, -⟩ := compacted_store wf may done
  have after := wf.store.after
  unfold RaftLog.boundaryTerm at known ⊢
  unfold RaftLog.firstIndex Unstable.maybeFirstIndex
  cases pending : log.unstable.snapshot with
  | some s =>
      simp only [pending] at known ⊢
      exact ⟨rfl, known⟩
  | none =>
      simp only [pending, metadata] at known ⊢
      split_ifs at known with boundary
      have unmoved : store.firstIndex = log.store.firstIndex := by omega
      exact ⟨unmoved, by rw [if_pos (boundary.trans unmoved), known]⟩

/-- A started node is tidy. -/
theorem tidy_starts {config : Config} {store : MemStorage} {rn : RawNode} (wf : store.WF)
    (starts : rn.Starts config store) : rn.raft.core.Tidy := by
  have low := starts.low
  have high := starts.high
  refine ⟨?_, ?_⟩
  · show rn.raft.raftLog.Sound
    rw [starts.log]
    have committed := (RaftLog.wf_new wf 0).commit low high
    exact ⟨⟨committed.store, committed.contiguous, committed.snapshot, committed.joined,
      committed.low, committed.high⟩, nofun⟩
  · have none : rn.raft.core.msgs = [] := congrArg Core.msgs starts.core
    rw [none]
    nofun

/-- A released message waited for a durable write. -/
theorem mem_released {number : Nat} {m : Message}
    (inside : m ∈ ((host.past ++ [host.durable]).filter fun write =>
      host.sent < write.number ∧ write.number ≤ number).flatMap Write.msgs) :
    ∃ write ∈ host.past ++ [host.durable], m ∈ write.msgs := by
  obtain ⟨write, member, inside⟩ := List.mem_flatMap.1 inside
  exact ⟨write, (List.mem_filter.1 member).1, inside⟩

theorem issued_of_durable {write : Write} (member : write ∈ host.past ++ [host.durable]) :
    write ∈ host.past ++ host.durable :: host.pending := by
  rcases List.mem_append.1 member with past | last
  · exact List.mem_append_left _ past
  · exact List.mem_append_right _ (List.mem_singleton.1 last ▸ List.mem_cons_self)

/-- A machine stays tidy when it goes on with a tidy node and without a Ready. -/
theorem Tidy.resume {rn : RawNode} (tidy : host.Tidy) (durable : host'.durable = host.durable)
    (past : host'.past = host.past)
    (issued : ∀ write ∈ host'.pending, write.store.WF ∧ ∀ m ∈ write.msgs, m.Tidy)
    (raw : host'.raw = some rn) (idle : host'.outstanding = none) (node : rn.raft.core.Tidy) :
    host'.Tidy where
  durable := durable ▸ tidy.durable
  issued := issued
  waiting := durable ▸ past ▸ tidy.waiting
  stopped _ := idle
  idle rn' running _ := by
    obtain rfl := Option.some.inj (raw.symm.trans running)
    exact node
  busy rn' rd _ busy := by cases idle.symm.trans busy

/-- A new write joins the issued writes. -/
theorem Tidy.issue (tidy : host.Tidy) {write : Write} (wf : write.store.WF)
    (msgs : ∀ m ∈ write.msgs, m.Tidy) :
    ∀ other ∈ host.pending ++ [write], other.store.WF ∧ ∀ m ∈ other.msgs, m.Tidy := by
  intro other member
  rcases List.mem_append.1 member with old | new
  · exact tidy.issued other old
  · rw [List.mem_singleton.1 new]
    exact ⟨wf, msgs⟩

/-- A write of the application keeps a machine tidy. -/
theorem Tidy.rewrite {rn : RawNode} {store : MemStorage} (tidy : host.Tidy) (raw : host.raw = some rn)
    (idle : host.outstanding = none) (wf : RaftLog.WF { rn.raft.raftLog with store }) (number : Nat) :
    Tidy { host with
      raw := some (withStore rn store), pending := host.pending ++ [{ number, store }] } := by
  have before := tidy.idle rn raw idle
  refine tidy.resume rfl rfl (tidy.issue wf.store (List.forall_mem_nil _)) rfl idle ?_
  exact ⟨⟨wf, before.log.positioned⟩, before.msgs⟩

/-- A taken Ready leaves a tidy machine whose node is busy. -/
theorem Tidy.ready {rn rn' : RawNode} {rd : Ready} {store : MemStorage} (tidy : host.Tidy)
    (raw : host.raw = some rn) (idle : host.outstanding = none) (readies : rn.Readies rn' rd)
    (stored : writeReady rn'.raft.raftLog.store rd = .ok store) (delivered : List Delivery)
    (reads : List ReadState) :
    Tidy { host with
      raw := some (withStore rn' store)
      pending := host.pending ++ [{ number := rd.number, store, msgs := rd.persistedMessages }]
      outstanding := some rd, delivered, reads } := by
  have before := tidy.idle rn raw idle
  have written := readies.written before.log stored
  have log : rn'.raft.raftLog = rn.raft.raftLog := congrArg Core.log readies.core
  refine ⟨tidy.durable, tidy.issue written.wf (readies.queued before.msgs).2, tidy.waiting, nofun,
    ?_, ?_⟩
  · intro _ _ none
    cases none
  rintro _ _ same busy
  cases same
  cases busy
  obtain ⟨kept, records, -⟩ := readies.records
  refine ⟨rn.raft.raftLog, before.log, written, ?_, ⟨kept, ?_⟩, congrArg Core.msgs readies.core⟩
  · simp only [withStore, log]
  · rw [readies.number]
    exact records

/-- A write that becomes durable keeps a machine tidy. -/
theorem Tidy.flush {write : Write} {rest : List Write} (tidy : host.Tidy)
    (pending : host.pending = write :: rest) :
    Tidy { host with past := host.past ++ [host.durable], durable := write, pending := rest } := by
  have issued := tidy.issued
  rw [pending] at issued
  obtain ⟨wf, released⟩ := issued write List.mem_cons_self
  refine ⟨wf, fun other member => issued other (List.mem_cons_of_mem _ member), ?_, tidy.stopped,
    tidy.idle, tidy.busy⟩
  intro other member
  rcases List.mem_append.1 member with old | new
  · exact tidy.waiting other old
  · rw [List.mem_singleton.1 new]
    exact released

theorem Tidy.crash (tidy : host.Tidy) : host.crash.Tidy := by
  refine ⟨tidy.durable, List.forall_mem_nil _, fun write member => ?_, fun _ => rfl, fun _ running => ?_,
    fun _ _ running => ?_⟩
  · rw [List.mem_singleton.1 member]
    exact List.forall_mem_nil _
  · cases running
  · cases running

/-- A node whose written Ready has become stable is tidy. -/
theorem tidy_settled {rn rn' : RawNode} {rd : Ready} {log : RaftLog} (busy : rn.Busy rd log)
    (done : rn.commitReady rd = .ok rn') : rn'.raft.core.Tidy := by
  obtain ⟨wf, none, -, -, -, same⟩ := busy.settle done
  have msgs : rn'.raft.core.msgs = [] := by
    rw [same]
    exact busy.msgs
  refine ⟨⟨wf, fun s pending => ?_⟩, ?_⟩
  · cases none.symm.trans pending
  · rw [msgs]
    exact List.forall_mem_nil _

/-- Every phase keeps a machine tidy that hears tidy messages. -/
theorem Phase.tidy (heard : ∀ m, inp (.message m) → m.Tidy) (tidy : host.Tidy)
    (phase : Phase inp permitted host host' sent) : host'.Tidy ∧ ∀ m ∈ sent, m.Tidy := by
  cases phase with
  | @call rn raft raw idle acts =>
      have heard : ∀ m, rn.inputs inp (.message m) → m.Tidy := heard
      exact ⟨tidy.resume rfl rfl tidy.issued rfl idle (acts.tidy heard (tidy.idle rn raw idle)),
        List.forall_mem_nil _⟩
  | @ready rn rn' rd store raw idle done stored =>
      have readies := RawNode.ready_readies done
      exact ⟨tidy.ready raw idle readies stored _ _, (readies.queued (tidy.idle rn raw idle).msgs).1⟩
  | flush pending => exact ⟨tidy.flush pending, List.forall_mem_nil _⟩
  | send ahead durable =>
      refine ⟨⟨tidy.durable, tidy.issued, tidy.waiting, tidy.stopped, tidy.idle, tidy.busy⟩,
        fun m inside => ?_⟩
      obtain ⟨write, member, inside⟩ := mem_released inside
      exact tidy.waiting write member m inside
  | @stable rn rn' rd raw outstanding done =>
      obtain ⟨log, busy⟩ := tidy.busy rn rd raw outstanding
      exact ⟨tidy.resume rfl rfl tidy.issued rfl rfl (tidy_settled busy done), List.forall_mem_nil _⟩
  | @report rn raft number snapIndex index term raw idle durable position acts =>
      exact ⟨tidy.resume rfl rfl tidy.issued rfl idle (acts.tidy nofun (tidy.idle rn raw idle)),
        List.forall_mem_nil _⟩
  | @light rn rn' light raw idle done withheld current =>
      have lights := RawNode.genLightReady_lights done
      have before := tidy.idle rn raw idle
      refine ⟨tidy.resume rfl rfl tidy.issued rfl idle ?_, ?_⟩
      · show rn'.raft.core.Tidy
        rw [lights.core]
        exact ⟨before.log, List.forall_mem_nil _⟩
      · rw [lights.messages]
        exact before.msgs
  | @saveCommit rn store raw idle saved =>
      subst saved
      have sound : rn.raft.raftLog.Sound := (tidy.idle rn raw idle).log
      exact ⟨tidy.rewrite raw idle (sound.wf.setHardstate _) _, List.forall_mem_nil _⟩
  | @compact rn compactIndex store raw idle may done =>
      have sound : rn.raft.raftLog.Sound := (tidy.idle rn raw idle).log
      exact ⟨tidy.rewrite raw idle (compacted sound.wf may done).1 _, List.forall_mem_nil _⟩
  | crash => exact ⟨tidy.crash, List.forall_mem_nil _⟩
  | restart stopped same allowed done =>
      have starts := RawNode.new_starts tidy.durable done
      exact ⟨tidy.resume rfl rfl tidy.issued rfl (tidy.stopped stopped)
        (tidy_starts tidy.durable starts), List.forall_mem_nil _⟩

/-- A machine whose node, stored contents and waiting messages have a property each. -/
structure Bears (N : Core → Prop) (S : MemStorage → Prop) (M : Message → Prop) (host : Host) : Prop where
  running : ∀ rn, host.raw = some rn → N rn.raft.core
  chain : ∀ write ∈ host.durable :: host.pending, S write.store
  waiting : ∀ write ∈ host.past ++ host.durable :: host.pending, ∀ m ∈ write.msgs, M m

namespace Bears

variable {N : Core → Prop} {S : MemStorage → Prop} {M : Message → Prop}

/-- A new write joins the writes of a machine. -/
theorem issue (bears : host.Bears N S M) (write : Write) (stored : S write.store)
    (queued : ∀ m ∈ write.msgs, M m) :
    (∀ other ∈ host.durable :: (host.pending ++ [write]), S other.store) ∧
      ∀ other ∈ host.past ++ host.durable :: (host.pending ++ [write]), ∀ m ∈ other.msgs, M m := by
  refine ⟨fun other member => ?_, fun other member => ?_⟩
  · rw [← List.cons_append] at member
    rcases List.mem_append.1 member with old | new
    · exact bears.chain other old
    · rw [List.mem_singleton.1 new]
      exact stored
  · rw [← List.cons_append, ← List.append_assoc] at member
    rcases List.mem_append.1 member with old | new
    · exact bears.waiting other old
    · rw [List.mem_singleton.1 new]
      exact queued

theorem rewrite (bears : host.Bears N S M) {rn : RawNode} {store : MemStorage}
    (node : N (withStore rn store).raft.core) (stored : S store) (number : Nat) :
    Bears N S M { host with
      raw := some (withStore rn store), pending := host.pending ++ [{ number, store }] } := by
  obtain ⟨chain, waiting⟩ := bears.issue { number, store } stored (List.forall_mem_nil _)
  refine ⟨?_, chain, waiting⟩
  rintro _ running
  cases running
  exact node

/-- A machine goes on with another node and its old writes. -/
theorem resume {rn : RawNode} (bears : host.Bears N S M) (durable : host'.durable = host.durable)
    (past : host'.past = host.past) (pending : host'.pending = host.pending) (raw : host'.raw = some rn)
    (node : N rn.raft.core) : host'.Bears N S M where
  running rn' running := by
    obtain rfl := Option.some.inj (raw.symm.trans running)
    exact node
  chain := durable ▸ pending ▸ bears.chain
  waiting := durable ▸ past ▸ pending ▸ bears.waiting

theorem flush {write : Write} {rest : List Write} (bears : host.Bears N S M)
    (pending : host.pending = write :: rest) :
    Bears N S M { host with
      past := host.past ++ [host.durable], durable := write, pending := rest } := by
  obtain ⟨running, chain, waiting⟩ := bears
  rw [pending] at chain waiting
  refine ⟨running, fun other member => chain other (List.mem_cons_of_mem _ member),
    fun other member => ?_⟩
  apply waiting other
  rwa [List.append_assoc] at member

theorem released {number : Nat} {m : Message} (bears : host.Bears N S M)
    (inside : m ∈ ((host.past ++ [host.durable]).filter fun write =>
      host.sent < write.number ∧ write.number ≤ number).flatMap Write.msgs) : M m := by
  obtain ⟨write, member, inside⟩ := mem_released inside
  exact bears.waiting write (issued_of_durable member) m inside

theorem crash (bears : host.Bears N S M) : host.crash.Bears N S M := by
  refine ⟨fun rn running => ?_, fun write member => ?_, fun write member => ?_⟩
  · cases running
  · rw [List.mem_singleton.1 member]
    exact bears.chain host.durable List.mem_cons_self
  · rw [List.mem_singleton.1 member]
    exact List.forall_mem_nil _

end Bears

/-- A property that every phase keeps holds after a sequence of phases. -/
theorem Phases.keeps {P : Host → Prop} {Q : Message → Prop}
    (keeps : ∀ host host' sent, P host → Phase inp permitted host host' sent → P host' ∧ ∀ m ∈ sent, Q m)
    (start : P host) (phases : Phases inp permitted host host' sent) : P host' ∧ ∀ m ∈ sent, Q m := by
  induction phases with
  | refl => exact ⟨start, List.forall_mem_nil _⟩
  | step first _ ih =>
      obtain ⟨middle, sentFirst⟩ := keeps _ _ _ start first
      obtain ⟨final, sentRest⟩ := ih middle
      refine ⟨final, fun m inside => ?_⟩
      rcases List.mem_append.1 inside with early | late
      · exact sentFirst m early
      · exact sentRest m late

/-- A running node was changed by a call or a report, only in its queues and its log, or has just
started. -/
theorem Phase.running_cases (tidy : host.Tidy) (phase : Phase inp permitted host host' sent)
    {rn' : RawNode} (running : host'.raw = some rn') :
    (∃ rn, host.raw = some rn ∧ (Acts (rn.inputs inp) rn.raft.core rn'.raft.core ∨
      (∃ snapIndex index term, Acts (persistedInputs snapIndex index term) rn.raft.core rn'.raft.core) ∨
      ∃ log msgs readStates, msgs ⊆ rn.raft.msgs ∧ rn'.raft.core = { rn.raft.core with
        log, msgs, readStates })) ∨
    ∃ config, config.id = host.id ∧ permitted config ∧ rn'.Starts config host.durable.store := by
  cases phase with
  | @call rn raft raw idle acts =>
      cases running
      exact .inl ⟨rn, raw, .inl acts⟩
  | @ready rn _ rd store raw idle done stored =>
      cases running
      exact .inl ⟨rn, raw,
        .inr (.inr ⟨_, _, _, List.nil_subset _, (RawNode.ready_readies done).core_withStore store⟩)⟩
  | flush pending => exact .inl ⟨rn', running, .inl .refl⟩
  | send ahead durable => exact .inl ⟨rn', running, .inl .refl⟩
  | @stable rn _ rd raw outstanding done =>
      cases running
      obtain ⟨log, busy⟩ := tidy.busy rn rd raw outstanding
      obtain ⟨-, -, -, -, -, same⟩ := busy.settle done
      refine .inl ⟨rn, raw,
        .inr (.inr ⟨rn'.raft.raftLog, rn.raft.msgs, rn.raft.readStates, List.Subset.refl _, ?_⟩)⟩
      rw [same]
      rfl
  | @report rn raft number snapIndex index term raw idle durable position acts =>
      cases running
      exact .inl ⟨rn, raw, .inr (.inl ⟨snapIndex, index, term, acts⟩)⟩
  | @light rn rn₁ light raw idle done withheld current =>
      cases running
      exact .inl ⟨rn, raw,
        .inr (.inr ⟨_, _, _, List.nil_subset _, (RawNode.genLightReady_lights done).core⟩)⟩
  | @saveCommit rn store raw idle saved =>
      cases running
      exact .inl ⟨rn, raw, .inr (.inr ⟨_, _, _, List.Subset.refl _, rfl⟩)⟩
  | @compact rn compactIndex store raw idle may done =>
      cases running
      exact .inl ⟨rn, raw, .inr (.inr ⟨_, _, _, List.Subset.refl _, rfl⟩)⟩
  | crash => cases running
  | restart stopped same allowed done =>
      cases running
      exact .inr ⟨_, same, allowed, RawNode.new_starts tidy.durable done⟩

/-- A property of a node that its calls and reports keep and that depends on its log only through
what a written or compacted log keeps. -/
theorem Phase.keepsNode {P : Core → Prop}
    (kept : ∀ c log msgs readStates, msgs ⊆ c.msgs → P c → c.log.Shrinks log →
      P { c with log, msgs, readStates })
    (starts : ∀ config (rn : RawNode), permitted config → rn.Starts config host.durable.store →
      P rn.raft.core)
    (calls : ∀ rn c, host.raw = some rn → rn.raft.core.Tidy → P rn.raft.core →
      Acts (rn.inputs inp) rn.raft.core c → P c)
    (reports : ∀ rn c snapIndex index term, host.raw = some rn → rn.raft.core.Tidy → P rn.raft.core →
      Acts (persistedInputs snapIndex index term) rn.raft.core c → P c)
    (tidy : host.Tidy) (holds : ∀ rn, host.raw = some rn → P rn.raft.core)
    (phase : Phase inp permitted host host' sent) {rn' : RawNode} (running : host'.raw = some rn') :
    P rn'.raft.core := by
  cases phase with
  | @call rn raft raw idle acts =>
      cases running
      exact calls rn _ raw (tidy.idle rn raw idle) (holds rn raw) acts
  | @ready rn _ rd store raw idle done stored =>
      cases running
      have readies := RawNode.ready_readies done
      rw [readies.core_withStore]
      exact kept _ _ _ _ (List.nil_subset _) (holds rn raw)
        (readies.written (tidy.idle rn raw idle).log stored).busy.shrinks
  | flush pending => exact holds _ running
  | send ahead durable => exact holds _ running
  | @stable rn _ rd raw outstanding done =>
      cases running
      obtain ⟨log, busy⟩ := tidy.busy rn rd raw outstanding
      obtain ⟨-, -, -, alike, -, same⟩ := busy.settle done
      rw [same]
      exact kept _ _ rn.raft.msgs rn.raft.readStates (List.Subset.refl _) (holds rn raw) alike.shrinks
  | @report rn raft number snapIndex index term raw idle durable position acts =>
      cases running
      exact reports rn _ snapIndex index term raw (tidy.idle rn raw idle) (holds rn raw) acts
  | @light rn rn₁ light raw idle done withheld current =>
      cases running
      have lights := RawNode.genLightReady_lights done
      show P rn₁.raft.core
      rw [lights.core]
      exact kept _ _ _ _ (List.nil_subset _) (holds rn raw) (.of_eq rfl)
  | @saveCommit rn store raw idle saved =>
      cases running
      subst saved
      exact kept _ _ rn.raft.msgs rn.raft.readStates (List.Subset.refl _) (holds rn raw)
        ⟨rfl, rfl, fun _ _ present => present, fun _ known => ⟨rfl, known⟩⟩
  | @compact rn compactIndex store raw idle may done =>
      cases running
      have sound : rn.raft.raftLog.Sound := (tidy.idle rn raw idle).log
      exact kept _ _ rn.raft.msgs rn.raft.readStates (List.Subset.refl _) (holds rn raw)
        (compacted_shrinks sound.wf may done)
  | crash => cases running
  | restart stopped same allowed done =>
      cases running
      exact starts _ _ allowed (RawNode.new_starts tidy.durable done)

theorem Phase.id_eq (phase : Phase inp permitted host host' sent) : host'.id = host.id := by
  cases phase <;> rfl

theorem Phases.id_eq (phases : Phases inp permitted host host' sent) : host'.id = host.id := by
  induction phases with
  | refl => rfl
  | step first _ ih => exact ih.trans first.id_eq

/-- A property of a node that reports keep holds after phases that hand nothing to it. -/
theorem Phases.keepsCore {P : Core → Prop} (none : ∀ input, ¬ inp input)
    (quiet : ∀ c log msgs readStates, msgs ⊆ c.msgs → P c → P { c with log, msgs, readStates })
    (starts : ∀ config store (rn : RawNode), config.id = host.id → permitted config →
      rn.Starts config store → P rn.raft.core)
    (silent : ∀ inp c c', (∀ input, inp input → input.Internal) → P c → Acts inp c c' → P c')
    (tidy : host.Tidy) (holds : ∀ rn, host.raw = some rn → P rn.raft.core)
    (phases : Phases inp permitted host host' sent) {rn' : RawNode} (running : host'.raw = some rn') :
    P rn'.raft.core := by
  induction phases with
  | refl => exact holds rn' running
  | @step host middle host' _ _ phase _ ih =>
      have heard : ∀ m, inp (.message m) → m.Tidy := fun m given => absurd given (none _)
      refine ih ?_ (phase.tidy heard tidy).1 ?_ running
      · rw [phase.id_eq]
        exact starts
      · intro rn' running
        rcases phase.running_cases tidy running with
          ⟨rn, raw, acts | ⟨snapIndex, index, term, acts⟩ | ⟨log, msgs, readStates, fewer, core⟩⟩ |
          ⟨config, same, permits, start⟩
        · exact silent _ _ _ (RawNode.inputs_internal none) (holds rn raw) acts
        · exact silent _ _ _ persistedInputs_internal (holds rn raw) acts
        · rw [core]
          exact quiet _ _ _ _ fewer (holds rn raw)
        · exact starts config _ rn' same permits start

end Host

/-- The messages that an application hands to its own node. -/
def Message.Own (m : Message) : Prop :=
  (m.msgType = .msgPropose ∨ m.msgType = .msgReadIndex ∨ m.msgType = .msgTransferLeader) ∧ m.term = 0

theorem HostOp.inputs_message {op : HostOp} {m : Message} (input : op.inputs (.message m)) :
    op = .deliver m ∨ m.Own := by
  cases op with
  | deliver other => exact Or.inl (by rw [show m = other from input])
  | propose context data => exact Or.inr ⟨Or.inl input.1, input.2⟩
  | proposeConfChange context cc => exact Or.inr ⟨Or.inl input.1, input.2⟩
  | readIndex rctx =>
      rw [show m = _ from input]
      exact Or.inr ⟨Or.inr (Or.inl rfl), rfl⟩
  | transferLeader transferee =>
      rw [show m = _ from input]
      exact Or.inr ⟨Or.inr (Or.inr rfl), rfl⟩
  | _ => cases input

theorem Message.Own.tidy {m : Message} (ofOwn : m.Own) : m.Tidy := by
  obtain ⟨kind | kind | kind, -⟩ :=
    ofOwn <;> exact Message.tidy_of_kind (by simp [kind]) (by simp [kind])

namespace Cluster

variable [ConfChangeCodec] {allowed : Host → HostOp → Prop} {cs : ConfState} {cluster : Cluster}

omit [ConfChangeCodec] in
/-- The messages of an operation were sent to the node or come from its application. -/
theorem inputs_cases {id : Nat} {op : HostOp} {m : Message} (deliverable : cluster.Deliverable id op)
    (input : op.inputs (.message m)) : (m ∈ cluster.network ∧ m.toId = id) ∨ m.Own := by
  rcases HostOp.inputs_message input with rfl | ofOwn
  · rcases deliverable with sent | ⟨proposal, untermed⟩
    · exact .inl sent
    · exact .inr ⟨.inl proposal, untermed⟩
  · exact .inr ofOwn

/-- A property of machines and messages that every step keeps holds in every reachable cluster. -/
theorem Reachable.keepsStep {P : Nat → Host → Prop} {Q : Message → Prop}
    (start : ∀ id, P id (Host.fresh id cs)) (own : ∀ m : Message, m.Own → Q m)
    (keeps : ∀ id host op host' sent, P id host → allowed host op → (∀ m, op.inputs (.message m) → Q m) →
      host.step op = .ok (host', sent) → P id host' ∧ ∀ m ∈ sent, Q m)
    (reachable : Reachable allowed cs cluster) :
    (∀ id, P id (cluster.hosts id)) ∧ ∀ m ∈ cluster.network, Q m := by
  induction reachable with
  | refl => exact ⟨start, List.forall_mem_nil _⟩
  | @tail cluster _ _ step ih =>
      obtain ⟨hosts, network⟩ := ih
      cases step with
      | @host id op host sent permitted deliverable stepped =>
          have heard : ∀ m, op.inputs (.message m) → Q m := by
            intro m input
            rcases inputs_cases deliverable input with ⟨old, -⟩ | ofOwn
            · exact network m old
            · exact own m ofOwn
          obtain ⟨next, new⟩ := keeps id _ op host sent (hosts id) permitted heard stepped
          refine ⟨fun other => ?_, fun m inside => ?_⟩
          · by_cases same : other = id
            · subst same
              simpa using next
            · simpa [same] using hosts other
          · rcases List.mem_append.1 inside with old | fresh
            · exact network m old
            · exact new m fresh

/-- A property of machines and messages that every phase keeps holds in every reachable cluster. -/
theorem Reachable.keeps {P : Nat → Host → Prop} {Q : Message → Prop}
    (start : ∀ id, P id (Host.fresh id cs)) (own : ∀ m : Message, m.Own → Q m)
    (keeps : ∀ op, (∃ host, allowed host op) → (∀ m, op.inputs (.message m) → Q m) →
      ∀ id host host' sent,
      P id host → Host.Phase op.inputs op.permits host host' sent → P id host' ∧ ∀ m ∈ sent, Q m)
    (reachable : Reachable allowed cs cluster) :
    (∀ id, P id (cluster.hosts id)) ∧ ∀ m ∈ cluster.network, Q m := by
  refine reachable.keepsStep start own fun id host op host' sent before permitted heard stepped => ?_
  have runs := Host.runs_step host op
  rw [stepped] at runs
  exact Host.Phases.keeps (keeps op ⟨host, permitted⟩ heard id) before runs

/-- Every reachable cluster is tidy. -/
theorem Reachable.tidy (reachable : Reachable allowed cs cluster) :
    (∀ id, (cluster.hosts id).Tidy) ∧ ∀ m ∈ cluster.network, m.Tidy := by
  refine reachable.keeps (P := fun _ host => host.Tidy) (fun id => Host.tidy_fresh id cs)
    (fun _ => Message.Own.tidy) ?_
  intro op _ heard _ host host' sent tidy phase
  exact phase.tidy heard tidy

/-- Every reachable node hears tidy messages. -/
theorem Reachable.inputs_tidy (reachable : Reachable allowed cs cluster) {id : Nat} {op : HostOp}
    (deliverable : cluster.Deliverable id op) {m : Message} (input : op.inputs (.message m)) :
    m.Tidy := by
  rcases inputs_cases deliverable input with ⟨sent, -⟩ | ofOwn
  · exact reachable.tidy.2 m sent
  · exact ofOwn.tidy

theorem Reachable.id_eq (reachable : Reachable allowed cs cluster) (id : Nat) :
    (cluster.hosts id).id = id := by
  induction reachable generalizing id with
  | refl => rfl
  | @tail cluster _ _ step ih =>
      cases step with
      | @host id' op host sent permitted deliverable stepped =>
          by_cases same : id = id'
          · subst same
            have runs := Host.runs_step (cluster.hosts id) op
            rw [stepped] at runs
            simp only [Function.update_self]
            exact (Host.Phases.id_eq runs).trans (ih id)
          · simpa [same] using ih id

/-- A property of nodes and sent messages that calls and reports keep holds of every node of a
reachable cluster. -/
theorem Reachable.keepsCore {P : Nat → List Message → Core → Prop}
    (mono : ∀ id network more c, P id network c → P id (network ++ more) c)
    (quiet : ∀ id network c log msgs readStates, msgs ⊆ c.msgs → P id network c →
      P id network { c with log, msgs, readStates })
    (starts : ∀ host config rng store (rn : RawNode) network, allowed host (.restart config rng) →
      rn.Starts config store → P config.id network rn.raft.core)
    (silent : ∀ id network inp c c', (∀ input, inp input → input.Internal) → P id network c →
      Acts inp c c' → P id network c')
    (calls : ∀ cluster id op rn c, Reachable allowed cs cluster → allowed (cluster.hosts id) op →
      cluster.Deliverable id op → (cluster.hosts id).raw = some rn → P id cluster.network rn.raft.core →
      Acts (rn.inputs op.inputs) rn.raft.core c → P id cluster.network c)
    (reachable : Reachable allowed cs cluster) :
    ∀ id rn, (cluster.hosts id).raw = some rn → P id cluster.network rn.raft.core := by
  induction reachable with
  | refl => intro id rn running; cases running
  | @tail cluster _ before step ih =>
      have before : Reachable allowed cs cluster := before
      have tidy := before.tidy.1
      cases step with
      | @host id op host sent permitted deliverable stepped =>
          intro other rn' running
          by_cases same : other = id
          · subst same
            simp only [Function.update_self] at running
            refine mono _ _ _ _ ?_
            by_cases call : op.Calls
            · obtain ⟨action, equal, does⟩ := Host.step_call call
              rw [equal] at stepped
              rcases Host.call_ok does stepped with ⟨rfl, -⟩ | ⟨rn, raft, raw, -, acts, rfl, -⟩
              · exact ih other rn' running
              · cases running
                exact calls cluster other op rn _ before permitted deliverable raw (ih other rn raw) acts
            · have runs := Host.runs_step (cluster.hosts other) op
              rw [stepped] at runs
              refine Host.Phases.keepsCore (HostOp.inputs_of_not_calls call)
                (quiet other cluster.network) ?_
                (silent other cluster.network) (tidy other) (ih other) runs running
              rintro config store rn place ⟨rng, rfl⟩ start
              rw [← (before.id_eq other), ← place]
              exact starts _ config rng store rn _ permitted start
          · simp only [Function.update_of_ne same] at running
            exact mono _ _ _ _ (ih other rn' running)

end Cluster

end RaftRs

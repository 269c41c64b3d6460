import RaftRs.Safe.Act
import RaftRs.Safe.Chain
import RaftRs.Safe.Write
import RaftRs.Track.Deliver

namespace RaftRs

open Library

variable {cs : ConfState} {h h' : History Nat Entry} {x : Nat}
  {durable durable' V V' : Replica Nat Entry}
  {pending pending' : List (Stage Nat Entry)} {P P' : Set (Promise Nat Entry)} {c c' : Core}
    {inp : Input → Prop}

/-- A node stays a picture of its replica when its log is rewritten and its queue is handed out. -/
theorem Core.Mirrors.settle (mirrors : c.Mirrors h x durable pending P V) (ext : h.Extends h')
    (commits : c.state = .leader → ∀ j, h'.commits c.term j → h.commits c.term j) {log : RaftLog}
    {msgs : List Message} {readStates : List ReadState} (fewer : msgs ⊆ c.msgs)
    (log_shows : log.Shows V.log) (committed : log.committed = c.log.committed)
    (stored : log.store.Pictures (History.latest durable' pending'))
    (saved : (History.latest durable' pending').commit ≤ V.commit)
    (queue : ∀ m ∈ msgs, m.Backed x (h'.recorded x ∪ P'))
    (campaigns : c.state = .candidate → (∃ log, .vote c.term x log ∈ issuedPromises h' x pending') →
      P' ⊆ {.vote c.term x V.log}) :
    Core.Mirrors h' x durable' pending' P' V { c with log, msgs, readStates } := by
  have picture := mirrors.picture
  have last : log.lastIndex = c.log.lastIndex := by rw [← log_shows.length, mirrors.length]
  refine ⟨mirrors.named, ⟨picture.term, picture.vote, picture.role, log_shows, ?_⟩, stored, saved,
    ?_, queue, ?_, campaigns, mirrors.unasked, mirrors.unbatched⟩
  · rw [picture.commit]
    exact committed.symm
  · exact fun m inside => (mirrors.means m (fewer inside)).mono ext
  · intro role
    have rules := mirrors.rules role
    refine ⟨fun m inside => (rules.queue m (fewer inside)).mono (ext.recorded x),
      fun id pos known => ?_, ?_, ?_⟩
    · show pos.Rests h' c.term id log.lastIndex
      rw [last]
      exact (rules.positions id pos known).mono ext
    · show c.readOnly.Below log.committed
      rw [committed]
      exact rules.reads
    · show h'.Decides c.term log.committed
      rw [committed]
      exact rules.decides.mono ext (commits role)

/-- A leader without an unstable part has written its whole log. -/
theorem Core.Lives.settled_log (lives : c.Lives cs h x durable pending P V)
    (entries : c.log.unstable.entries = []) (snapshot : c.log.unstable.snapshot = none)
    (role : c.state = .leader) :
    (History.latest durable pending).log = V.log := by
  have leads : V.role = .leader := by rw [lives.mirrors.picture.role, role]; rfl
  obtain ⟨-, e, -, -, -, all⟩ := lives.inv.leading _ rfl leads
  obtain ⟨-, -, begins⟩ := all _ (History.latest_mem_older durable pending)
  refine begins.eq_of_length ?_
  have wf := lives.mirrors.picture.log.wf
  have last := wf.last
  have offset := (wf.joined snapshot).2.2 entries
  rw [entries, List.length_nil] at last
  rw [lives.mirrors.stored.log.length, lives.mirrors.length]
  omega

/-- A pending snapshot is not below a bound that the commit index has reached before. -/
theorem Acts.snapshot_above {bound : Nat} (low : bound ≤ c.log.committed)
    (above : ∀ s, c.log.unstable.snapshot = some s → bound ≤ s.metadata.index) (acts : Acts inp c c') :
    ∀ s, c'.log.unstable.snapshot = some s → bound ≤ s.metadata.index := by
  induction acts with
  | refl => exact above
  | @tail middle last before act ih =>
      intro s found
      rcases act.snapshot_cases with same | ⟨m, -, -, -, restored⟩
      · exact ih s (same ▸ found)
      · obtain ⟨-, snapshot⟩ := RaftLog.restore_rest restored
        obtain rfl := Option.some.inj (snapshot.symm.trans found)
        have up := (Acts.forward before).log.committed
        unfold RaftLog.restore at restored
        simp only at restored
        split at restored
        · cases restored
        next reached => omega

/-- What was handed to an application is decided: an entry stands in a committed log, and a snapshot
at the end of one. -/
def Delivery.Decided (h : History Nat Entry) : Delivery → Prop
  | .entry e _ => ∃ log, h.Committed log ∧ log[e.index - 1]? = some e
  | .snapshot s =>
      ∃ log, h.Committed log ∧ log.length = s.metadata.index ∧ lastTerm log = s.metadata.term

theorem Delivery.Decided.mono {d : Delivery} (decided : d.Decided h) (ext : h.Extends h') :
    d.Decided h' := by
  cases d with
  | entry e bound => exact Exists.imp (fun _ both => ⟨ext.committed both.1, both.2⟩) decided
  | snapshot s => exact Exists.imp (fun _ both => ⟨ext.committed both.1, both.2⟩) decided

/-- A committed entry of a node is decided. -/
theorem Core.Lives.decided (lives : c.Lives cs h x durable pending P V) {e : Entry}
    (below : e.index ≤ c.log.committed) (present : c.log.entryAt e.index = some e) :
    ∃ log, h.Committed log ∧ log[e.index - 1]? = some e := by
  have view := lives.mirrors.picture.log
  have first := (view.wf.bounds present).1
  have positive := view.wf.first_pos
  refine ⟨V.log.take V.commit, lives.inv.proper.committed, ?_⟩
  rw [List.getElem?_take_of_lt (by rw [lives.mirrors.picture.commit]; omega)]
  exact view.entry _ e present

/-- A pending snapshot of a node stands at the end of a committed log. -/
theorem Core.Lives.decided_snapshot (lives : c.Lives cs h x durable pending P V) {s : Snapshot}
    (pending : c.log.unstable.snapshot = some s) : (Delivery.snapshot s).Decided h := by
  have view := lives.mirrors.picture.log
  have low := view.wf.low
  rw [RaftLog.firstIndex_of_snapshot pending] at low
  have below : s.metadata.index ≤ V.commit := by
    rw [lives.mirrors.picture.commit]
    omega
  have proper := lives.inv.proper
  refine ⟨V.log.take s.metadata.index, proper.committed.of_start (List.take_prefix_take_left below),
    ?_, view.pending s pending⟩
  rw [List.length_take, min_eq_left (below.trans proper.bounded)]

/-- A write holds the state of a stage, and its messages are backed by the promises that wait for
it. -/
structure Write.Carries (h : History Nat Entry) (x : Nat) (write : Write)
    (stage : Stage Nat Entry) : Prop where
  store : write.store.Pictures stage.replica
  means : ∀ m ∈ write.msgs, m.Means h
  backed : ∀ m ∈ write.msgs, m.Backed x (h.recorded x ∪ stage.promises)

theorem Write.Carries.mono {write : Write} {stage : Stage Nat Entry} (carries : write.Carries h x stage)
    (ext : h.Extends h') : write.Carries h' x stage :=
  ⟨carries.store, fun m inside => (carries.means m inside).mono ext, fun m inside =>
    (carries.backed m inside).mono (Set.union_subset_union_left _ (ext.recorded x))⟩

/-- The hard state that a node has handed out last. -/
def RawNode.handed (outstanding : Option Ready) (rn : RawNode) : HardState :=
  (outstanding.bind Ready.hs).getD rn.prevHs

/-- A running node with its handed out hard state is part of a history. -/
structure RawNode.Mirrors (h : History Nat Entry) (x : Nat) (durable : Replica Nat Entry)
    (pending : List (Stage Nat Entry)) (P : Set (Promise Nat Entry)) (V : Replica Nat Entry)
    (outstanding : Option Ready) (rn : RawNode) : Prop where
  core : rn.raft.core.Mirrors h x durable pending P V
  handed : Handed h x (History.latest durable pending) V (rn.handed outstanding)
  snapshot : outstanding = none → ∀ s, rn.raft.raftLog.unstable.snapshot = some s →
    rn.prevHs.commit ≤ s.metadata.index

namespace Host

/-- A machine whose node, writes and messages are part of a safe history. -/
structure Lives (cs : ConfState) (h : History Nat Entry) (x : Nat) (node : Node Nat Entry)
    (host : Host) : Prop where
  recounts : Recounts cs h
  inv : h.NodeInv x node.durable node.pending node.live
  durable : host.durable.store.Pictures node.durable
  pending : List.Forall₂ (Write.Carries h x) host.pending node.pending
  waiting : ∀ write ∈ host.past ++ [host.durable], ∀ m ∈ write.msgs, m.Means h ∧
    m.Backed x (h.recorded x)
  stopped : host.raw = none → node.live = none
  running : ∀ rn, host.raw = some rn → ∃ P V, node.live = some ⟨P, V⟩ ∧
    rn.Mirrors h x node.durable node.pending P V host.outstanding
  delivered : ∀ d ∈ host.delivered, d.Decided h

/-- A machine continues a safe history and sends messages that the history knows. -/
def Continues (cs : ConfState) (h : History Nat Entry) (x : Nat) (host : Host)
    (sent : List Message) : Prop :=
  ∃ h' node, h.Frame x h' ∧ host.Lives cs h' x node ∧ ∀ m ∈ sent, m.Means h' ∧ m.Backed x (h'.recorded x)

variable {node : Node Nat Entry} {host host' : Host} {sent net : List Message}
  {permitted : Config → Prop}
  {compacts : RawNode → Nat → Prop} {rn rn' : RawNode}

/-- A running node of a safe history lives in it. -/
theorem Lives.core (lives : host.Lives cs h x node) (raw : host.raw = some rn) :
    ∃ P V, node.live = some ⟨P, V⟩ ∧ rn.Mirrors h x node.durable node.pending P V host.outstanding ∧
      rn.raft.core.Lives cs h x node.durable node.pending P V := by
  obtain ⟨P, V, live, mirrors⟩ := lives.running rn raw
  have inv := lives.inv
  rw [live] at inv
  exact ⟨P, V, live, mirrors, lives.recounts, inv, mirrors.core⟩

/-- A machine whose node has changed without a write. -/
theorem Lives.resume (lives : host.Lives cs h x node) (frame : h.Frame x h') (recounts : Recounts cs h')
    (inv : h'.NodeInv x node.durable node.pending (some ⟨P, V⟩))
    (same : host'.durable = host.durable ∧ host'.pending = host.pending ∧ host'.past = host.past)
    (raw : host'.raw = some rn)
    (mirrors : rn.Mirrors h' x node.durable node.pending P V host'.outstanding)
    (handed : ∀ d ∈ host'.delivered, d ∈ host.delivered ∨ d.Decided h')
    (sends : ∀ m ∈ sent, m.Means h' ∧ m.Backed x (h'.recorded x)) : host'.Continues cs h x sent := by
  obtain ⟨durable, pending, past⟩ := same
  have ext := frame.toExtends
  refine ⟨h', ⟨node.durable, node.pending, some ⟨P, V⟩⟩, frame,
    ⟨recounts, inv, ?_, ?_, ?_, fun none => ?_, fun _ running => ?_,
      fun d inside => (handed d inside).elim (fun old => (lives.delivered d old).mono ext)
        fun new => new⟩, sends⟩
  · rw [durable]
    exact lives.durable
  · rw [pending]
    exact lives.pending.imp fun _ _ carries => carries.mono ext
  · rw [durable, past]
    exact fun write member m inside => (lives.waiting write member m inside).imp
      (fun means => means.mono ext) fun backed =>
      backed.mono (ext.recorded x)
  · cases raw.symm.trans none
  · cases raw.symm.trans running
    exact ⟨P, V, rfl, mirrors⟩

/-- A machine that has issued a write. -/
theorem Lives.issue (lives : host.Lives cs h x node) {write : Write} {stage : Stage Nat Entry}
    (inv : h.NodeInv x node.durable (node.pending ++ [stage]) (some ⟨P, V⟩))
    (same : host'.durable = host.durable ∧ host'.pending = host.pending ++ [write] ∧
      host'.past = host.past)
    (carries : write.Carries h x stage) (raw : host'.raw = some rn)
    (mirrors : rn.Mirrors h x node.durable (node.pending ++ [stage]) P V host'.outstanding)
    (handed : ∀ d ∈ host'.delivered, d ∈ host.delivered ∨ d.Decided h)
    (sends : ∀ m ∈ sent, m.Means h ∧ m.Backed x (h.recorded x)) : host'.Continues cs h x sent := by
  obtain ⟨durable, pending, past⟩ := same
  refine ⟨h, ⟨node.durable, node.pending ++ [stage], some ⟨P, V⟩⟩, .refl x h,
    ⟨lives.recounts, inv, ?_, ?_, ?_, fun none => ?_, fun _ running => ?_,
      fun d inside => (handed d inside).elim (lives.delivered d) fun new => new⟩, sends⟩
  · rw [durable]
    exact lives.durable
  · rw [pending]
    exact List.rel_append lives.pending (.cons carries .nil)
  · rw [durable, past]
    exact lives.waiting
  · cases raw.symm.trans none
  · cases raw.symm.trans running
    exact ⟨P, V, rfl, mirrors⟩

/-- An index that every write holds is held by every state that the machine may restart from. -/
theorem Lives.older_length (lives : host.Lives cs h x node) {index : Nat}
    (all : ∀ write ∈ host.durable :: host.pending, index ≤ write.store.lastIndex) :
    ∀ u ∈ History.older node.durable node.pending, index ≤ u.log.length := by
  obtain ⟨first, others⟩ := List.forall_mem_cons.1 all
  refine List.forall_mem_cons.2 ⟨lives.durable.log.length ▸ first, List.forall_mem_map.2 ?_⟩
  have carried : ∀ {writes : List Write} {stages : List (Stage Nat Entry)}, List.Forall₂
      (Write.Carries h x) writes stages →
      (∀ write ∈ writes, index ≤ write.store.lastIndex) →
        ∀ stage ∈ stages, index ≤ stage.replica.log.length := by
    intro writes stages carried
    induction carried with
    | nil => exact fun _ => List.forall_mem_nil _
    | cons carries _ ih =>
        intro all
        obtain ⟨first, rest⟩ := List.forall_mem_cons.1 all
        exact List.forall_mem_cons.2 ⟨carries.store.log.length ▸ first, ih rest⟩
  exact carried lives.pending others

/-- A call or a report of a machine continues the history. -/
theorem Lives.acts {raft : Raft} (lives : host.Lives cs h x node) (several : cs.NoSingleton)
    (supplied : Supplied inp net h x) (heard : ∀ m, inp (.message m) → m.Uniform cs ∧ m.Termed)
    (uniform : host.Uniform cs) (sworn : host.Sworn cs net x) (grounded : host.Grounded)
    (raw : host.raw = some rn) (idle : host.outstanding = none)
    (written : ∀ index term, inp (.persisted index term) → ¬ inp .election ∧
      (rn.raft.state = .leader → term = rn.raft.term →
      ∀ write ∈ host.durable :: host.pending, index ≤ write.store.lastIndex))
    (acts : Acts inp rn.raft.core raft.core)
    (same : host'.durable = host.durable ∧ host'.pending = host.pending ∧ host'.past = host.past)
    (running : host'.raw = some rn') (after : host'.outstanding = none)
    (delivered : host'.delivered = host.delivered) (node' : rn'.raft = raft)
    (prevHs : rn'.prevHs = rn.prevHs) : host'.Continues cs h x [] := by
  obtain ⟨P, V, live, mirrors, core⟩ := lives.core raw
  obtain ⟨h', P', V', frame, lives'⟩ := Acts.continues several supplied heard (uniform.running rn raw)
    (sworn.running rn raw).1 (List.subset_append_left _ _) (grounded.running rn raw).1
    (fun index term reported => (written index term reported).imp_right fun all role same =>
      lives.older_length (all role same))
    core acts
  have up : V.commit ≤ V'.commit := by
    rw [core.mirrors.picture.commit, lives'.mirrors.picture.commit]
    exact (Acts.forward acts).log.committed
  subst node'
  refine lives.resume frame lives'.recounts lives'.inv same running ⟨lives'.mirrors, ?_, ?_⟩
    (fun d inside => .inl (delivered ▸ inside)) (List.forall_mem_nil _)
  · rw [after, RawNode.handed, prevHs]
    have handed := mirrors.handed
    rw [idle] at handed
    exact handed.mono frame.toExtends up
  · rw [prevHs]
    have low : rn.prevHs.commit ≤ V.commit := by
      have low := mirrors.handed.low
      rwa [idle] at low
    rw [core.mirrors.picture.commit] at low
    exact fun _ => Acts.snapshot_above low (mirrors.snapshot idle) acts

/-- A Ready continues the history: a leader sends its messages, any other node writes them with its
state. -/
theorem Lives.ready {rd : Ready} {store : MemStorage} (lives : host.Lives cs h x node) (tidy : host.Tidy)
    (raw : host.raw = some rn) (idle : host.outstanding = none) (done : rn.ready = .ok (rn', rd))
    (stored : writeReady rn'.raft.raftLog.store rd = .ok store)
    (same : host'.durable = host.durable ∧
      host'.pending = host.pending ++ [{ number := rd.number, store, msgs := rd.persistedMessages }] ∧
      host'.past = host.past)
    (running : host'.raw = some (withStore rn' store)) (after : host'.outstanding = some rd)
    (delivered : host'.delivered = host.delivered ++ (if rd.snapshot.isEmpty then []
      else [Delivery.snapshot rd.snapshot]) ++
      deliveries rn' rd.committedEntries) :
    host'.Continues cs h x rd.messages := by
  obtain ⟨P, V, -, mirrors, core⟩ := lives.core raw
  have readies := RawNode.ready_readies done
  have sound : rn.raft.raftLog.Sound := (tidy.idle rn raw idle).log
  have picture := mirrors.core.picture
  have proper := core.inv.proper
  have handed := mirrors.handed
  rw [idle] at handed
  obtain ⟨c, le, source, pictures⟩ :=
    writeReady_pictures readies sound picture proper mirrors.core.stored handed
    (mirrors.snapshot idle) stored
  have queued : ∀ m ∈ rd.persistedMessages, m ∈ rn.raft.core.msgs := by
    rw [readies.persistedMessages]
    split
    · exact List.forall_mem_nil _
    · exact fun m inside => inside
  refine lives.issue (core.inv.seal lives.recounts.valid le source) same ⟨pictures, ?_, ?_⟩ running
    ⟨?_, ?_, ?_⟩ ?_ ?_
  · exact fun m inside => mirrors.core.means m (queued m inside)
  · exact fun m inside => mirrors.core.queue m (queued m inside)
  · rw [readies.core_withStore store]
    refine mirrors.core.settle (.refl h) (fun _ _ decided => decided) (List.nil_subset _)
      (picture.log.busy (readies.written sound stored)) rfl ?_ ?_
      (List.forall_mem_nil _) fun _ _ => Set.empty_subset _
    · rw [History.latest_append]
      exact pictures
    · rw [History.latest_append]
      exact le
  · have hardState : (withStore rn' store).handed host'.outstanding = rn.raft.hardState := by
      rw [after]
      show rd.hs.getD rn'.prevHs = _
      rw [readies.prevHs, readies.hs]
      split
      · rfl
      next unchanged => exact (not_not.1 unchanged).symm
    have commit : rn.raft.hardState.commit = V.commit := picture.commit.symm
    rw [hardState, History.latest_append]
    refine ⟨picture.term, picture.vote, ?_, ?_, ?_, ?_, commit.le⟩
    · rw [commit]
      exact le
    · rw [commit]
      exact proper.bounded
    · rw [commit]
      exact proper.committed
    · rw [commit]
      exact source.imp Eq.symm And.left
  · intro none
    cases after.symm.trans none
  · rw [delivered]
    intro d inside
    rcases List.mem_append.1 inside with before | new
    · rcases List.mem_append.1 before with old | new
      · exact .inl old
      · cases pending : rn.raft.raftLog.unstable.snapshot with
        | none =>
            rw [readies.snapshot, pending] at new
            cases new
        | some s =>
            rw [readies.snapshot, pending, Option.getD_some] at new
            split at new
            · cases new
            · obtain rfl := List.mem_singleton.1 new
              exact .inr (core.decided_snapshot pending)
    · obtain ⟨rn₁, rn₂, raft₁, lit, -⟩ := RawNode.ready_parts done
      have log₁ : rn₁.raft.raftLog = rn.raft.raftLog := by rw [raft₁]
      obtain ⟨e, member, rfl⟩ := List.mem_map.1 new
      obtain ⟨below, present⟩ := RawNode.light_present (log₁ ▸ sound) lit member
      rw [log₁] at below present
      exact .inr (core.decided below present)
  · rw [readies.messages]
    split
    next role =>
      exact fun m inside => ⟨mirrors.core.means m inside, (mirrors.core.rules role).queue m inside⟩
    · exact List.forall_mem_nil _

/-- A write that becomes durable makes its promises visible. -/
theorem Lives.flush {write : Write} {rest : List Write} (lives : host.Lives cs h x node)
    (pending : host.pending = write :: rest) :
    Continues cs h x { host with
      past := host.past ++ [host.durable], durable := write, pending := rest } [] := by
  obtain ⟨recounts, inv, durable, carried, waiting, stopped, running, delivered⟩ := lives
  obtain ⟨before, stages, live⟩ := node
  rw [pending] at carried
  cases carried with
  | @cons _ stage _ stages carries others =>
      obtain ⟨Q, W⟩ := stage
      simp only at inv
      have frame := History.frame_record x h Q
      have ext := frame.toExtends
      have recorded := History.recorded_record h x Q
      refine ⟨h.record x Q, ⟨W, stages, live⟩, frame,
        ⟨recounts.record inv.recordable, inv.flush recounts.valid, carries.store,
          others.imp fun _ _ carries => carries.mono ext, ?_, stopped, ?_,
            fun d inside => (delivered d inside).mono ext⟩,
        List.forall_mem_nil _⟩
      · intro other member m inside
        rcases List.mem_append.1 member with old | new
        · exact (waiting other old m inside).imp (fun means => means.mono ext)
            fun backed => backed.mono (ext.recorded x)
        · rw [List.mem_singleton.1 new] at inside
          exact ⟨(carries.means m inside).mono ext, recorded ▸ carries.backed m inside⟩
      · intro rn raw
        obtain ⟨P, V, alive, mirrors⟩ := running rn raw
        have stored := mirrors.core.stored
        have saved := mirrors.core.saved
        have handed := mirrors.handed
        simp only [History.latest_cons] at stored saved handed
        refine ⟨P, V, alive, ?_, handed.mono ext le_rfl, mirrors.snapshot⟩
        refine mirrors.core.settle ext (fun _ _ decided => decided)
          (List.Subset.refl _) mirrors.core.picture.log rfl stored saved ?_ ?_
        · exact fun m inside => (mirrors.core.queue m inside).mono
            (Set.union_subset_union_left _ (ext.recorded x))
        · intro role issued
          refine mirrors.core.campaigns role (issued.imp fun log cast => ?_)
          rcases cast with visible | ⟨stage, member, promised⟩
          · rw [recorded] at visible
            exact visible.imp_right fun promised => ⟨⟨Q, W⟩, List.mem_cons_self, promised⟩
          · exact .inr ⟨stage, List.mem_cons_of_mem _ member, promised⟩

/-- A Ready that becomes stable leaves the replica alone. -/
theorem Lives.stable {rd : Ready} (lives : host.Lives cs h x node) (tidy : host.Tidy)
    (raw : host.raw = some rn) (outstanding : host.outstanding = some rd)
    (done : rn.commitReady rd = .ok rn') :
    Continues cs h x { host with raw := some rn', outstanding := none } [] := by
  obtain ⟨P, V, -, mirrors, core⟩ := lives.core raw
  obtain ⟨log, busy⟩ := tidy.busy rn rd raw outstanding
  obtain ⟨-, snapshot, -, alike, store, same⟩ := busy.settle done
  have changed : rn'.raft.core = { rn.raft.core with log := rn'.raft.raftLog } := by
    rw [same]
    rfl
  refine lives.resume (.refl x h) lives.recounts core.inv ⟨rfl, rfl, rfl⟩ rfl ⟨?_, ?_,
    fun _ s pending => ?_⟩
    (fun _ => .inl) (List.forall_mem_nil _)
  · rw [changed]
    refine mirrors.core.settle (.refl h) (fun _ _ decided => decided) (List.Subset.refl _)
      (busy.shows done mirrors.core.picture.log) alike.committed ?_
      mirrors.core.saved mirrors.core.queue mirrors.core.campaigns
    rw [store]
    exact mirrors.core.stored
  · have handed := mirrors.handed
    rw [outstanding] at handed
    have prevHs : rn'.prevHs = rd.hs.getD rn.prevHs := by rw [same]
    rw [RawNode.handed, Option.bind_none, Option.getD_none, prevHs]
    exact handed
  · cases snapshot.symm.trans pending

/-- A light Ready continues the history: only a leader sends messages, and only a leader hands out a
commit index. -/
theorem Lives.light {light : LightReady} (lives : host.Lives cs h x node) (raw : host.raw = some rn)
    (idle : host.outstanding = none) (done : rn.genLightReady = .ok (rn', light))
    (withheld : rn'.raft.state = .leader ∨ light.messages = [])
    (current : rn'.raft.term = rn'.prevHs.term ∧ rn'.raft.vote = rn'.prevHs.vote)
    (settled : rn.Settled ∨ rn'.raft.hardState = rn.prevHs)
    (same : host'.durable = host.durable ∧ host'.pending = host.pending ∧ host'.past = host.past)
    (running : host'.raw = some { rn' with prevHs := rn'.raft.hardState })
    (after : host'.outstanding = none)
    (delivered : host'.delivered = host.delivered ++ deliveries rn' light.committedEntries)
    (sound : rn.raft.raftLog.Sound) :
    host'.Continues cs h x light.messages := by
  obtain ⟨P, V, -, mirrors, core⟩ := lives.core raw
  have lights := RawNode.genLightReady_lights done
  have picture := mirrors.core.picture
  have state : rn'.raft.state = rn.raft.state := congrArg Core.state lights.core
  have log : rn'.raft.raftLog = rn.raft.raftLog := congrArg Core.log lights.core
  have term : rn'.raft.term = rn.raft.term := congrArg Core.term lights.core
  have vote : rn'.raft.vote = rn.raft.vote := congrArg Core.vote lights.core
  have prevHs : rn'.prevHs = rn.prevHs := by rw [lights.rest]
  have handed : Handed h x (History.latest node.durable node.pending) V rn.prevHs := by
    have handed := mirrors.handed
    rwa [idle] at handed
  have commit : rn'.raft.hardState.commit = V.commit := by
    rw [picture.commit]
    exact congrArg RaftLog.committed log
  rw [prevHs] at current
  refine lives.resume (.refl x h) lives.recounts core.inv same running ⟨?_, ?_,
    fun _ s pending => ?_⟩ ?_ ?_
  · show rn'.raft.core.Mirrors h x node.durable node.pending P V
    rw [lights.core]
    exact mirrors.core.settle (.refl h) (fun _ _ decided => decided) (List.nil_subset _) picture.log
      rfl mirrors.core.stored mirrors.core.saved
      (List.forall_mem_nil _) mirrors.core.campaigns
  · rw [after]
    show Handed h x (History.latest node.durable node.pending) V rn'.raft.hardState
    have unchanged : rn'.raft.hardState = rn.prevHs →
        Handed h x (History.latest node.durable node.pending) V rn'.raft.hardState :=
      fun same => by rwa [same]
    rcases settled with settled | same
    · by_cases role : rn.raft.state = .leader
      · have whole := core.settled_log settled.entries settled.snapshot role
        refine ⟨?_, ?_, ?_, ?_, ?_, .inr ?_, commit.le⟩
        · rw [handed.term, ← current.1]
          rfl
        · rw [handed.vote, ← current.2]
          rfl
        · rw [commit]
          exact handed.above.trans handed.low
        · rw [commit, whole]
          exact core.inv.proper.bounded
        · rw [commit, whole]
          exact core.inv.proper.committed
        · rw [handed.term, ← current.1, term]
          exact core.leader_elected role
      · refine unchanged ?_
        have reached := settled.committed role
        rw [← log] at reached
        show HardState.mk rn'.raft.term rn'.raft.vote rn'.raft.raftLog.committed = _
        rw [current.1, current.2, reached]
    · exact unchanged same
  · have pending : rn.raft.raftLog.unstable.snapshot = some s := log ▸ pending
    rcases settled with settled | same
    · cases settled.snapshot.symm.trans pending
    · show rn'.raft.hardState.commit ≤ _
      rw [same]
      exact mirrors.snapshot idle s pending
  · rw [delivered]
    intro d inside
    rcases List.mem_append.1 inside with old | new
    · exact .inl old
    · obtain ⟨e, member, rfl⟩ := List.mem_map.1 new
      obtain ⟨below, present⟩ := RawNode.light_present sound done member
      exact .inr (core.decided below present)
  · rw [lights.messages]
    rcases withheld with role | none
    · rw [state] at role
      exact fun m inside => ⟨mirrors.core.means m inside, (mirrors.core.rules role).queue m inside⟩
    · rw [← lights.messages, none]
      exact List.forall_mem_nil _

/-- A write of its own repeats the latest state with a commit index that was handed out. -/
theorem Lives.rewrite {store : MemStorage} {commit : Nat} (lives : host.Lives cs h x node)
    (raw : host.raw = some rn) (idle : host.outstanding = none)
    (above : (History.latest node.durable node.pending).commit ≤ commit)
    (below : commit ≤ rn.prevHs.commit)
    (pictures : store.Pictures { History.latest node.durable node.pending with commit })
    (view : ∀ full, rn.raft.raftLog.Shows full → RaftLog.Shows { rn.raft.raftLog with store } full) :
    Continues cs h x { host with
      raw := some (withStore rn store),
        pending := host.pending ++ [{ number := rn.maxNumber, store }] } [] := by
  obtain ⟨P, V, -, mirrors, core⟩ := lives.core raw
  have handed : Handed h x (History.latest node.durable node.pending) V rn.prevHs := by
    have handed := mirrors.handed
    rwa [idle] at handed
  have committed : h.Committed ((History.latest node.durable node.pending).log.take commit) :=
    handed.committed.of_start (List.take_prefix_take_left below)
  refine lives.issue (core.inv.rewrite above (below.trans handed.bounded) committed) ⟨rfl, rfl, rfl⟩
    ⟨pictures, List.forall_mem_nil _, List.forall_mem_nil _⟩ rfl ⟨?_, ?_,
      fun _ => mirrors.snapshot idle⟩ (fun _ => .inl)
    (List.forall_mem_nil _)
  · show Core.Mirrors h x _ _ P V { rn.raft.core with log := { rn.raft.raftLog with store } }
    refine mirrors.core.settle (.refl h) (fun _ _ decided => decided) (List.Subset.refl _)
      (view _ mirrors.core.picture.log) rfl ?_ ?_ mirrors.core.queue ?_
    · rw [History.latest_append]
      exact pictures
    · rw [History.latest_append]
      exact below.trans handed.low
    · intro role issued
      refine mirrors.core.campaigns role (issued.imp fun log cast => cast.imp_right ?_)
      rintro ⟨stage, member, promised⟩
      rcases List.mem_append.1 member with old | new
      · exact ⟨stage, old, promised⟩
      · rw [List.mem_singleton.1 new] at promised
        exact promised.elim
  · rw [History.latest_append]
    show Handed h x _ V ((host.outstanding.bind Ready.hs).getD rn.prevHs)
    rw [idle]
    refine ⟨handed.term, handed.vote, below, handed.bounded, handed.committed, ?_, handed.low⟩
    rcases handed.source with same | elected
    · exact .inl (le_antisymm (same.trans_le above) below)
    · exact .inr elected

theorem Lives.crash (lives : host.Lives cs h x node) : host.crash.Continues cs h x [] := by
  refine ⟨h, ⟨node.durable, [], none⟩, .refl x h,
    ⟨lives.recounts, lives.inv.crash, ?_, .nil, ?_, fun _ => rfl, fun _ running => ?_,
      List.forall_mem_nil _⟩, List.forall_mem_nil _⟩
  · exact lives.durable
  · intro write member
    rw [List.mem_singleton.1 member]
    exact List.forall_mem_nil _
  · cases running

/-- A node starts again from its durable state. -/
theorem Lives.restart {config : Config} (lives : host.Lives cs h x node) (stopped : host.raw = none)
    (unwritten : host.pending = []) (idle : host.outstanding = none)
    (grounded : host.durable.store.Grounded) (named : config.id = x)
    (unbatched : config.batchAppend = false) (starts : rn.Starts config host.durable.store) :
    Continues cs h x { host with raw := some rn } [] := by
  have carried := lives.pending
  rw [unwritten, List.forall₂_nil_left_iff] at carried
  have inv := lives.inv
  rw [carried, lives.stopped stopped] at inv
  have pictures := lives.durable
  have proper : h.Proper node.durable := inv.older_proper List.mem_cons_self
  have store : rn.raft.raftLog.store = host.durable.store := by
    rw [starts.log]
    rfl
  have commit : node.durable.commit = rn.raft.raftLog.committed := by
    rw [pictures.commit, starts.committed]
    split
    next empty =>
      have vacant : host.durable.store.Vacant :=
        grounded (by simp [MemStorage.ballot, HardState.ballot, empty])
      rw [vacant.firstIndex, empty]
    · rfl
  have term : rn.raft.core.term = host.durable.store.raftState.hardState.term := by rw [starts.core]
  have vote : rn.raft.core.vote = host.durable.store.raftState.hardState.vote := by rw [starts.core]
  have state : rn.raft.core.state = .follower := by rw [starts.core]
  have msgs : rn.raft.core.msgs = [] := by rw [starts.core]
  have shown : rn.raft.raftLog.Shows node.durable.log := by
    have new := pictures.log.new 0
    have low : (RaftLog.new host.durable.store 0).committed ≤ rn.raft.raftLog.committed := starts.low
    have moved := new.commit low starts.high
    rw [starts.log]
    exact moved.mark _ _ _
  have picture : rn.raft.core.Pictures { node.durable with role := .follower } := by
    refine ⟨?_, ?_, ?_, shown, commit⟩
    · rw [term]
      exact pictures.term
    · rw [vote]
      exact pictures.vote
    · rw [state]
      rfl
  have mirrors : rn.Mirrors h x node.durable node.pending ∅ { node.durable with
      role := .follower } host.outstanding := by
    rw [carried, idle]
    refine ⟨⟨?_, picture, ?_, le_rfl, ?_, ?_, ?_, ?_, ?_, ?_⟩, ?_, fun _ s pending => ?_⟩
    · rw [starts.core]
      exact named
    · show rn.raft.raftLog.store.Pictures _
      rw [store]
      exact pictures
    · rw [msgs]
      exact List.forall_mem_nil _
    · rw [msgs]
      exact List.forall_mem_nil _
    · simp [state]
    · simp [state]
    · rw [starts.core]
    · rw [starts.core]
      exact unbatched
    · show Handed h x node.durable _ rn.prevHs
      rw [starts.prevHs]
      have reached : rn.raft.hardState.commit = node.durable.commit := commit.symm
      refine ⟨picture.term, picture.vote, reached.ge, ?_, ?_, .inl reached, reached.le⟩
      · rw [reached]
        exact proper.bounded
      · rw [reached]
        exact proper.committed
    · rw [starts.log] at pending
      cases pending
  exact lives.resume (.refl x h) lives.recounts (carried ▸ inv.restart) ⟨rfl, rfl, rfl⟩ rfl mirrors
    (fun _ => .inl)
    (List.forall_mem_nil _)

/-- Every phase in its place continues a safe history. -/
theorem Paced.continues (several : cs.NoSingleton) (supplied : Supplied inp net h x)
    (heard : ∀ m, inp (.message m) → m.Uniform cs ∧ m.Termed)
    (unreported : ∀ index term, ¬ inp (.persisted index term))
    (unbatched : ∀ config, permitted config → config.batchAppend = false)
    (orderly : ∀ rn index, compacts rn index →
      index ≤ rn.raft.raftLog.store.raftState.hardState.commit) (tidy : host.Tidy)
      (uniform : host.Uniform cs) (sworn : host.Sworn cs net x) (grounded : host.Grounded)
    (chained : host.Chained) (lives : host.Lives cs h x node)
    (paced : Paced inp permitted compacts host host' sent) :
    host'.Continues cs h x sent := by
  have settled := paced.settled
  have drops := paced.compacted
  have phase := paced.phase
  cases phase with
  | @call rn raft raw idle acts =>
      have supplied : Supplied (rn.inputs inp) net h x :=
        ⟨supplied.credible, supplied.heard, supplied.sent, supplied.fixed, supplied.unasked,
          supplied.unbatched⟩
      have heard : ∀ m, rn.inputs inp (.message m) → m.Uniform cs ∧ m.Termed := heard
      exact lives.acts several supplied heard uniform sworn grounded raw idle
        (fun index term reported => absurd reported (unreported index term)) acts ⟨rfl, rfl, rfl⟩
          rfl idle rfl rfl rfl
  | @ready rn rn' rd store raw idle done written =>
      exact lives.ready tidy raw idle done written ⟨rfl, rfl, rfl⟩ rfl rfl rfl
  | flush pending => exact lives.flush pending
  | @send number ahead durable =>
      refine ⟨h, node, .refl x h,
        ⟨lives.recounts, lives.inv, lives.durable, lives.pending, lives.waiting, lives.stopped,
          lives.running, lives.delivered⟩, fun m inside => ?_⟩
      obtain ⟨write, member, inside⟩ := List.mem_flatMap.1 inside
      exact lives.waiting write (List.mem_filter.1 member).1 m inside
  | stable raw outstanding done => exact lives.stable tidy raw outstanding done
  | @report rn raft number snapIndex index term raw idle durable position acts =>
      have supplied : Supplied (persistedInputs snapIndex index term) net h x :=
        ⟨fun _ given => given.elim, fun _ given => given.elim, supplied.sent, fun _ => not_false,
          not_false, fun _ given => given.elim⟩
      refine lives.acts several supplied (fun _ given => given.elim) uniform sworn grounded raw idle
        ?_ acts ⟨rfl, rfl, rfl⟩ rfl
        idle rfl rfl rfl
      rintro _ _ ⟨rfl, rfl, nonzero⟩
      exact ⟨not_false,
        fun role own write member => chained.reported raw durable position nonzero role own member⟩
  | @light rn rn' light raw idle done withheld current =>
      refine lives.light raw idle done withheld current ?_ ⟨rfl, rfl, rfl⟩ rfl idle rfl
        (tidy.idle rn raw idle).log
      exact (settled rn _ raw rfl idle idle).imp_right And.left
  | @saveCommit rn store raw idle saved =>
      obtain ⟨P, V, -, mirrors, core⟩ := lives.core raw
      have handed := mirrors.handed
      rw [idle] at handed
      have stored := mirrors.core.stored
      subst saved
      refine lives.rewrite raw idle handed.above le_rfl ?_ fun full view => ?_
      · exact ⟨stored.term, stored.vote, stored.log.setHardstate _, rfl,
          stored.anchored.imp_left fun retained =>
          retained.trans (stored.commit ▸ handed.above)⟩
      · exact ⟨⟨⟨view.wf.store.contiguous, view.wf.store.after⟩, view.wf.contiguous,
          view.wf.snapshot, view.wf.joined, view.wf.low, view.wf.high⟩, view.length, view.entry,
            view.pending, view.base⟩
  | @compact rn compactIndex store raw idle may done =>
      obtain ⟨P, V, -, mirrors, core⟩ := lives.core raw
      have handed := mirrors.handed
      rw [idle] at handed
      have stored : rn.raft.raftLog.store.Pictures (History.latest node.durable node.pending) :=
        mirrors.core.stored
      have wf : rn.raft.raftLog.WF := (tidy.idle rn raw idle).log.wf
      have kept := (Host.compacted wf may done).1
      have shrinks := compacted_shrinks wf may done
      simp only [mayCompact, Bool.and_eq_true, decide_eq_true_eq] at may
      obtain ⟨-, -, -, metadata, state, -⟩ := wf.store.compact may.1.2 done
      refine lives.rewrite raw idle le_rfl handed.above ?_ fun full view => view.shrink kept shrinks
        metadata
      refine ⟨?_, ?_, stored.log.compact may.1.2 done, ?_, ?_⟩
      · rw [state]
        exact stored.term
      · rw [state]
        exact stored.vote
      · rw [state]
        exact stored.commit
      · rw [state, metadata]
        rcases drops rn _ raw rfl idle idle with same | dropped
        · have same : store.firstIndex = rn.raft.raftLog.store.firstIndex := same
          rw [same]
          exact stored.anchored
        · exact .inl (orderly rn _ dropped)
  | crash => exact lives.crash
  | @restart config rng rn stopped same allowed done =>
      exact lives.restart stopped (chained.stopped stopped).2 (tidy.stopped stopped)
        (grounded.chain _ List.mem_cons_self)
        (same.trans sworn.place) (unbatched config allowed) (RawNode.new_starts tidy.durable done)

end Host

end RaftRs

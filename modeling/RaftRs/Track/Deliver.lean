import RaftRs.Node.Pace
import RaftRs.Track.Scan

namespace RaftRs

open Library

/-- The position of an application after a delivery that continues its position: the next entry, or
a snapshot that is not behind it. -/
def Delivery.after (position : Nat) : Delivery → Option Nat
  | .entry e _ => if e.index = position + 1 then some e.index else none
  | .snapshot s => if position ≤ s.metadata.index then some s.metadata.index else none

/-- The position of an application after deliveries that continue one another without a gap. -/
def Delivery.reach (position : Nat) (deliveries : List Delivery) : Option Nat :=
  deliveries.foldlM Delivery.after position

theorem Delivery.reach_append {first second : List Delivery} {i j : Nat}
    (reach : Delivery.reach i first = some j) :
    Delivery.reach i (first ++ second) = Delivery.reach j second := by
  unfold Delivery.reach at reach ⊢
  rw [List.foldlM_append, reach]
  rfl

/-- Contiguous entries continue the position before them. -/
theorem Delivery.reach_entries {i bound : Nat} {ents : List Entry}
    (contiguous : Contiguous (i + 1) ents) :
    Delivery.reach i (ents.map fun entry => .entry entry bound) = some (i + ents.length) := by
  induction ents generalizing i with
  | nil => rfl
  | cons entry rest ih =>
      obtain ⟨index, continues⟩ := contiguous_cons.1 contiguous
      have next := ih continues
      unfold Delivery.reach at next ⊢
      rw [List.map_cons, List.foldlM_cons, Delivery.after, if_pos index, index]
      refine next.trans ?_
      rw [List.length_cons]
      congr 1
      omega

namespace RaftLog

variable {log log' log'' : RaftLog}

/-- No committed entry of a log is replaced; it may be dropped. -/
structure Retains (log log' : RaftLog) : Prop where
  committed : log.committed ≤ log'.committed
  entryAt : ∀ i e, i ≤ log.committed → log'.entryAt i = some e → log.entryAt i = some e

theorem Retains.refl : log.Retains log := ⟨le_rfl, fun _ _ _ present => present⟩

theorem Retains.trans (first : log.Retains log') (second : log'.Retains log'') : log.Retains log'' :=
  ⟨first.committed.trans second.committed, fun i e low present =>
    first.entryAt i e low (second.entryAt i e (low.trans first.committed) present)⟩

theorem Shrinks.retains (shrinks : log.Shrinks log') (committed : log'.committed = log.committed) :
    log.Retains log' :=
  ⟨committed.ge, fun i e _ => shrinks.entryAt i e⟩

theorem Marks.retains (marks : log.Marks log') (committed : log.committed ≤ log'.committed) :
    log.Retains log' :=
  ⟨committed, fun i _ _ present => (marks.entryAt i).symm.trans present⟩

theorem WF.retains_append (wf : log.WF) {first : Nat} {ents : List Entry}
    (contiguous : Contiguous first ents) (done : log.append ents = .ok log') : log.Retains log' := by
  by_cases empty : ents = []
  · subst empty
    obtain rfl := Except.ok.inj done
    exact .refl
  · have appended := wf.append empty contiguous done
    refine ⟨(forward_append done).committed, fun i e low present => ?_⟩
    have above := appended.above
    rwa [appended.entryAt, if_pos (by omega)] at present

/-- An accepted append replaces nothing that is committed. -/
theorem WF.retains_maybeAppend (wf : log.WF) {idx term committed first : Nat} {ents : List Entry}
    (contiguous : Contiguous first ents) {result : Option (Nat × Nat)}
    (done : log.maybeAppend idx term committed ents = .ok (log', result)) : log.Retains log' := by
  unfold RaftLog.maybeAppend at done
  split at done
  · obtain ⟨middle, spliced, done⟩ := bind_eq_ok.1 done
    obtain ⟨final, moved, done⟩ := bind_eq_ok.1 done
    obtain ⟨rfl, -⟩ := ok_pair_inj done
    have kept : log.Retains middle := by
      unfold RaftLog.appendFrom at spliced
      split at spliced
      · obtain rfl := Except.ok.inj spliced
        exact .refl
      split_ifs at spliced
      obtain ⟨appended, grown, rest⟩ := bind_eq_ok.1 spliced
      obtain rfl := Except.ok.inj rest
      refine (wf.retains_append (contiguous.drop _) grown).trans ?_
      split
      · exact ⟨le_rfl, fun _ _ _ present => present⟩
      · exact .refl
    exact kept.trans ((marks_commitTo moved).retains (forward_commitTo moved).committed)
  · obtain ⟨rfl, -⟩ := ok_pair_inj done
    exact .refl

end RaftLog

/-- No atomic change replaces a committed entry. -/
theorem Act.retains {inp : Input → Prop} {c c' : Core} (heard : ∀ m, inp (.message m) → m.Tidy)
    (tidy : c.Tidy) (act : Act inp c c') : c.log.Retains c'.log := by
  have sound := tidy.log
  have after := (act.tidy heard tidy).log
  have forward := act.forward.log.committed
  cases act with
  | stepDown => exact ⟨le_rfl, fun _ _ _ present => present⟩
  | grow role admitted done => exact sound.wf.retains_append (contiguous_assignPositions _ _ _) done
  | leave role free done => exact sound.wf.retains_append (contiguous_assignPositions _ _ _) done
  | accept stepped kind heardFrom role unasked above done =>
      obtain ⟨first, contiguous⟩ := (heard _ stepped).append kind
      exact sound.wf.retains_maybeAppend contiguous done
  | heartbeat stepped kind heardFrom role done => exact (RaftLog.marks_commitTo done).retains forward
  | @restore m log _ _ _ stepped kind heardFrom role fresh done =>
      refine ⟨forward, fun i e low present => ?_⟩
      have bounds := (after.wf.bounds present).1
      have restored : log.firstIndex = log.committed + 1 := by
        unfold RaftLog.restore at done
        simp only at done
        split at done
        · cases done
        · obtain rfl := Except.ok.inj done
          exact RaftLog.firstIndex_of_snapshot rfl
      have bounds : log.firstIndex ≤ i := bounds
      have forward : c.log.committed ≤ log.committed := forward
      omega
  | fastForward stepped kind heardFrom role agrees done =>
      exact (RaftLog.marks_commitTo done).retains forward
  | commitByVote stepped kind role positive done =>
      exact (RaftLog.marks_maybeCommit done).retains forward
  | commitByRead stepped kind heardFrom role done =>
      exact (RaftLog.marks_maybeCommit done).retains forward
  | commitByQuorum role acked done => exact (RaftLog.marks_maybeCommit done).retains forward
  | persist reported done =>
      rw [Core.countOwn_rest] at forward ⊢
      exact (RaftLog.marks_maybePersist done).retains forward
  | persistSnap reported done => exact (RaftLog.marks_maybePersistSnap done).retains forward
  | apply given done => exact (RaftLog.marks_appliedTo done).retains forward
  | @confirm ctx status readOnly confirmed role pending acked done =>
      obtain ⟨_, _, rest⟩ := Core.responds_rest { c with readOnly } confirmed
      rw [rest]
      exact .refl
  | @respondNow m stepped kind role immediate =>
      obtain ⟨_, _, rest⟩ := c.respond_rest m c.log.committed
      rw [rest]
      exact .refl
  | _ => exact ⟨le_rfl, fun _ _ _ present => present⟩

/-- No sequence of atomic changes replaces a committed entry. -/
theorem Acts.retains {inp : Input → Prop} {c c' : Core} (heard : ∀ m, inp (.message m) → m.Tidy)
    (tidy : c.Tidy) (acts : Acts inp c c') : c.log.Retains c'.log := by
  induction acts with
  | refl => exact .refl
  | tail before act ih => exact ih.trans (act.retains heard (Acts.tidy heard tidy before))

/-- Applied indexes stay at most the handed out one. -/
theorem Acts.applied_le {inp : Input → Prop} {c c' : Core} {handed : Nat}
    (few : ∀ index, inp (.applied index) → index ≤ handed) (low : c.log.applied ≤ handed)
    (acts : Acts inp c c') :
    c'.log.applied ≤ handed := by
  induction acts with
  | refl => exact low
  | tail _ act ih =>
      rcases act.applied_cases with same | ⟨index, given, done⟩
      · exact same.trans_le ih
      · unfold RaftLog.appliedTo at done
        split_ifs at done
        · rw [← Except.ok.inj done]
          exact ih
        · rw [← Except.ok.inj done]
          exact few index given

namespace RawNode

variable {rn rn' : RawNode} {applied : Nat} {delivered : List Delivery}

/-- The application of a node was handed everything behind an applied index in order, and what it
was handed is what the log holds. -/
structure Hands (applied : Nat) (delivered : List Delivery) (rn : RawNode) : Prop where
  reach : Delivery.reach applied delivered = some rn.commitSinceIndex
  low : rn.raft.raftLog.applied ≤ rn.commitSinceIndex
  first : rn.raft.raftLog.store.firstIndex ≤ rn.commitSinceIndex + 1
  committed : ∀ entry bound, Delivery.entry entry bound ∈ delivered →
    entry.index ≤ rn.raft.raftLog.committed
  entries : ∀ entry bound, Delivery.entry entry bound ∈ delivered →
    ∀ e, rn.raft.raftLog.entryAt entry.index = some e → e = entry

theorem Hands.keep (hands : rn.Hands applied delivered)
    (since : rn'.commitSinceIndex = rn.commitSinceIndex)
    (low : rn'.raft.raftLog.applied ≤ rn.commitSinceIndex)
    (first : rn'.raft.raftLog.store.firstIndex ≤ rn.commitSinceIndex + 1)
    (retains : rn.raft.raftLog.Retains rn'.raft.raftLog) : rn'.Hands applied delivered := by
  refine ⟨hands.reach.trans (by rw [since]), since ▸ low, since ▸ first, fun entry bound inside => ?_,
    fun entry bound inside e present => ?_⟩
  · exact (hands.committed entry bound inside).trans retains.committed
  · have before := hands.committed entry bound inside
    exact hands.entries entry bound inside e (retains.entryAt _ e before present)

/-- The entries of a light Ready are committed entries of the log. -/
theorem light_present (sound : rn.raft.raftLog.Sound) {light : LightReady}
    (done : rn.genLightReady = .ok (rn', light)) {entry : Entry}
    (inside : entry ∈ light.committedEntries) :
    entry.index ≤ rn.raft.raftLog.committed ∧ rn.raft.raftLog.entryAt entry.index = some entry := by
  obtain ⟨high, bounded, handed, since⟩ := light_range sound done
  rw [handed] at inside
  have below := (sound.wf.index_range inside).2
  have above := (sound.wf.index_range inside).1
  obtain ⟨i, -, read⟩ := List.mem_filterMap.1 inside
  refine ⟨?_, by rwa [sound.wf.entryAt_index read]⟩
  omega

/-- The entries of a light Ready continue what was handed out before. -/
theorem Hands.light (hands : rn.Hands applied delivered) (sound : rn.raft.raftLog.Sound)
    (begins : rn.raft.raftLog.firstIndex ≤ rn.commitSinceIndex + 1) {light : LightReady}
    (done : rn.genLightReady = .ok (rn', light)) (bound : Nat) :
    rn'.Hands applied (delivered ++ light.committedEntries.map fun entry => .entry entry bound) := by
  obtain ⟨high, bounded, handed, since⟩ := light_range sound done
  rw [max_eq_left begins] at bounded handed since
  have log := genLightReady_log done
  have committed := sound.wf.high
  have low := sound.wf.low
  have ahead : rn.commitSinceIndex ≤ rn'.commitSinceIndex := (genLightReady_counts done).2
  have inside : ∀ entry other, Delivery.entry entry other ∈
      delivered ++ light.committedEntries.map (fun entry => .entry entry bound) →
      Delivery.entry entry other ∈ delivered ∨ entry ∈ light.committedEntries := by
    intro entry other inside
    rcases List.mem_append.1 inside with old | new
    · exact .inl old
    · obtain ⟨e, member, same⟩ := List.mem_map.1 new
      cases same
      exact .inr member
  refine ⟨?_, ?_, ?_, fun entry other member => ?_, fun entry other member e read => ?_⟩
  · rw [Delivery.reach_append hands.reach]
    rcases since with ⟨empty, since⟩ | ⟨less, since⟩
    · rw [handed, empty, RaftLog.range_self, since]
      rfl
    · have contiguous : Contiguous (rn.commitSinceIndex + 1) light.committedEntries := by
        intro k entry read
        rw [handed] at read
        have short := (List.getElem?_eq_some_iff.1 read).1
        rw [sound.wf.length_range begins (by omega)] at short
        rw [sound.wf.getElem?_range begins (by omega) short] at read
        exact sound.wf.entryAt_index read
      rw [Delivery.reach_entries contiguous, handed, sound.wf.length_range begins (by omega), since]
      congr 1
      omega
  · rw [log]
    exact hands.low.trans ahead
  · rw [log]
    exact hands.first.trans (Nat.succ_le_succ ahead)
  · rw [log]
    rcases inside entry other member with old | new
    · exact hands.committed entry other old
    · exact (light_present sound done new).1
  · rw [log] at read
    rcases inside entry other member with old | new
    · exact hands.entries entry other old e read
    · exact Option.some.inj (read.symm.trans (light_present sound done new).2)

/-- A Ready continues what was handed out before, and its writes replace nothing. -/
theorem Hands.ready (hands : rn.Hands applied delivered) (sound : rn.raft.raftLog.Sound) {rd : Ready}
    {store : MemStorage} (done : rn.ready = .ok (rn', rd))
    (stored : Host.writeReady rn'.raft.raftLog.store rd = .ok store) :
    (Host.withStore rn' store).Hands applied (delivered ++ (if rd.snapshot.isEmpty then [] else
      [Delivery.snapshot rd.snapshot]) ++ Host.deliveries rn' rd.committedEntries) := by
  have readies := ready_readies done
  have written := readies.written sound stored
  have log' : rn'.raft.raftLog = rn.raft.raftLog := congrArg Core.log readies.core
  obtain ⟨rn₁, rn₂, raft₁, lit, raft, since, handed⟩ := ready_parts done
  have log₁ : rn₁.raft.raftLog = rn.raft.raftLog := by rw [raft₁]
  have sound₁ : rn₁.raft.raftLog.Sound := log₁ ▸ sound
  have first := hands.first
  -- The snapshot moves the position first, so that the entries behind it continue it.
  have next : rn₁.Hands applied (delivered ++ if rd.snapshot.isEmpty then []
      else [Delivery.snapshot rd.snapshot]) ∧
      rn₁.raft.raftLog.firstIndex ≤ rn₁.commitSinceIndex + 1 := by
    rcases handed with ⟨none, same⟩ | ⟨s, pending, ahead, same⟩
    · have empty : rd.snapshot.isEmpty = true := by
        rw [readies.snapshot, none]
        rfl
      rw [if_pos empty, List.append_nil, log₁, RaftLog.firstIndex_of_none none, same]
      exact ⟨hands.keep same (log₁ ▸ hands.low) (log₁ ▸ first) (log₁ ▸ .refl), first⟩
    · have full : rd.snapshot = s := by rw [readies.snapshot, pending, Option.getD_some]
      have nonempty : s.isEmpty = false := by simp [Snapshot.isEmpty, sound.positioned s pending]
      rw [full, nonempty, log₁, RaftLog.firstIndex_of_snapshot pending, same]
      have low := hands.low
      refine ⟨⟨?_, ?_, ?_, ?_, ?_⟩, le_rfl⟩
      · rw [if_neg Bool.false_ne_true, Delivery.reach_append hands.reach, same]
        simp [Delivery.reach, Delivery.after, ahead]
      · rw [log₁, same]
        exact low.trans ahead
      · rw [log₁, same]
        omega
      · intro entry bound inside
        rw [log₁]
        exact hands.committed entry bound (by simpa using inside)
      · intro entry bound inside
        rw [log₁]
        exact hands.entries entry bound (by simpa using inside)
  obtain ⟨next, begins⟩ := next
  have out := next.light sound₁ begins lit rn'.raft.raftLog.applyBound
  have log₂ : rn₂.raft.raftLog = rn.raft.raftLog := by rw [← raft, log']
  have ahead := (genLightReady_counts lit).2
  have since : (Host.withStore rn' store).commitSinceIndex = rn₂.commitSinceIndex := since
  refine out.keep since ?_ ?_ ?_
  · show rn'.raft.raftLog.applied ≤ _
    rw [raft]
    exact out.low
  · show store.firstIndex ≤ _
    rw [written.first]
    rw [log₁] at begins
    omega
  · show rn₂.raft.raftLog.Retains { rn'.raft.raftLog with store }
    rw [log₂, log']
    exact written.busy.shrinks.retains rfl

/-- A call that applies only what was handed out hands out nothing and replaces nothing. -/
theorem Hands.acts {inp : Input → Prop} {raft : Raft} {records : List ReadyRecord}
    (hands : rn.Hands applied delivered) (heard : ∀ m, inp (.message m) → m.Tidy)
    (few : ∀ index, inp (.applied index) → index ≤ rn.commitSinceIndex) (tidy : rn.raft.core.Tidy)
    (acts : Acts inp rn.raft.core raft.core) :
    Hands applied delivered { rn with raft, records } := by
  have same : rn.raft.raftLog.store.Same raft.raftLog.store := Acts.store_same acts
  refine hands.keep rfl (Acts.applied_le few hands.low acts) ?_ (Acts.retains heard tidy acts)
  show raft.raftLog.store.firstIndex ≤ _
  have first := hands.first
  unfold MemStorage.firstIndex at first ⊢
  rwa [same.entries, same.snapshotMetadata]

end RawNode

namespace Host

variable {inp : Input → Prop} {permitted : Config → Prop} {compacts : RawNode → Nat → Prop}
  {start host host' : Host}
  {op : HostOp} {ops : List HostOp} {sent : List Message} {applied : Nat}

/-- A machine whose application was handed everything behind an applied index in order. -/
structure Hands (applied : Nat) (host : Host) : Prop where
  tidy : host.Tidy
  current : host.Current
  node : ∀ rn, host.raw = some rn → rn.Hands applied host.delivered

/-- Every phase in its place hands out in order, unless the node starts again. -/
theorem Paced.hands (heard : ∀ m, inp (.message m) → m.Tidy)
    (few : ∀ rn index, host.raw = some rn → rn.inputs inp (.applied index) → index ≤ rn.commitSinceIndex)
    (unstarted : ∀ config, ¬ permitted config) (hands : host.Hands applied)
    (paced : Paced inp permitted compacts host host' sent) : host'.Hands applied := by
  have phase := paced.phase
  refine ⟨(phase.tidy heard hands.tidy).1, phase.current hands.tidy hands.current, fun rn₁ running => ?_⟩
  have settled := paced.settled
  cases phase with
  | @call rn raft raw idle acts =>
      cases running
      have heard : ∀ m, rn.inputs inp (.message m) → m.Tidy := heard
      exact (hands.node rn raw).acts heard (few rn · raw) (hands.tidy.idle rn raw idle) acts
  | @ready rn rn' rd store raw idle done written =>
      cases running
      exact (hands.node rn raw).ready (hands.tidy.idle rn raw idle).log done written
  | flush pending => exact hands.node _ running
  | send ahead durable => exact hands.node _ running
  | @stable rn rn' rd raw outstanding done =>
      cases running
      obtain ⟨log, busy⟩ := hands.tidy.busy rn rd raw outstanding
      obtain ⟨-, -, -, alike, store, same⟩ := busy.settle done
      have before := hands.node rn raw
      refine before.keep (by rw [same]) ?_ ?_ (alike.shrinks.retains alike.committed)
      · rw [alike.applied]
        exact before.low
      · rw [store]
        exact before.first
  | @report rn raft number snapIndex index term raw idle durable position acts =>
      cases running
      exact (hands.node rn raw).acts (fun _ given => given.elim) (fun _ given => given.elim)
        (hands.tidy.idle rn raw idle) acts
  | @light rn rn' light raw idle done withheld current =>
      cases running
      have before := hands.node rn raw
      have sound : rn.raft.raftLog.Sound := (hands.tidy.idle rn raw idle).log
      have log := RawNode.genLightReady_log done
      have kept : ∀ delivered, rn'.Hands applied delivered →
          RawNode.Hands applied delivered { rn' with prevHs := rn'.raft.hardState } :=
        fun _ hands => ⟨hands.reach, hands.low, hands.first, hands.committed, hands.entries⟩
      rcases settled rn _ raw rfl idle idle with settled | ⟨-, since, same⟩
      · refine kept _ (before.light sound ?_ done rn'.raft.raftLog.applyBound)
        rw [RaftLog.firstIndex_of_none settled.snapshot]
        exact before.first
      · have since : rn'.commitSinceIndex = rn.commitSinceIndex := since
        show RawNode.Hands applied (host.delivered ++ deliveries rn' light.committedEntries) _
        have same : host.delivered ++ deliveries rn' light.committedEntries = host.delivered := same
        rw [same]
        exact kept _ (before.keep since (log ▸ before.low) (log ▸ before.first) (log ▸ .refl))
  | @saveCommit rn store raw idle saved =>
      cases running
      subst saved
      have before := hands.node rn raw
      exact before.keep rfl before.low before.first ⟨le_rfl, fun _ _ _ present => present⟩
  | @compact rn compactIndex store raw idle may done =>
      cases running
      have before := hands.node rn raw
      have sound : rn.raft.raftLog.Sound := (hands.tidy.idle rn raw idle).log
      refine before.keep rfl before.low ?_ ((compacted_shrinks sound.wf may done).retains rfl)
      simp only [mayCompact, Bool.and_eq_true, decide_eq_true_eq] at may
      obtain ⟨-, first, -⟩ := sound.wf.store.compact may.1.2 done
      show store.firstIndex ≤ _
      have low := before.low
      have old := before.first
      omega
  | crash => cases running
  | restart stopped same allowed done => exact absurd allowed (unstarted _)

variable [ConfChangeCodec]

/-- Every heedful operation hands out in order, unless the node starts again. -/
theorem step_hands (hands : host.Hands applied) (formed : op.Tidy) (heeds : host.Heeds op)
    (running : ∀ config rng, op ≠ .restart config rng) (stepped : host.step op = .ok (host', sent)) :
    host'.Hands applied := by
  have unstarted : ∀ config, ¬ op.permits config := fun config ⟨rng, same⟩ => running config rng same
  by_cases calls : op.Calls
  · obtain ⟨action, same, does⟩ := Host.step_call calls
    rw [same] at stepped
    rcases Host.call_ok does stepped with ⟨rfl, -⟩ | ⟨rn, raft, raw, idle, acts, rfl, -⟩
    · exact hands
    · have phase : Phase op.inputs op.permits host { host with raw := some { rn with raft } } [] :=
        .call raw idle acts
      have paced : Paced op.inputs op.permits (host.compactsTo op) host { host with
          raw := some { rn with raft } } [] := by
        refine phase.paced ?_
        rintro _ _ before after - -
        obtain rfl := Option.some.inj (raw.symm.trans before)
        cases after
        exact ⟨⟨rfl, rfl, rfl⟩, (Acts.store_same acts).firstIndex⟩
      exact paced.hands formed.heard (fun rn index raw => heeds.few raw) unstarted hands
  · have none := HostOp.inputs_of_not_calls calls
    refine (Paces.keeps (Q := fun _ => True) (fun middle middle' sent hands paced => ?_) hands
      (step_paces hands.tidy hands.current stepped)).1
    refine ⟨paced.hands formed.heard (fun rn index raw given => ?_) unstarted hands, fun _ _ => trivial⟩
    exact given.resolve_left (none _)

/-- A started node has handed out nothing behind its applied index. -/
theorem hands_restart {config : Config} {rng : Nat → Nat} (tidy : host.Tidy) (stopped : host.raw = none)
    (fresh : host.delivered = []) (begins : host.durable.store.firstIndex ≤ config.applied + 1)
    (stepped : host.step (.restart config rng) = .ok (host', sent)) : host'.Hands config.applied := by
  have formed : (HostOp.restart config rng).Tidy := fun m same => by cases same
  have after := step_tidy tidy formed stepped
  have current : host.Current := fun rn rd running => by cases stopped.symm.trans running
  cases step_moves stepped with
  | stay => exact ⟨after, current, fun rn running => by cases stopped.symm.trans running⟩
  | call calls => exact calls.elim
  | @restart _ _ rn _ own started =>
      have starts := RawNode.new_starts tidy.durable started
      refine ⟨after, fun _ _ _ busy => ?_, fun rn' running => ?_⟩
      · cases (tidy.stopped stopped).symm.trans busy
      · cases running
        show rn.Hands config.applied host.delivered
        have store : rn.raft.raftLog.store = host.durable.store := by
          rw [starts.log]
          rfl
        rw [fresh]
        refine ⟨?_, ?_, ?_, fun _ _ inside => (List.not_mem_nil inside).elim,
          fun _ _ inside => (List.not_mem_nil inside).elim⟩
        · rw [starts.since]
          rfl
        · rw [starts.applied, starts.since]
          split <;> omega
        · rw [store, starts.since]
          exact begins

/-- From its start on, a node hands every entry behind its applied index to a heedful application
exactly once and in order, snapshots only forward, and what was handed out is committed and never
differs from the log. -/
theorem handed_out_in_order {config : Config} {rng : Nat → Nat} {rn : RawNode} (tidy : start.Tidy)
    (stopped : start.raw = none) (fresh : start.delivered = [])
    (begins : start.durable.store.firstIndex ≤ config.applied + 1) (formed : ∀ op ∈ ops, op.Tidy)
    (once : ∀ op ∈ ops, ∀ config rng, op ≠ .restart config rng)
    (heeds : Obeys Heeds start (.restart config rng :: ops))
    (done : start.run (.restart config rng :: ops) = .ok host) (raw : host.raw = some rn) :
    Delivery.reach config.applied host.delivered = some rn.commitSinceIndex ∧
      ∀ entry bound, Delivery.entry entry bound ∈ host.delivered →
        entry.index ≤ rn.raft.raftLog.committed ∧
        ∀ e, rn.raft.raftLog.entryAt entry.index = some e → e = entry := by
  rw [run, List.foldlM_cons] at done
  obtain ⟨started, first, done⟩ := bind_eq_ok.1 done
  obtain ⟨⟨started, sent⟩, stepped, same⟩ := bind_eq_ok.1 first
  obtain rfl := Except.ok.inj same
  have hands : host.Hands config.applied := by
    refine (heeds.2 _ sent stepped).keeps (fun op inside _ _ _ hands heeds stepped => ?_)
      (hands_restart tidy stopped fresh begins stepped) done
    exact step_hands hands (formed op inside) heeds (once op inside) stepped
  have node := hands.node rn raw
  exact ⟨node.reach, fun entry bound inside =>
    ⟨node.committed entry bound inside, node.entries entry bound inside⟩⟩

omit [ConfChangeCodec] in
/-- A single voter hands out its first entry and a proposal. -/
theorem handed_out_in_order_single : let _ := ConfChangeCodec.sample
    ∃ ops host rn, (fresh 1 { voters := [1] }).run (.restart { id := 1 } (fun _ => 0) :: ops) =
      .ok host ∧
      host.raw = some rn ∧ host.delivered.length = 2 ∧ Delivery.reach 0 host.delivered = some 2 := by
  intro _
  let ops : List HostOp :=
    [.campaign, .propose [] [7], .ready, .flush, .advance, .ready, .flush, .advance]
  have passed : (fresh 1 { voters := [1] }).ends (.restart { id := 1 } (fun _ => 0) :: ops) (fun host =>
      host.delivered.length == 2 && host.raw.any fun rn => rn.commitSinceIndex == 2) = true := by
        decide +kernel
  have formed : ∀ op ∈ ops, op.Tidy := HostOp.tidy_of_bare (by decide)
  have once : ∀ op ∈ ops, ∀ config rng, op ≠ .restart config rng := by simp [ops]
  have heeds : Obeys Heeds (fresh 1 { voters := [1] }) (.restart { id := 1 } (fun _ => 0) :: ops) :=
    ⟨fun _ _ => Nat.zero_le _,
      fun _ _ _ => ⟨trivial, fun _ _ _ => ⟨trivial, fun _ _ _ => ⟨trivial, fun _ _ _ =>
      ⟨trivial, fun _ _ _ => ⟨trivial,
        fun _ _ _ => ⟨trivial, fun _ _ _ => ⟨trivial, fun _ _ _ => ⟨trivial, fun _ _ _ =>
        trivial⟩⟩⟩⟩⟩⟩⟩⟩⟩
  obtain ⟨host, done, tested⟩ := run_ends passed
  simp only [Bool.and_eq_true, beq_iff_eq, Option.any_eq_true] at tested
  obtain ⟨two, rn, running, since⟩ := tested
  refine ⟨ops, host, rn, done, running, two, ?_⟩
  have handed :=
    handed_out_in_order (tidy_fresh 1 { voters := [1] }) rfl rfl (by decide) formed once heeds done
      running
  rw [since] at handed
  exact handed.1

end Host

end RaftRs

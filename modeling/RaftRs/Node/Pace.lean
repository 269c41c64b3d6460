import RaftRs.Node.Saved

namespace RaftRs

open Library

/-- Nothing of the log waits for a Ready, and a node that does not lead has handed out its commit
index. -/
structure RawNode.Settled (rn : RawNode) : Prop where
  entries : rn.raft.raftLog.unstable.entries = []
  snapshot : rn.raft.raftLog.unstable.snapshot = none
  committed : rn.raft.state ≠ .leader → rn.raft.raftLog.committed = rn.prevHs.commit

theorem MemStorage.Same.firstIndex {store store' : MemStorage} (same : store.Same store') :
    store'.firstIndex = store.firstIndex := by
  unfold MemStorage.firstIndex
  rw [same.entries, same.snapshotMetadata]

/-- The hard state that a Ready hands out is that of its node while the Ready is handled. -/
def Host.Current (host : Host) : Prop :=
  ∀ rn rd, host.raw = some rn → host.outstanding = some rd → rd.hs.getD rn.prevHs = rn.raft.hardState

namespace Host

/-- A phase in its place: a node that is idle before and after it hands out entries only when it is
settled, and drops stored entries only up to an index that it may compact. -/
structure Paced (inp : Input → Prop) (permitted : Config → Prop) (compacts : RawNode → Nat → Prop)
    (host host' : Host) (sent : List Message) : Prop where
  phase : Phase inp permitted host host' sent
  settled : ∀ rn rn', host.raw = some rn → host'.raw = some rn' → host.outstanding = none →
    host'.outstanding = none →
    rn.Settled ∨
      (rn'.prevHs = rn.prevHs ∧ rn'.commitSinceIndex = rn.commitSinceIndex ∧
        host'.delivered = host.delivered)
  compacted : ∀ rn rn', host.raw = some rn → host'.raw = some rn' → host.outstanding = none →
    host'.outstanding = none →
    rn'.raft.raftLog.store.firstIndex = rn.raft.raftLog.store.firstIndex ∨
      compacts rn rn'.raft.raftLog.store.firstIndex

/-- A sequence of phases in their places and everything that they send. -/
inductive Paces (inp : Input → Prop) (permitted : Config → Prop) (compacts : RawNode → Nat → Prop) :
    Host → Host → List Message → Prop where
  | refl {host : Host} : Paces inp permitted compacts host host []
  | step {host host' host'' : Host} {sent sent' : List Message}
      (first : Paced inp permitted compacts host host' sent)
      (rest : Paces inp permitted compacts host' host'' sent') :
      Paces inp permitted compacts host host'' (sent ++ sent')

variable {inp : Input → Prop} {permitted : Config → Prop} {compacts : RawNode → Nat → Prop}
  {host host' : Host}
  {sent : List Message}

theorem Paced.paces (paced : Paced inp permitted compacts host host' sent) :
    Paces inp permitted compacts host host' sent := by
  have single := Paces.step paced .refl
  rwa [List.append_nil] at single

/-- A phase that leaves what was handed out and the first stored index alone is in its place. -/
theorem Phase.paced (phase : Phase inp permitted host host' sent)
    (same : ∀ rn rn', host.raw = some rn → host'.raw = some rn' → host.outstanding = none →
      host'.outstanding = none →
      (rn'.prevHs = rn.prevHs ∧ rn'.commitSinceIndex = rn.commitSinceIndex ∧
        host'.delivered = host.delivered) ∧
        rn'.raft.raftLog.store.firstIndex = rn.raft.raftLog.store.firstIndex) :
    Paced inp permitted compacts host host' sent :=
  ⟨phase, fun rn rn' raw running idle after => .inr (same rn rn' raw running idle after).1,
    fun rn rn' raw running idle after => .inl (same rn rn' raw running idle after).2⟩

/-- Every phase keeps the handed out hard state that of the node. -/
theorem Phase.current (tidy : host.Tidy) (current : host.Current)
    (phase : Phase inp permitted host host' sent) :
    host'.Current := by
  intro rn₁ rd₁ running busy
  cases phase with
  | @ready rn rn' rd store raw idle done written =>
      cases running
      cases busy
      have readies := RawNode.ready_readies done
      have same : (withStore rn' store).raft.hardState = rn.raft.hardState := by
        have core := readies.core
        have term : rn'.raft.term = rn.raft.term := congrArg Core.term core
        have vote : rn'.raft.vote = rn.raft.vote := congrArg Core.vote core
        have log : rn'.raft.raftLog = rn.raft.raftLog := congrArg Core.log core
        simp only [Raft.hardState, withStore, term, vote, log]
      have prevHs : (withStore rn' store).prevHs = rn.prevHs := readies.prevHs
      rw [same, prevHs, readies.hs]
      split
      · rfl
      next unchanged => exact (not_not.1 unchanged).symm
  | flush pending => exact current _ _ running busy
  | send ahead durable => exact current _ _ running busy
  | stable raw outstanding done => cases busy
  | crash => cases running
  | restart stopped same allowed done => cases (tidy.stopped stopped).symm.trans busy
  | call raw idle => cases idle.symm.trans busy
  | report raw idle => cases idle.symm.trans busy
  | light raw idle => cases idle.symm.trans busy
  | saveCommit raw idle => cases idle.symm.trans busy
  | compact raw idle => cases idle.symm.trans busy

end Host

theorem Act.unstable_same {inp : Input → Prop} {c c' : Core} (silent : ∀ m, ¬ inp (.message m))
    (unelected : ¬ inp .election) (unapplied : ∀ index, ¬ inp (.applied index))
    (act : Act inp c c') : c'.log.unstable = c.log.unstable := by
  cases act with
  | stepDown => rfl
  | grow role admitted done source =>
      rcases source with may | ⟨m, stepped, -⟩
      · exact absurd may unelected
      · exact absurd stepped (silent m)
  | leave role free done given =>
      obtain ⟨index, given⟩ := given
      exact absurd given (unapplied index)
  | accept stepped => exact absurd stepped (silent _)
  | heartbeat stepped => exact absurd stepped (silent _)
  | restore stepped => exact absurd stepped (silent _)
  | fastForward stepped => exact absurd stepped (silent _)
  | commitByVote stepped => exact absurd stepped (silent _)
  | commitByRead stepped => exact absurd stepped (silent _)
  | commitByQuorum role acked done => exact (RaftLog.marks_maybeCommit done).unstable
  | persist reported done =>
      rw [Core.countOwn_rest]
      exact (RaftLog.marks_maybePersist done).unstable
  | persistSnap reported done => exact (RaftLog.marks_maybePersistSnap done).unstable
  | apply given done => exact absurd given (unapplied _)
  | @confirm ctx status readOnly confirmed role pending acked done =>
      obtain ⟨_, _, rest⟩ := Core.responds_rest { c with readOnly } confirmed
      rw [rest]
  | respondNow stepped => exact absurd stepped (silent _)
  | _ => rfl

namespace RawNode

variable {rn rn' : RawNode}

/-- A report of persisted Readys keeps the unstable part and the role, and only a leader commits by
it. -/
theorem onPersistReady_keeps {number : Nat} (done : rn.onPersistReady number = .ok rn') :
    rn'.raft.raftLog.unstable = rn.raft.raftLog.unstable ∧ rn'.raft.state = rn.raft.state ∧
      (rn.raft.state ≠ .leader → rn'.raft.raftLog.committed = rn.raft.raftLog.committed) := by
  cases position : persistedPosition (rn.records.takeWhile fun record => record.number ≤ number) with
  | mk snapIndex rest =>
  obtain ⟨index, term⟩ := rest
  obtain ⟨acts, -⟩ := Meets.of_eq_ok (does_onPersistReady position) done
  have unstable : rn'.raft.raftLog.unstable = rn.raft.raftLog.unstable := by
    have same : ∀ c, Acts (persistedInputs snapIndex index term) rn.raft.core c →
        c.log.unstable = rn.raft.raftLog.unstable := by
      intro c acts
      induction acts with
      | refl => rfl
      | tail _ act ih =>
          exact (act.unstable_same (fun _ => not_false) not_false fun _ => not_false).trans ih
    exact same _ acts
  unfold onPersistReady at done
  simp only [position] at done
  obtain ⟨r₁, snapped, done⟩ := bind_eq_ok.1 done
  obtain ⟨r₂, persisted, done⟩ := bind_eq_ok.1 done
  obtain rfl := Except.ok.inj done
  have first : r₁.state = rn.raft.state ∧ r₁.raftLog.committed = rn.raft.raftLog.committed := by
    split at snapped
    · obtain ⟨⟨log, moved⟩, marked, same⟩ := bind_eq_ok.1 snapped
      obtain rfl := Except.ok.inj same
      refine ⟨rfl, ?_⟩
      unfold RaftLog.maybePersistSnap at marked
      split at marked
      · split at marked
        · cases marked
        split at marked
        · cases marked
        · obtain ⟨rfl, -⟩ := ok_pair_inj marked
          rfl
      · obtain ⟨rfl, -⟩ := ok_pair_inj marked
        rfl
    · obtain rfl := Except.ok.inj snapped
      exact ⟨rfl, rfl⟩
  have second : r₂.state = r₁.state ∧
      (r₁.state ≠ .leader → r₂.raftLog.committed = r₁.raftLog.committed) := by
    split at persisted
    next some =>
      have reported : persistedInputs 0 index term (.persisted index term) := ⟨rfl, rfl, some⟩
      obtain ⟨-, steady⟩ := Meets.of_eq_ok (Raft.does_onPersistEntries reported) persisted
      refine ⟨steady.state, fun role => ?_⟩
      unfold Raft.onPersistEntries at persisted
      simp only [role, decide_false, Bool.and_false, Bool.false_eq_true, if_false] at persisted
      obtain rfl := Except.ok.inj persisted
      show (r₁.raftLog.maybePersist index term).1.committed = _
      unfold RaftLog.maybePersist
      simp only
      repeat' split
      all_goals rfl
    · obtain rfl := Except.ok.inj persisted
      exact ⟨rfl, fun _ => rfl⟩
  refine ⟨unstable, second.1.trans first.1, fun role => ?_⟩
  exact (second.2 (by rw [first.1]; exact role)).trans first.2

/-- An advanced Ready becomes stable, is reported as persisted and is followed by a light one. -/
theorem advanceAppend_parts {rd : Ready} {light : LightReady}
    (done : rn.advanceAppend rd = .ok (rn', light)) :
    ∃ rn₁ rn₂ rn₃ light₃, rn.commitReady rd = .ok rn₁ ∧ rn₁.onPersistReady rn₁.maxNumber = .ok rn₂ ∧
      rn₂.genLightReady = .ok (rn₃, light₃) ∧ (rn₃.raft.state = .leader ∨ light₃.messages = []) ∧
      (rn₃.raft.term = rn₃.prevHs.term ∧ rn₃.raft.vote = rn₃.prevHs.vote) ∧
      rn' = { rn₃ with prevHs := rn₃.raft.hardState } ∧ light.messages = light₃.messages ∧
      light.committedEntries = light₃.committedEntries := by
  unfold advanceAppend at done
  obtain ⟨rn₁, committed, done⟩ := bind_eq_ok.1 done
  obtain ⟨rn₂, reported, done⟩ := bind_eq_ok.1 done
  obtain ⟨⟨rn₃, light₃⟩, lit, done⟩ := bind_eq_ok.1 done
  simp only at done
  split at done
  · cases done
  next withheld =>
    have withheld : rn₃.raft.state = .leader ∨ light₃.messages = [] := by
      by_contra both
      push Not at both
      exact withheld both
    obtain ⟨⟨rn₄, light₄⟩, chosen, done⟩ := bind_eq_ok.1 done
    simp only at done
    split at done
    · cases done
    next same =>
      have same : rn₃.raft.hardState = rn₄.prevHs := not_not.1 same
      obtain ⟨rfl, rfl⟩ := ok_pair_inj done
      have moved : rn₄ = { rn₃ with prevHs := rn₃.raft.hardState } ∧ light₄.messages = light₃.messages ∧
          light₄.committedEntries = light₃.committedEntries ∧ rn₄.prevHs.term = rn₃.prevHs.term ∧
          rn₄.prevHs.vote = rn₃.prevHs.vote := by
        rw [same]
        split_ifs at chosen
        · obtain ⟨rfl, rfl⟩ := ok_pair_inj chosen
          exact ⟨rfl, rfl, rfl, rfl, rfl⟩
        · obtain ⟨rfl, rfl⟩ := ok_pair_inj chosen
          exact ⟨rfl, rfl, rfl, rfl, rfl⟩
      obtain ⟨moved, messages, entries, term, vote⟩ := moved
      refine ⟨rn₁, rn₂, rn₃, light₃, committed, reported, lit, withheld, ⟨?_, ?_⟩, moved, messages,
        entries⟩
      · rw [← term, ← same]
        rfl
      · rw [← vote, ← same]
        rfl

/-- A node is settled when its written Ready has become stable and was reported as persisted. -/
theorem settled_report {rn₁ rn₂ : RawNode} {rd : Ready} {log : RaftLog} {number : Nat}
    (busy : rn.Busy rd log) (current : rd.hs.getD rn.prevHs = rn.raft.hardState)
    (committed : rn.commitReady rd = .ok rn₁) (reported : rn₁.onPersistReady number = .ok rn₂)
    (prevHs : rn₂.prevHs = rn₁.prevHs) : rn₂.Settled := by
  obtain ⟨-, snapshot, entries, alike, -, same⟩ := busy.settle committed
  obtain ⟨unstable, state, kept⟩ := onPersistReady_keeps reported
  refine ⟨by rw [unstable, entries], by rw [unstable, snapshot], fun role => ?_⟩
  have handed : rn₁.prevHs = rn.raft.hardState := by rw [same, ← current]
  rw [kept (by rw [← state]; exact role), alike.committed, prevHs, handed]
  rfl

end RawNode

namespace Host

variable [ConfChangeCodec] {permitted : Config → Prop} {compacts : RawNode → Nat → Prop}
  {host host' : Host} {op : HostOp}
  {sent : List Message}

/-- The index up to which an operation of a machine compacts the storage of its node. -/
def compactsTo (host : Host) (op : HostOp) (rn : RawNode) (index : Nat) : Prop :=
  host.raw = some rn ∧ op = .compact index

omit [ConfChangeCodec] in
/-- A Ready is advanced through phases in their places, and what its node is left with. -/
theorem paces_advanceAppend (inp : Input → Prop) (permitted : Config → Prop)
    (compacts : RawNode → Nat → Prop) {rn rn' : RawNode} {rd : Ready} {light : LightReady}
    (tidy : host.Tidy) (current : host.Current) (raw : host.raw = some rn)
    (outstanding : host.outstanding = some rd) (written : host.pending = [])
    (done : rn.advanceAppend rd = .ok (rn', light)) :
    Paces inp permitted compacts host
      { host with
        raw := some rn', outstanding := none, reported := max host.reported rn'.maxNumber
        delivered := host.delivered ++ deliveries rn' light.committedEntries } light.messages := by
  obtain ⟨log, busy⟩ := tidy.busy rn rd raw outstanding
  obtain ⟨rn₁, rn₂, rn₃, light₃, committed, reported, lit, withheld, ballot, rfl, messages, entries⟩ :=
    RawNode.advanceAppend_parts done
  have lights := RawNode.genLightReady_lights lit
  cases position : RawNode.persistedPosition
    (rn₁.records.takeWhile fun record => record.number ≤ rn₁.maxNumber) with
  | mk snapIndex rest =>
  obtain ⟨index, term⟩ := rest
  obtain ⟨acts, same⟩ := Meets.of_eq_ok (RawNode.does_onPersistReady position) reported
  have settled : rn₂.Settled :=
    RawNode.settled_report busy (current rn rd raw outstanding) committed reported (by rw [same])
  have number : rn₃.maxNumber = rn₁.maxNumber := by rw [lights.rest, same]
  have stable : Paced inp permitted compacts host { host with raw := some rn₁, outstanding := none }
      [] :=
    (Phase.stable raw outstanding committed).paced fun _ _ _ _ idle => by
      cases idle.symm.trans outstanding
  have report : Paced inp permitted compacts { host with raw := some rn₁, outstanding := none }
      { host with
        raw := some rn₂, outstanding := none, reported := max host.reported rn₁.maxNumber } [] := by
    have phase : Phase inp permitted { host with raw := some rn₁, outstanding := none } _ [] :=
      .report rfl rfl (.inr written) position acts
    rw [← same] at phase
    refine phase.paced ?_
    rintro _ _ before after - -
    cases before
    cases after
    exact ⟨⟨by rw [same], by rw [same], rfl⟩, (Acts.store_same acts).firstIndex⟩
  have phase : Phase inp permitted
      { host with
        raw := some rn₂, outstanding := none, reported := max host.reported rn₁.maxNumber } _
      light₃.messages :=
    .light rfl rfl lit withheld ballot
  have lighten := @Paced.mk inp permitted compacts _ _ _ phase
    (fun _ _ before _ _ _ => by
      cases before
      exact .inl settled)
    (fun _ _ before after _ _ => by
      cases before
      cases after
      exact .inl (congrArg (fun c => c.log.store.firstIndex) lights.core))
  have all := Paces.step stable (.step report lighten.paces)
  simp only [List.nil_append, ← number] at all
  rw [messages, entries]
  exact all

omit [ConfChangeCodec] in
theorem Paces.append {inp : Input → Prop} {host'' : Host} {sent' : List Message}
    (first : Paces inp permitted compacts host host' sent)
    (second : Paces inp permitted compacts host' host'' sent') :
    Paces inp permitted compacts host host'' (sent ++ sent') := by
  induction first with
  | refl => exact second
  | step phase _ ih =>
      rw [List.append_assoc]
      exact .step phase (ih second)

section Operations

omit [ConfChangeCodec]

variable {inp : Input → Prop} {rn rn' : RawNode}

/-- The first index of the handed out entries only rises while a Ready is advanced. -/
theorem since_advanceAppend {rd : Ready} {light : LightReady}
    (done : rn.advanceAppend rd = .ok (rn', light)) :
    rn.commitSinceIndex ≤ rn'.commitSinceIndex := by
  obtain ⟨rn₁, rn₂, rn₃, light₃, settled, reported, lit, -, -, rfl, -⟩ :=
    RawNode.advanceAppend_parts done
  cases position : RawNode.persistedPosition
    (rn₁.records.takeWhile fun record => record.number ≤ rn₁.maxNumber) with
  | mk snapIndex rest =>
      obtain ⟨-, same⟩ := Meets.of_eq_ok (RawNode.does_onPersistReady position) reported
      have kept : rn₂.commitSinceIndex = rn₁.commitSinceIndex := by rw [same]
      rw [← RawNode.commitReady_since settled, ← kept]
      exact (RawNode.genLightReady_counts lit).2

/-- A Ready that is advanced and applied runs through one phase more than one that is only
advanced. -/
theorem paces_advance {rd : Ready} {light : LightReady} (tidy : host.Tidy) (current : host.Current)
    (raw : host.raw = some rn) (outstanding : host.outstanding = some rd) (written : host.pending = [])
    (advanced : rn.advance rd = .ok (rn', light)) :
    Paces inp permitted compacts host
      { host with
        raw := some rn', outstanding := none, reported := max host.reported rn'.maxNumber
        delivered := host.delivered ++ deliveries rn' light.committedEntries } light.messages := by
  obtain ⟨⟨rn₁, light₁⟩, first, advanced⟩ := bind_eq_ok.1 advanced
  obtain ⟨rn₂, applied, advanced⟩ := bind_eq_ok.1 advanced
  obtain ⟨rfl, rfl⟩ := ok_pair_inj advanced
  obtain ⟨raft, moved, same⟩ := bind_eq_ok.1 applied
  obtain rfl := Except.ok.inj same
  have paces := paces_advanceAppend inp permitted compacts tidy current raw outstanding written first
  have given : rn₁.inputs inp (.applied rn.commitSinceIndex) := .inr (since_advanceAppend first)
  obtain ⟨acts, -⟩ := Meets.of_eq_ok (Raft.does_commitApply given) moved
  have call : Phase inp permitted
      { host with
        raw := some rn₁, outstanding := none, reported := max host.reported rn₁.maxNumber
        delivered := host.delivered ++ deliveries rn₁ light₁.committedEntries } _ [] :=
          .call rfl rfl acts
  have both := paces.append (call.paced fun _ _ before after _ _ => by
    cases before
    cases after
    exact ⟨⟨rfl, rfl, rfl⟩, (Acts.store_same acts).firstIndex⟩).paces
  rw [List.append_nil] at both
  have bound : deliveries { rn₁ with
      raft } light₁.committedEntries = deliveries rn₁ light₁.committedEntries := by
    unfold deliveries
    rw [applyBound_commitApply moved]
  rw [bound]
  exact both

theorem paces_onPersistReady {number : Nat} (raw : host.raw = some rn) (idle : host.outstanding = none)
    (durable : number ≤ host.durable.number) (reported : rn.onPersistReady number = .ok rn') :
    Paces inp permitted compacts host { host with
      raw := some rn', reported := max host.reported number } [] := by
  cases position : RawNode.persistedPosition
    (rn.records.takeWhile fun record => record.number ≤ number) with
  | mk snapIndex rest =>
      obtain ⟨index, term⟩ := rest
      obtain ⟨acts, same⟩ := Meets.of_eq_ok (RawNode.does_onPersistReady position) reported
      have phase : Phase inp permitted host _ [] := .report raw idle (.inl durable) position acts
      rw [← same] at phase
      refine (phase.paced ?_).paces
      rintro _ _ before after - -
      obtain rfl := Option.some.inj (raw.symm.trans before)
      cases after
      exact ⟨⟨by rw [same], by rw [same], rfl⟩, (Acts.store_same acts).firstIndex⟩

/-- A compaction keeps the first index of the storage or moves it to the compacted one. -/
theorem paces_compact {compactIndex : Nat} {store : MemStorage} (tidy : host.Tidy)
    (raw : host.raw = some rn) (idle : host.outstanding = none)
    (may : mayCompact rn.raft.raftLog compactIndex = true)
    (compacted : rn.raft.raftLog.store.compact compactIndex = .ok store) :
    Paces inp permitted (host.compactsTo (.compact compactIndex)) host
      { host with
        raw := some (withStore rn store)
        pending := host.pending ++ [{ number := rn.maxNumber, store }] } [] := by
  refine Paced.paces ⟨.compact raw idle may compacted, ?_, ?_⟩
  · rintro _ _ before after - -
    obtain rfl := Option.some.inj (raw.symm.trans before)
    cases after
    exact .inr ⟨rfl, rfl, rfl⟩
  · rintro _ _ before after - -
    obtain rfl := Option.some.inj (raw.symm.trans before)
    cases after
    have sound : rn.raft.raftLog.Sound := (tidy.idle rn raw idle).log
    obtain ⟨first, -⟩ := compacted_store sound.wf may compacted
    have first : (withStore rn store).raft.raftLog.store.firstIndex = _ := first
    rcases max_choice rn.raft.raftLog.store.firstIndex compactIndex with same | moved
    · exact .inl (first.trans same)
    · rw [first, moved]
      exact .inr ⟨raw, rfl⟩

/-- A move of a tidy machine runs through phases in their places. -/
theorem Moves.paces (tidy : host.Tidy) (current : host.Current) (moves : host.Moves op host' sent) :
    Paces op.inputs op.permits (host.compactsTo op) host host' sent := by
  cases moves with
  | stay => exact .refl
  | call calls raw idle acts =>
      refine ((Phase.call raw idle acts).paced ?_).paces
      rintro _ _ before after - -
      obtain rfl := Option.some.inj (raw.symm.trans before)
      cases after
      exact ⟨⟨rfl, rfl, rfl⟩, (Acts.store_same acts).firstIndex⟩
  | ready raw idle taken written =>
      exact ((Phase.ready raw idle taken written).paced fun _ _ _ _ _ after => by cases after).paces
  | flush pending =>
      refine ((Phase.flush pending).paced ?_).paces
      rintro _ _ before after - -
      cases before.symm.trans after
      exact ⟨⟨rfl, rfl, rfl⟩, rfl⟩
  | send range =>
      refine ((Phase.send range.1 range.2).paced ?_).paces
      rintro _ _ before after - -
      cases before.symm.trans after
      exact ⟨⟨rfl, rfl, rfl⟩, rfl⟩
  | advance raw outstanding written advanced =>
      exact paces_advance tidy current raw outstanding written advanced
  | advanceAppend raw outstanding written advanced =>
      exact paces_advanceAppend _ _ _ tidy current raw outstanding written advanced
  | advanceAppendAsync raw outstanding advanced =>
      refine ((Phase.stable raw outstanding advanced).paced fun _ _ _ _ idle => ?_).paces
      cases idle.symm.trans outstanding
  | onPersistReady raw idle durable reported => exact paces_onPersistReady raw idle durable.2 reported
  | saveCommit raw idle stored =>
      refine ((Phase.saveCommit raw idle stored).paced ?_).paces
      rintro _ _ before after - -
      obtain rfl := Option.some.inj (raw.symm.trans before)
      cases after
      exact ⟨⟨rfl, rfl, rfl⟩, by rw [stored]; rfl⟩
  | compact raw idle may compacted => exact paces_compact tidy raw idle may compacted
  | crash => exact (Phase.crash.paced fun _ _ _ after => by cases after).paces
  | restart stopped own started =>
      refine ((Phase.restart stopped own ⟨_, rfl⟩ started).paced ?_).paces
      intro _ _ before
      cases stopped.symm.trans before

end Operations

/-- Every operation of a tidy machine runs through phases in their places. -/
theorem step_paces (tidy : host.Tidy) (current : host.Current)
    (stepped : host.step op = .ok (host', sent)) :
    Paces op.inputs op.permits (host.compactsTo op) host host' sent :=
  (step_moves stepped).paces tidy current

omit [ConfChangeCodec] in
/-- A property that every phase in its place keeps holds after a sequence of such phases. -/
theorem Paces.keeps {inp : Input → Prop} {P : Host → Prop} {Q : Message → Prop}
    (keeps : ∀ host host' sent, P host → Paced inp permitted compacts host host' sent → P host' ∧
      ∀ m ∈ sent, Q m)
    (start : P host) (paces : Paces inp permitted compacts host host' sent) :
    P host' ∧ ∀ m ∈ sent, Q m := by
  induction paces with
  | refl => exact ⟨start, List.forall_mem_nil _⟩
  | step first _ ih =>
      obtain ⟨middle, sentFirst⟩ := keeps _ _ _ start first
      obtain ⟨final, sentRest⟩ := ih middle
      refine ⟨final, fun m inside => ?_⟩
      rcases List.mem_append.1 inside with early | late
      · exact sentFirst m early
      · exact sentRest m late

end Host

end RaftRs

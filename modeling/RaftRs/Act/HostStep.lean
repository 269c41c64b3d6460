import RaftRs.Act.Host

namespace RaftRs

open Library

namespace RaftLog

variable {log log' : RaftLog}

theorem quiet_stableEntries (index term : Nat) : Quiet (log.stableEntries index term) := by
  refine Quiet.bind ?_ fun _ => quiet_ok
  unfold Unstable.stableEntries
  repeat' split
  all_goals first | exact quiet_ok | exact quiet_error not_false

theorem quiet_stableSnap (index : Nat) : Quiet (log.stableSnap index) := by
  refine Quiet.bind ?_ fun _ => quiet_ok
  unfold Unstable.stableSnap
  repeat' split
  all_goals first | exact quiet_ok | exact quiet_error not_false

/-- The bounds of the delivered entries are computed quietly. -/
theorem quiet_search {α : Type} {sinceIdx : Nat} {search : Nat → Nat → Except Fatal α}
    (quiet : ∀ after high, Quiet (search after high)) :
    Quiet (do
      let after ← checkedAdd sinceIdx 1
      let bound ← log.appliedIndexUpperBound
      let high ← checkedAdd bound 1
      search after high) := by
  refine (quiet_checkedAdd ..).bind fun after => Quiet.bind ?_
    fun bound => (quiet_checkedAdd ..).bind fun high => ?_
  · exact (quiet_checkedAdd ..).bind fun _ => quiet_ok
  · exact quiet after high

theorem quiet_nextEntriesSince (sinceIdx : Nat) (maxSize : Option Nat) :
    Quiet (log.nextEntriesSince sinceIdx maxSize) := by
  refine quiet_search fun after high => ?_
  split
  · refine (log.quiet_slice ..).bind fun result => ?_
    split
    · exact quiet_ok
    · exact quiet_error not_false
  · exact quiet_ok

end RaftLog

namespace RawNode

variable {rn : RawNode}

theorem quiet_commitReady (rd : Ready) : Quiet (rn.commitReady rd) := by
  unfold commitReady
  simp only
  split
  · exact quiet_error not_false
  split
  · exact quiet_error not_false
  · refine Quiet.bind ?_ fun log => Quiet.bind ?_ fun _ => quiet_ok
    · split
      · exact RaftLog.quiet_stableSnap _
      · exact quiet_ok
    · split
      · exact RaftLog.quiet_stableEntries ..
      · exact quiet_ok

theorem quiet_genLightReady : Quiet rn.genLightReady := by
  unfold genLightReady
  refine Quiet.bind (RaftLog.quiet_nextEntriesSince ..) fun entries => ?_
  simp only
  split
  · exact quiet_ok
  split
  · exact quiet_ok
  · exact quiet_error not_false

/-- A light Ready keeps the number of the last Ready and never takes back what was handed out. -/
theorem genLightReady_counts {rn' : RawNode} {light : LightReady}
    (done : rn.genLightReady = .ok (rn', light)) :
    rn'.maxNumber = rn.maxNumber ∧ rn.commitSinceIndex ≤ rn'.commitSinceIndex := by
  obtain ⟨entries, _, done⟩ := bind_eq_ok.1 done
  simp only at done
  split at done
  · obtain ⟨rfl, -⟩ := ok_pair_inj done
    exact ⟨rfl, le_rfl⟩
  split at done
  next later =>
    obtain ⟨rfl, -⟩ := ok_pair_inj done
    exact ⟨rfl, later.le⟩
  · cases done

/-- A written Ready has no part in what was handed out. -/
theorem commitReady_since {rn' : RawNode} {rd : Ready} (done : rn.commitReady rd = .ok rn') :
    rn'.commitSinceIndex = rn.commitSinceIndex := by
  unfold commitReady at done
  simp only at done
  split at done
  · cases done
  split at done
  · cases done
  obtain ⟨_, -, done⟩ := bind_eq_ok.1 done
  obtain ⟨_, -, done⟩ := bind_eq_ok.1 done
  obtain rfl := Except.ok.inj done
  rfl

/-- A pending snapshot is handed out when everything handed out before lies below it. -/
theorem readySnapshot_cases {rn' : RawNode} {snapshot : Option Snapshot}
    (done : rn.readySnapshot = .ok (rn', snapshot)) :
    (rn.raft.raftLog.unstable.snapshot = none ∧ rn' = rn ∧ snapshot = none) ∨
      ∃ s, rn.raft.raftLog.unstable.snapshot = some s ∧ rn.commitSinceIndex ≤ s.metadata.index ∧
        rn' = { rn with commitSinceIndex := s.metadata.index } ∧ snapshot = some s := by
  unfold readySnapshot at done
  split at done
  next none =>
    obtain ⟨rfl, rfl⟩ := ok_pair_inj done
    exact .inl ⟨none, rfl, rfl⟩
  next s pending =>
    simp only at done
    split at done
    · cases done
    next ahead =>
      obtain ⟨more, -, done⟩ := bind_eq_ok.1 done
      split at done
      · cases done
      · obtain ⟨rfl, rfl⟩ := ok_pair_inj done
        exact .inr ⟨s, pending, Nat.le_of_not_lt ahead, rfl, rfl⟩

theorem quiet_ready : Quiet rn.ready := by
  unfold ready
  refine Quiet.bind ?_ fun rn' => Quiet.bind ?_ fun x => Quiet.bind quiet_genLightReady fun y => quiet_ok
  · unfold dropRecords
    repeat' split
    all_goals first | exact quiet_ok | exact quiet_error not_false
  · unfold readySnapshot
    split
    · exact quiet_ok
    simp only
    split
    · exact quiet_error not_false
    refine Quiet.bind (RaftLog.quiet_search fun _ _ => quiet_ok) fun more => ?_
    split
    · exact quiet_error not_false
    · exact quiet_ok

/-- A report of persisted Readys runs through atomic changes. -/
theorem does_onPersistReady {number snapIndex index term : Nat}
    (position : persistedPosition (rn.records.takeWhile fun record => record.number ≤ number) =
      (snapIndex, index, term)) :
    Does (persistedInputs snapIndex index term) rn.raft.core (rn.onPersistReady number)
    (fun rn' => rn'.raft.core)
      fun rn' => rn' = { rn with
        raft := rn'.raft, records := rn.records.dropWhile fun record => record.number ≤ number } := by
  unfold onPersistReady
  simp only [position]
  have snap : Does (persistedInputs snapIndex index term) rn.raft.core
      (if snapIndex ≠ 0 then rn.raft.onPersistSnap snapIndex else pure rn.raft) Raft.core
        fun _ => True := by
    split
    next some => exact (Raft.does_onPersistSnap (by exact ⟨rfl, some⟩)).mono fun _ _ => trivial
    next => exact .pure .refl trivial
  refine .bind snap fun raft _ => ?_
  have entries : Does (persistedInputs snapIndex index term) raft.core
      (if index ≠ 0 then raft.onPersistEntries index term else pure raft) Raft.core fun _ => True := by
    split
    next some => exact (Raft.does_onPersistEntries (by exact ⟨rfl, rfl, some⟩)).mono fun _ _ => trivial
    next => exact .pure .refl trivial
  exact .bind entries fun raft' _ => .pure .refl rfl

end RawNode

namespace Host

variable {inp : Input → Prop} {permitted : Config → Prop} {host : Host}

/-- A quiet computation runs through the phases that its results run through. -/
theorem runs_read {α : Type} {run : Except Fatal α} {next : α → Except Fatal (Host × List Message)}
    (quiet : Quiet run) (continues : ∀ a, run = .ok a → Runs inp permitted host (next a)) :
    Runs inp permitted host (run >>= next) := by
  cases run with
  | ok a => exact continues a rfl
  | error e => exact fun bad => quiet bad.1

/-- A phase that sends nothing may come before a computation. -/
theorem Runs.after {host' : Host} {run : Except Fatal (Host × List Message)}
    (phase : Phase inp permitted host host' []) (rest : Runs inp permitted host' run) :
    Runs inp permitted host run := by
  cases run with
  | ok x => exact Phases.step phase rest
  | error e =>
      intro ⟨fault, unexplained⟩
      refine rest ⟨fault, ?_⟩
      rintro ⟨host'', sent, rn, inp', c, phases, raw, same⟩
      exact unexplained ⟨host'', [] ++ sent, rn, inp', c, .step phase phases, raw, same⟩

theorem runs_ready : Runs inp permitted host host.ready := by
  unfold ready
  split
  next rn raw idle =>
    refine runs_read RawNode.quiet_ready fun ⟨rn', rd⟩ done => ?_
    refine runs_read ?_ fun store written => ?_
    · unfold writeReady
      refine Quiet.bind ?_ fun store => Quiet.bind ?_ fun _ => quiet_ok
      · split
        · exact quiet_ok
        split
        · exact quiet_ok
        · exact quiet_error not_false
      · unfold MemStorage.append
        repeat' split
        all_goals first | exact quiet_ok | exact quiet_error not_false
    · exact (Phase.ready raw idle done written).phases
  next => exact .stay

theorem runs_flush : Runs inp permitted host (.ok (host.flush, [])) := by
  unfold flush
  split
  · exact .stay
  next write rest pending => exact (Phase.flush pending).phases

theorem runs_send (number : Nat) : Runs inp permitted host (.ok (host.send number)) := by
  unfold send
  split
  next range => exact (Phase.send range.1 range.2).phases
  next => exact .stay

theorem runs_saveCommit : Runs inp permitted host (.ok (host.saveCommit, [])) := by
  unfold saveCommit
  split
  next rn raw idle => exact (Phase.saveCommit raw idle rfl).phases
  next => exact .stay

theorem runs_advanceAppendAsync : Runs inp permitted host host.advanceAppendAsync := by
  unfold advanceAppendAsync
  split
  next rn rd raw outstanding =>
    refine runs_read (RawNode.quiet_commitReady rd) fun rn' done => ?_
    exact (Phase.stable raw outstanding done).phases
  next => exact .stay

/-- A reported number runs through one phase. -/
theorem runs_report {rn : RawNode} {number : Nat} {next : RawNode → Except Fatal (Host × List Message)}
    (raw : host.raw = some rn) (idle : host.outstanding = none)
    (durable : number ≤ host.durable.number ∨ host.pending = [])
    (continues : ∀ rn', rn'.maxNumber = rn.maxNumber → rn'.commitSinceIndex = rn.commitSinceIndex →
      Runs inp permitted
      { host with raw := some rn', reported := max host.reported number } (next rn')) :
    Runs inp permitted host (rn.onPersistReady number >>= next) := by
  cases position : RawNode.persistedPosition
    (rn.records.takeWhile fun record => record.number ≤ number) with
  | mk snapIndex rest =>
      obtain ⟨index, term⟩ := rest
      have does := RawNode.does_onPersistReady position
      cases result : rn.onPersistReady number with
      | error e =>
          rw [result] at does
          intro ⟨fault, unexplained⟩
          refine does ⟨fault, ?_⟩
          rintro ⟨c, acts, faults⟩
          exact unexplained ⟨host, [], rn, _, c, .refl, raw,
            fun input given => .inr (persistedInputs_internal input given), acts, faults⟩
      | ok rn' =>
          rw [result] at does
          obtain ⟨acts, same⟩ := does
          have rest := continues rn' (by rw [same]) (by rw [same])
          rw [same] at rest
          rw [ok_bind, same]
          exact .after (Phase.report raw idle durable position acts) rest

theorem runs_onPersistReady (number : Nat) : Runs inp permitted host (host.onPersistReady number) := by
  unfold onPersistReady
  split
  next rn raw idle =>
    split
    next durable => exact runs_report raw idle (.inl durable.2) fun _ _ _ => .stay
    next => exact .stay
  next => exact .stay

theorem runs_compact (compactIndex : Nat) : Runs inp permitted host (host.compact compactIndex) := by
  unfold compact
  split
  next rn raw idle =>
    split
    next may =>
      refine runs_read ?_ fun store done => (Phase.compact raw idle may done).phases
      unfold MemStorage.compact
      repeat' split
      all_goals first | exact quiet_ok | exact quiet_error not_false
    next => exact .stay
  next => exact .stay

theorem runs_advanceAppend {rn : RawNode} {rd : Ready}
    {next : RawNode × LightReady → Except Fatal (Host × List Message)} (raw : host.raw = some rn)
    (outstanding : host.outstanding = some rd) (written : host.pending = [])
    (continues : ∀ rn₁ rn' light, rn.commitSinceIndex ≤ rn'.commitSinceIndex → Phase inp permitted
      { host with raw := some rn₁, outstanding := none, reported := max host.reported rn'.maxNumber }
      { host with
        raw := some rn', outstanding := none, reported := max host.reported rn'.maxNumber
        delivered := host.delivered ++ deliveries rn' light.committedEntries } light.messages →
      Runs inp permitted
        { host with raw := some rn₁, outstanding := none, reported := max host.reported rn'.maxNumber }
        (next (rn', light))) :
    Runs inp permitted host (rn.advanceAppend rd >>= next) := by
  unfold RawNode.advanceAppend
  simp only [bind_assoc]
  refine runs_read (RawNode.quiet_commitReady rd) fun rn₁ committed => ?_
  refine .after (Phase.stable raw outstanding committed) ?_
  refine runs_report rfl rfl (.inr written) fun rn₂ number since => ?_
  refine runs_read RawNode.quiet_genLightReady fun ⟨rn₃, light⟩ done => ?_
  have number' : rn₃.maxNumber = rn₁.maxNumber := (RawNode.genLightReady_counts done).1.trans number
  have since' : rn.commitSinceIndex ≤ rn₃.commitSinceIndex := by
    rw [← RawNode.commitReady_since committed, ← since]
    exact (RawNode.genLightReady_counts done).2
  simp only
  split
  · exact fun bad => bad.1
  next withheld =>
    have withheld : rn₃.raft.state = .leader ∨ light.messages = [] := by
      by_contra both
      push Not at both
      exact withheld both
    -- The previous hard state has followed the commit index when the last assertion is reached.
    have finish : ∀ commitIndex, rn₃.raft.hardState = { rn₃.prevHs with
        commit := rn₃.raft.hardState.commit } →
        Runs inp permitted { host with
          raw := some rn₂, outstanding := none, reported := max host.reported rn₁.maxNumber }
          (next ({ rn₃ with prevHs := rn₃.raft.hardState }, { light with commitIndex })) := by
      intro commitIndex same
      have current : rn₃.raft.term = rn₃.prevHs.term ∧ rn₃.raft.vote = rn₃.prevHs.vote :=
        ⟨congrArg HardState.term same, congrArg HardState.vote same⟩
      rw [← number']
      have phase : Phase inp permitted
          { host with
            raw := some rn₂, outstanding := none, reported := max host.reported rn₃.maxNumber } _
          light.messages := Phase.light rfl rfl done withheld current
      exact continues rn₂ { rn₃ with prevHs := rn₃.raft.hardState } { light with
        commitIndex } since' phase
    split
    next =>
      simp only [pure_bind]
      split
      · exact fun bad => bad.1
      next same =>
        push Not at same
        rw [← same]
        exact finish _ same
    next =>
      split
      next equal =>
        simp only [pure_bind]
        split
        · exact fun bad => bad.1
        next same =>
          push Not at same
          have goes := finish none (by rw [equal, same])
          rw [same] at goes
          exact goes
      next => exact fun bad => bad.1

/-- Applying entries does not move the bound of what may be applied. -/
theorem applyBound_commitApply {r r' : Raft} {applied : Nat} (done : r.commitApply applied = .ok r') :
    r'.raftLog.applyBound = r.raftLog.applyBound := by
  unfold Raft.commitApply Raft.commitApplyInternal at done
  simp only [Bool.false_eq_true, if_false] at done
  obtain ⟨log, moved, left⟩ := bind_eq_ok.1 done
  have kept : log.applyBound = r.raftLog.applyBound := by
    unfold RaftLog.appliedTo at moved
    split at moved
    · obtain rfl := Except.ok.inj moved
      rfl
    split at moved
    · cases moved
    · obtain rfl := Except.ok.inj moved
      rfl
  rw [← kept]
  unfold Raft.autoLeave at left
  split at left
  · obtain ⟨⟨r'', appended⟩, grown, same⟩ := bind_eq_ok.1 left
    cases appended with
    | false => cases same
    | true =>
        obtain rfl := Except.ok.inj same
        unfold Raft.appendEntry at grown
        split at grown
        · cases grown
        · obtain ⟨log', append, same⟩ := bind_eq_ok.1 grown
          obtain ⟨rfl, -⟩ := ok_pair_inj same
          unfold RaftLog.append at append
          split at append
          · obtain rfl := Except.ok.inj append
            rfl
          split at append
          · cases append
          split at append
          · cases append
          · obtain ⟨unstable, _, same⟩ := bind_eq_ok.1 append
            obtain rfl := Except.ok.inj same
            rfl
  · obtain rfl := Except.ok.inj left
    rfl

theorem runs_advanceWith_advanceAppend :
    Runs inp permitted host (host.advanceWith fun rn rd => rn.advanceAppend rd) := by
  unfold advanceWith
  split
  next rn rd raw outstanding written =>
    refine runs_advanceAppend raw outstanding written fun rn₁ rn' light _ phase => ?_
    exact phase.phases
  next => exact .stay

theorem runs_advanceWith_advance :
    Runs inp permitted host (host.advanceWith fun rn rd => rn.advance rd) := by
  unfold advanceWith
  split
  next rn rd raw outstanding written =>
    unfold RawNode.advance RawNode.advanceApplyTo
    simp only [bind_assoc]
    refine runs_advanceAppend raw outstanding written fun rn₁ rn' light since phase => ?_
    have does : Does (rn'.inputs inp) rn'.raft.core (rn'.raft.commitApply rn.commitSinceIndex)
        Raft.core _ :=
      Raft.does_commitApply (.inr since)
    cases applied : rn'.raft.commitApply rn.commitSinceIndex with
    | error e =>
        intro bad
        rw [applied] at does
        refine does ⟨bad.1, ?_⟩
        rintro ⟨c, acts, faults⟩
        exact bad.2 ⟨_, _, rn', rn'.inputs inp, c, phase.phases, rfl, RawNode.inputs_cases, acts, faults⟩
    | ok raft =>
        rw [applied] at does
        have bound : deliveries { rn' with
            raft } light.committedEntries = deliveries rn' light.committedEntries := by
          unfold deliveries
          rw [applyBound_commitApply applied]
        have call : Phase inp permitted { host with
            raw := some rn', outstanding := none, reported := max host.reported rn'.maxNumber
            delivered := host.delivered ++ deliveries rn' light.committedEntries } _ [] :=
              Phase.call rfl rfl does.1
        have both := Phases.step phase call.phases
        rw [List.append_nil] at both
        simp only [ok_bind, pure_bind]
        show Phases inp permitted _ { host with
          raw := some { rn' with raft }, outstanding := none, reported := max host.reported rn'.maxNumber
          delivered := host.delivered ++ deliveries { rn' with raft } light.committedEntries }
            light.messages
        rw [bound]
        exact both
  next => exact .stay

end Host

theorem Raft.quiet_autoLeave (r : Raft) (oldApplied applied : Nat) :
    Quiet (r.autoLeave oldApplied applied) := by
  unfold Raft.autoLeave
  split
  · refine Quiet.bind ?_ fun result => ?_
    · unfold Raft.appendEntry
      split
      · exact quiet_ok
      · exact (r.raftLog.quiet_append _).bind fun _ => quiet_ok
    · split
      · exact quiet_ok
      · exact quiet_error not_false
  · exact quiet_ok

theorem Raft.quiet_new (config : Config) (store : MemStorage) (rng : Nat → Nat) :
    Quiet (Raft.new config store rng) := by
  unfold Raft.new
  split
  · exact quiet_ok
  simp only
  split
  · exact quiet_ok
  next prs _ =>
    have role : { Raft.blank config store rng with prs }.state ≠ .leader := nofun
    rw [Raft.postConfChange_follower role]
    simp only [ok_bind]
    split
    · exact quiet_error not_false
    refine Quiet.bind ?_ fun r => Quiet.bind ?_ fun _ => quiet_ok
    · split
      · unfold Raft.loadState
        split
        · exact quiet_error not_false
        · exact quiet_ok
      · exact quiet_ok
    · split
      · exact Raft.quiet_autoLeave ..
      · exact quiet_ok

namespace Host

variable {inp : Input → Prop} {permitted : Config → Prop} {host : Host}

theorem runs_restart {config : Config} {rng : Nat → Nat} (allowed : permitted config) :
    Runs inp permitted host (host.restart config rng) := by
  unfold restart
  split
  next stopped =>
    refine runs_read ?_ fun result done => ?_
    · unfold RawNode.new
      split
      · exact quiet_error not_false
      · refine (Raft.quiet_new ..).bind fun result => ?_
        split <;> exact quiet_ok
    · cases result with
      | error error => exact .stay
      | ok rn => exact (Phase.restart (by simpa using stopped.1) stopped.2 allowed done).phases
  next => exact .stay

end Host

/-- The configuration that an operation restarts its machine with. -/
def HostOp.permits (op : HostOp) (config : Config) : Prop := ∃ rng, op = .restart config rng

/-- The operations that are one call of the node. -/
def HostOp.Calls : HostOp → Prop
  | .ready | .flush | .send _ | .advance | .advanceAppend | .advanceAppendAsync | .onPersistReady
      _ => False
  | .saveCommit | .compact _ | .crash | .restart _ _ => False
  | _ => True

theorem HostOp.inputs_of_not_calls {op : HostOp} (other : ¬ op.Calls) (input : Input) :
    ¬ op.inputs input := by
  cases op with
  | ready | flush | send | advance | advanceAppend | advanceAppendAsync | onPersistReady
  | saveCommit | compact
  | crash | restart => exact not_false
  | _ => exact absurd trivial other

/-- A call runs through atomic changes of its node. -/
theorem Host.step_call [ConfChangeCodec] {op : HostOp} (calls : op.Calls) :
    ∃ action : RawNode → Except Fatal RawNode, (∀ host : Host, host.step op = host.call action) ∧
      ∀ rn, Does (rn.inputs op.inputs) rn.raft.core (action rn) (fun rn' => rn'.raft.core) fun rn' =>
        rn' = { rn with raft := rn'.raft } := by
  cases op with
  | tick =>
      exact ⟨_, fun _ => rfl, fun _ => RawNode.does_dropped (RawNode.does_raft (Raft.does_tick trivial))⟩
  | campaign =>
      exact ⟨_, fun _ => rfl, fun _ => RawNode.does_dropped
        (RawNode.does_stepRaft (.own rfl rfl (fun _ => trivial) fun _ => .inr trivial))⟩
  | propose context data =>
      exact ⟨_, fun _ => rfl, fun _ => RawNode.does_dropped
        (RawNode.does_stepRaft (.plain rfl nofun fun _ => ⟨rfl, rfl⟩))⟩
  | proposeConfChange context cc =>
      exact ⟨_, fun _ => rfl, fun _ => RawNode.does_dropped
        (RawNode.does_stepRaft (.plain rfl nofun fun _ => ⟨rfl, rfl⟩))⟩
  | readIndex rctx =>
      exact ⟨_, fun _ => rfl, fun _ => RawNode.does_dropped
        (RawNode.does_stepRaft (.plain rfl nofun fun _ => rfl))⟩
  | transferLeader transferee =>
      exact ⟨_, fun _ => rfl, fun _ => RawNode.does_dropped
        (RawNode.does_stepRaft (.plain rfl nofun fun _ => rfl))⟩
  | ping => exact ⟨_, fun _ => rfl, fun _ => RawNode.does_plain Raft.does_ping⟩
  | reportUnreachable peer =>
      exact ⟨_, fun _ => rfl,
        fun _ => RawNode.does_dropped (RawNode.does_stepRaft (.plain rfl nofun nofun))⟩
  | reportSnapshot peer failure =>
      exact ⟨_, fun _ => rfl,
        fun _ => RawNode.does_dropped (RawNode.does_stepRaft (.plain rfl nofun nofun))⟩
  | requestSnapshot =>
      exact ⟨_, fun _ => rfl,
        fun _ => RawNode.does_dropped (RawNode.does_raft (Raft.does_requestSnapshot trivial))⟩
  | applyConfChange cc =>
      exact ⟨_, fun _ => rfl,
        fun _ => RawNode.does_dropped (RawNode.does_raft (Raft.does_applyConfChange rfl rfl))⟩
  | onEntriesFetched context => exact ⟨_, fun _ => rfl, fun _ => RawNode.does_onEntriesFetched context⟩
  | deliver m =>
      refine ⟨_, fun _ => rfl, fun rn => RawNode.does_dropped (RawNode.does_step fun foreign => ?_)⟩
      exact {
        message := fun _ => rfl
        untermed := fun own => by simp [foreign] at own
        elects := fun elects => elects
        hup := fun kind => by simp [kind, isLocalMsg] at foreign
        started := fun _ role => ⟨rfl, role⟩
        leader := fun _ _ term role known => ⟨term, role, known⟩ }
  | setPriority priority =>
      refine ⟨_, fun _ => rfl, fun rn => .pure ?_ rfl⟩
      have set : rn.inputs (HostOp.setPriority priority).inputs (.priority priority) := rfl
      exact (Act.prioritise set).acts
  | setCheckQuorum checkQuorum => exact ⟨_, fun _ => rfl, fun _ => .pure .refl rfl⟩
  | setSkipBcastCommit skip => exact ⟨_, fun _ => rfl, fun _ => .pure .refl rfl⟩
  | setBatchAppend batchAppend =>
      refine ⟨_, fun _ => rfl, fun rn => .pure ?_ rfl⟩
      have set : rn.inputs (HostOp.setBatchAppend batchAppend).inputs (.batching batchAppend) := rfl
      exact (Act.batching set).acts
  | setMaxCommittedSizePerReady size => exact ⟨_, fun _ => rfl, fun _ => .pure .refl rfl⟩
  | setMaxApplyUnpersistedLogLimit limit =>
      refine ⟨_, fun _ => rfl, fun rn => .pure ?_ rfl⟩
      have set : rn.inputs (HostOp.setMaxApplyUnpersistedLogLimit limit).inputs (.limit limit) := rfl
      exact (Act.limit set).acts
  | adjustMaxInflightMsgs target cap =>
      exact ⟨_, fun _ => rfl, fun _ => RawNode.does_plain (Raft.does_adjustMaxInflightMsgs target cap)⟩
  | triggerSnapUnavailable => exact ⟨_, fun _ => rfl, fun _ => .pure Act.trigger.acts rfl⟩
  | triggerLogUnavailable unavailable => exact ⟨_, fun _ => rfl, fun _ => .pure Act.trigger.acts rfl⟩
  | advanceApplyTo applied =>
      exact ⟨_, fun _ => rfl, fun _ => RawNode.does_plain (Raft.does_commitApply (.inl rfl))⟩
  | _ => exact calls.elim

theorem Host.runs_step [ConfChangeCodec] (host : Host) (op : HostOp) :
    Host.Runs op.inputs op.permits host (host.step op) := by
  by_cases calls : op.Calls
  · obtain ⟨action, same, does⟩ := Host.step_call calls
    rw [same]
    exact runs_call does
  · cases op with
    | ready => exact runs_ready
    | flush => exact runs_flush
    | send number => exact runs_send number
    | advance => exact runs_advanceWith_advance
    | advanceAppend => exact runs_advanceWith_advanceAppend
    | advanceAppendAsync => exact runs_advanceAppendAsync
    | onPersistReady number => exact runs_onPersistReady number
    | saveCommit => exact runs_saveCommit
    | compact compactIndex => exact runs_compact compactIndex
    | crash => exact Phase.crash.phases
    | restart config rng => exact runs_restart ⟨rng, rfl⟩
    | _ => exact absurd trivial calls

theorem Host.call_ok {inp : Input → Prop} {host host' : Host} {sent : List Message}
    {action : RawNode → Except Fatal RawNode}
    (does : ∀ rn, Does (rn.inputs inp) rn.raft.core (action rn) (fun rn' => rn'.raft.core) fun rn' =>
      rn' = { rn with raft := rn'.raft })
    (done : host.call action = .ok (host', sent)) :
    (host' = host ∧ sent = []) ∨ ∃ rn raft, host.raw = some rn ∧ host.outstanding = none ∧
      Acts (rn.inputs inp) rn.raft.core raft.core ∧
        host' = { host with raw := some { rn with raft } } ∧ sent = [] := by
  unfold call at done
  split at done
  next rn raw idle =>
    obtain ⟨rn', acted, same⟩ := bind_eq_ok.1 done
    obtain ⟨rfl, rfl⟩ := ok_pair_inj same
    obtain ⟨acts, only⟩ := Meets.of_eq_ok (does rn) acted
    exact .inr ⟨rn, rn'.raft, raw, idle, acts, by rw [← only], rfl⟩
  next =>
    obtain ⟨rfl, rfl⟩ := ok_pair_inj done
    exact .inl ⟨rfl, rfl⟩

namespace Host

/-- What a successful operation does: a possible one moves the machine, an impossible one changes
nothing. -/
inductive Moves (host : Host) : HostOp → Host → List Message → Prop
  | stay {op : HostOp} : Moves host op host []
  | call {op : HostOp} {rn : RawNode} {raft : Raft} (calls : op.Calls) (raw : host.raw = some rn)
      (idle : host.outstanding = none) (acts : Acts (rn.inputs op.inputs) rn.raft.core raft.core) :
      Moves host op { host with raw := some { rn with raft } } []
  | ready {rn rn' : RawNode} {rd : Ready} {store : MemStorage} (raw : host.raw = some rn)
      (idle : host.outstanding = none) (taken : rn.ready = .ok (rn', rd))
      (written : writeReady rn'.raft.raftLog.store rd = .ok store) :
      Moves host .ready
        { host with
          raw := some (withStore rn' store)
          pending := host.pending ++ [{ number := rd.number, store, msgs := rd.persistedMessages }]
          outstanding := some rd
          delivered :=
            host.delivered ++ (if rd.snapshot.isEmpty then [] else [Delivery.snapshot rd.snapshot]) ++
            deliveries rn' rd.committedEntries
          reads := host.reads ++ rd.readStates } rd.messages
  | flush {write : Write} {rest : List Write} (pending : host.pending = write :: rest) :
      Moves host .flush { host with
        past := host.past ++ [host.durable], durable := write, pending := rest } []
  | send {number : Nat} (range : host.sent ≤ number ∧ number ≤ host.durable.number) :
      Moves host (.send number) { host with sent := number }
        (((host.past ++ [host.durable]).filter fun write =>
          host.sent < write.number ∧ write.number ≤ number).flatMap Write.msgs)
  | advance {rn rn' : RawNode} {rd : Ready} {light : LightReady} (raw : host.raw = some rn)
      (outstanding : host.outstanding = some rd) (written : host.pending = [])
      (advanced : rn.advance rd = .ok (rn', light)) :
      Moves host .advance
        { host with
          raw := some rn', outstanding := none, reported := max host.reported rn'.maxNumber
          delivered := host.delivered ++ deliveries rn' light.committedEntries } light.messages
  | advanceAppend {rn rn' : RawNode} {rd : Ready} {light : LightReady} (raw : host.raw = some rn)
      (outstanding : host.outstanding = some rd) (written : host.pending = [])
      (advanced : rn.advanceAppend rd = .ok (rn', light)) :
      Moves host .advanceAppend
        { host with
          raw := some rn', outstanding := none, reported := max host.reported rn'.maxNumber
          delivered := host.delivered ++ deliveries rn' light.committedEntries } light.messages
  | advanceAppendAsync {rn rn' : RawNode} {rd : Ready} (raw : host.raw = some rn)
      (outstanding : host.outstanding = some rd) (advanced : rn.advanceAppendAsync rd = .ok rn') :
      Moves host .advanceAppendAsync { host with raw := some rn', outstanding := none } []
  | onPersistReady {rn rn' : RawNode} {number : Nat} (raw : host.raw = some rn)
      (idle : host.outstanding = none)
      (durable : host.reported ≤ number ∧ number ≤ host.durable.number)
      (reported : rn.onPersistReady number = .ok rn') :
      Moves host (.onPersistReady number)
        { host with raw := some rn', reported := max host.reported number } []
  | saveCommit {rn : RawNode} {store : MemStorage} (raw : host.raw = some rn)
      (idle : host.outstanding = none) (stored : store = rn.raft.raftLog.store.setHardstate
        { rn.raft.raftLog.store.raftState.hardState with commit := rn.prevHs.commit }) :
      Moves host .saveCommit
        { host with
          raw := some (withStore rn store)
          pending := host.pending ++ [{ number := rn.maxNumber, store }] } []
  | compact {rn : RawNode} {compactIndex : Nat} {store : MemStorage} (raw : host.raw = some rn)
      (idle : host.outstanding = none) (may : mayCompact rn.raft.raftLog compactIndex = true)
      (compacted : rn.raft.raftLog.store.compact compactIndex = .ok store) :
      Moves host (.compact compactIndex)
        { host with
          raw := some (withStore rn store)
          pending := host.pending ++ [{ number := rn.maxNumber, store }] } []
  | crash : Moves host .crash host.crash []
  | restart {config : Config} {rng : Nat → Nat} {rn : RawNode} (stopped : host.raw = none)
      (own : config.id = host.id) (started : RawNode.new config host.durable.store rng = .ok (.ok rn)) :
      Moves host (.restart config rng) { host with raw := some rn } []

variable {host host' : Host} {op : HostOp} {sent : List Message}

theorem moves_of_same
    (same : (.ok (host, []) : Except Fatal (Host × List Message)) = .ok (host', sent)) :
    host.Moves op host' sent := by
  obtain ⟨rfl, rfl⟩ := ok_pair_inj same
  exact .stay

theorem moves_ready (done : host.ready = .ok (host', sent)) : host.Moves .ready host' sent := by
  unfold Host.ready at done
  split at done
  next rn raw idle =>
    obtain ⟨⟨rn', rd⟩, taken, done⟩ := bind_eq_ok.1 done
    obtain ⟨store, written, done⟩ := bind_eq_ok.1 done
    obtain ⟨rfl, rfl⟩ := ok_pair_inj done
    exact .ready raw idle taken written
  next => exact moves_of_same done

theorem moves_flush : host.Moves .flush host.flush [] := by
  unfold Host.flush
  split
  · exact .stay
  next write rest pending => exact .flush pending

theorem moves_send {number : Nat} (done : host.send number = (host', sent)) :
    host.Moves (.send number) host' sent := by
  unfold Host.send at done
  split at done
  next range =>
    obtain ⟨rfl, rfl⟩ := Prod.mk.inj done
    exact .send range
  next => exact moves_of_same (congrArg Except.ok done)

theorem moves_advanceWith {action : RawNode → Ready → Except Fatal (RawNode × LightReady)}
    (moves : ∀ rn rd rn' light, host.raw = some rn → host.outstanding = some rd → host.pending = [] →
      action rn rd = .ok (rn', light) → host.Moves op
        { host with
          raw := some rn', outstanding := none, reported := max host.reported rn'.maxNumber
          delivered := host.delivered ++ deliveries rn' light.committedEntries } light.messages)
    (done : host.advanceWith action = .ok (host', sent)) : host.Moves op host' sent := by
  unfold Host.advanceWith at done
  split at done
  next rn rd raw outstanding written =>
    obtain ⟨⟨rn', light⟩, advanced, done⟩ := bind_eq_ok.1 done
    obtain ⟨rfl, rfl⟩ := ok_pair_inj done
    exact moves rn rd rn' light raw outstanding written advanced
  next => exact moves_of_same done

theorem moves_advanceAppendAsync (done : host.advanceAppendAsync = .ok (host', sent)) :
    host.Moves .advanceAppendAsync host' sent := by
  unfold Host.advanceAppendAsync at done
  split at done
  next rn rd raw outstanding =>
    obtain ⟨rn', advanced, done⟩ := bind_eq_ok.1 done
    obtain ⟨rfl, rfl⟩ := ok_pair_inj done
    exact .advanceAppendAsync raw outstanding advanced
  next => exact moves_of_same done

theorem moves_onPersistReady {number : Nat} (done : host.onPersistReady number = .ok (host', sent)) :
    host.Moves (.onPersistReady number) host' sent := by
  unfold Host.onPersistReady at done
  split at done
  next rn raw idle =>
    split at done
    next durable =>
      obtain ⟨rn', reported, done⟩ := bind_eq_ok.1 done
      obtain ⟨rfl, rfl⟩ := ok_pair_inj done
      exact .onPersistReady raw idle durable reported
    next => exact moves_of_same done
  next => exact moves_of_same done

theorem moves_saveCommit : host.Moves .saveCommit host.saveCommit [] := by
  unfold Host.saveCommit
  split
  next rn raw idle => exact .saveCommit raw idle rfl
  next => exact .stay

theorem moves_compact {compactIndex : Nat} (done : host.compact compactIndex = .ok (host', sent)) :
    host.Moves (.compact compactIndex) host' sent := by
  unfold Host.compact at done
  split at done
  next rn raw idle =>
    split at done
    next may =>
      obtain ⟨store, compacted, done⟩ := bind_eq_ok.1 done
      obtain ⟨rfl, rfl⟩ := ok_pair_inj done
      exact .compact raw idle may compacted
    next => exact moves_of_same done
  next => exact moves_of_same done

theorem moves_restart {config : Config} {rng : Nat → Nat}
    (done : host.restart config rng = .ok (host', sent)) :
    host.Moves (.restart config rng) host' sent := by
  unfold Host.restart at done
  split at done
  next stopped =>
    obtain ⟨result, started, done⟩ := bind_eq_ok.1 done
    cases result with
    | error error => exact moves_of_same done
    | ok rn =>
        obtain ⟨rfl, rfl⟩ := ok_pair_inj done
        exact .restart (by simpa using stopped.1) stopped.2 started
  next => exact moves_of_same done

theorem moves_call [ConfChangeCodec] (calls : op.Calls) (stepped : host.step op = .ok (host', sent)) :
    host.Moves op host' sent := by
  obtain ⟨action, same, does⟩ := Host.step_call calls
  rw [same] at stepped
  rcases Host.call_ok does stepped with ⟨rfl, rfl⟩ | ⟨rn, raft, raw, idle, acts, rfl, rfl⟩
  · exact .stay
  · exact .call calls raw idle acts

/-- Every successful operation moves its machine. -/
theorem step_moves [ConfChangeCodec] (stepped : host.step op = .ok (host', sent)) :
    host.Moves op host' sent := by
  cases op with
  | ready => exact moves_ready stepped
  | flush =>
      obtain ⟨rfl, rfl⟩ := ok_pair_inj stepped
      exact moves_flush
  | send number => exact moves_send (Except.ok.inj stepped)
  | advance => exact moves_advanceWith (fun _ _ _ _ => .advance) stepped
  | advanceAppend => exact moves_advanceWith (fun _ _ _ _ => .advanceAppend) stepped
  | advanceAppendAsync => exact moves_advanceAppendAsync stepped
  | onPersistReady number => exact moves_onPersistReady stepped
  | saveCommit =>
      obtain ⟨rfl, rfl⟩ := ok_pair_inj stepped
      exact moves_saveCommit
  | compact compactIndex => exact moves_compact stepped
  | crash =>
      obtain ⟨rfl, rfl⟩ := ok_pair_inj stepped
      exact .crash
  | restart config rng => exact moves_restart stepped
  | _ => exact moves_call trivial stepped

end Host

theorem Host.call_error {inp : Input → Prop} {host : Host} {e : Fatal}
    {action : RawNode → Except Fatal RawNode}
    (does : ∀ rn, Does (rn.inputs inp) rn.raft.core (action rn) (fun rn' => rn'.raft.core) fun rn' =>
      rn' = { rn with raft := rn'.raft })
    (traced : e.IsTraced) (failed : host.call action = .error e) :
    ∃ rn c, host.raw = some rn ∧ Acts (rn.inputs inp) rn.raft.core c ∧ Faults (rn.inputs inp) c e := by
  unfold call at failed
  split at failed
  next rn raw idle =>
    have run := does rn
    cases acted : action rn with
    | ok rn' =>
        rw [acted] at failed
        cases failed
    | error e' =>
        rw [acted] at failed run
        obtain rfl := Except.error.inj failed
        by_contra unexplained
        refine run ⟨traced, ?_⟩
        rintro ⟨c, acts, faults⟩
        exact unexplained ⟨rn, c, raw, acts, faults⟩
  next => cases failed

/-- A traced failure happens in a call, or the node fails after phases that hand nothing to it. -/
theorem Host.step_error [ConfChangeCodec] {host : Host} {op : HostOp} {e : Fatal} (traced : e.IsTraced)
    (failed : host.step op = .error e) :
    (∃ rn c, host.raw = some rn ∧ Acts (rn.inputs op.inputs) rn.raft.core c ∧
      Faults (rn.inputs op.inputs) c e) ∨
      (∀ input, ¬ op.inputs input) ∧ ∃ host' sent rn inp c, Phases op.inputs op.permits host host' sent ∧
        host'.raw = some rn ∧ (∀ input, inp input → input.Internal) ∧ Acts inp rn.raft.core c ∧
          Faults inp c e := by
  by_cases call : op.Calls
  · obtain ⟨action, same, does⟩ := Host.step_call call
    rw [same] at failed
    exact .inl (Host.call_error does traced failed)
  · have none := HostOp.inputs_of_not_calls call
    have runs := Host.runs_step host op
    rw [failed] at runs
    right
    by_contra unexplained
    refine runs ⟨traced, ?_⟩
    rintro ⟨host', sent, rn, inp, c, phases, raw, given, acts, faults⟩
    have internal : ∀ input, inp input → input.Internal := fun input held =>
      (given input held).resolve_left (none input)
    exact unexplained ⟨none, host', sent, rn, inp, c, phases, raw, internal, acts, faults⟩

end RaftRs

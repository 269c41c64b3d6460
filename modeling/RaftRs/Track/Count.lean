import RaftRs.Log.Limit
import RaftRs.Track.Drive
import Mathlib.Data.List.TakeWhile

namespace RaftRs

open Library

namespace RaftLog

variable {log log' : RaftLog} {low high : Nat}

/-- The last entry of a range. -/
theorem WF.getLast?_range (wf : log.WF) (first : log.firstIndex ≤ low) (less : low < high)
    (last : high ≤ log.lastIndex + 1) :
    ∃ entry, (log.range low high).getLast? = some entry ∧ entry.index = high - 1 := by
  obtain ⟨entry, present⟩ := wf.exists_entry (show log.firstIndex ≤ high - 1 by omega) (by omega)
  refine ⟨entry, ?_, wf.entryAt_index present⟩
  rw [List.getLast?_eq_getElem?, wf.length_range first last,
    wf.getElem?_range first last (by omega), ← present]
  congr 1
  omega

/-- The first entries of a range are a range. -/
theorem WF.take_range (wf : log.WF) (first : log.firstIndex ≤ low) (last : high ≤ log.lastIndex + 1)
    {n : Nat} (few : n ≤ high - low) : (log.range low high).take n = log.range low (low + n) := by
  rcases Nat.lt_or_ge low high with less | le
  · have length : (log.range low (low + n)).length = n := by
      rw [wf.length_range first (by omega)]
      omega
    rw [← range_append log (show low ≤ low + n by omega) (show low + n ≤ high by omega)]
    exact List.take_left' length
  · have none : n = 0 := by omega
    rw [none, List.take_zero, Nat.add_zero, range_self]

/-- The entries up to an index are dropped from a range. -/
theorem WF.dropWhile_range (wf : log.WF) (tail : Nat) :
    ((log.range low high).dropWhile fun ent => decide (ent.index ≤ tail)) =
      log.range (max low (tail + 1)) high := by
  have above : ∀ from', tail + 1 ≤ from' →
      ((log.range from' high).dropWhile fun ent => decide (ent.index ≤ tail)) =
        log.range from' high := by
    intro from' beyond
    refine List.dropWhile_eq_self_iff.2 fun filled => ?_
    have least := (wf.index_range (List.getElem_mem filled)).1
    simp only [decide_eq_true_eq]
    omega
  rcases Nat.lt_or_ge tail low with beyond | within
  · rw [max_eq_left (by omega), above low (by omega)]
  rw [max_eq_right (by omega)]
  rcases Nat.lt_or_ge (tail + 1) high with long | short
  · rw [← range_append log (show low ≤ tail + 1 by omega) long.le, List.dropWhile_append_of_pos]
    · exact above (tail + 1) le_rfl
    · intro entry inside
      have most := (wf.index_range inside).2
      simp only [decide_eq_true_eq]
      omega
  · rw [range_of_le short, List.dropWhile_eq_nil_iff]
    intro entry inside
    have most := (wf.index_range inside).2
    simp only [decide_eq_true_eq]
    omega

/-- The entries that are handed out are those of a range behind the last handed out one. -/
theorem WF.nextEntries_range (wf : log.WF) {since : Nat} {size : Option Nat} {ents : Option (List Entry)}
    (done : log.nextEntriesSince since size = .ok ents) :
    ∃ high, max (since + 1) log.firstIndex ≤ high ∧
      high ≤ max (max (since + 1) log.firstIndex) (log.committed + 1) ∧
      ents.getD [] = log.range (max (since + 1) log.firstIndex) high := by
  have committed := wf.high
  have upper : log.applyBound ≤ log.committed := min_le_left _ _
  have first : log.firstIndex ≤ max (since + 1) log.firstIndex := le_max_right _ _
  obtain ⟨fits, -⟩ := fits_of_ok done
  rw [fits.nextEntriesSince_eq wf] at done
  obtain rfl := Except.ok.inj done
  split
  next open' =>
    have begins := limitSize_start (log.range (max (since + 1) log.firstIndex) (log.applyBound + 1)) size
    have few := begins.length_le
    rw [wf.length_range first (by omega)] at few
    refine ⟨_, Nat.le_add_right _ _, ?_,
      (List.prefix_iff_eq_take.1 begins).trans (wf.take_range first (by omega) few)⟩
    omega
  next => exact ⟨_, le_rfl, le_max_left _ _, (range_self _ _).symm⟩

end RaftLog

theorem UncommittedState.maybeReduceUncommittedSize_eq {state : UncommittedState} {ents : List Entry}
    (limited : state.isNoLimit = false)
    (counted : dataSize (ents.dropWhile fun ent => decide (ent.index ≤ state.lastLogTailIndex)) ≤
      state.uncommittedSize) :
    state.maybeReduceUncommittedSize ents = ({ state with
      uncommittedSize := state.uncommittedSize -
        dataSize (ents.dropWhile fun ent => decide (ent.index ≤ state.lastLogTailIndex)) }, true) := by
  unfold maybeReduceUncommittedSize
  by_cases empty : ents = []
  · subst empty
    simp [dataSize]
  · rw [if_neg (by simp [limited, empty])]
    exact if_neg (Nat.not_lt.2 counted)

theorem UncommittedState.maybeReduceUncommittedSize_noLimit {state : UncommittedState}
    (ents : List Entry) (unlimited : state.isNoLimit = true) :
    state.maybeReduceUncommittedSize ents = (state, true) :=
  if_pos (by rw [unlimited]; rfl)

namespace RawNode

variable {rn rn' : RawNode} {op : HostOp} {largest : Nat}

/-- The last index that is not counted: the end of the log at the election or the last handed out
index. -/
def uncounted (rn : RawNode) : Nat := max rn.raft.uncommittedState.lastLogTailIndex rn.commitSinceIndex

/-- The uncommitted size is the size of the data behind the uncounted index. -/
structure Counts (largest : Nat) (rn : RawNode) : Prop where
  first : rn.raft.raftLog.firstIndex ≤ rn.uncounted + 1
  last : rn.uncounted ≤ rn.raft.raftLog.lastIndex
  size : rn.raft.uncommittedState.isNoLimit = false → rn.raft.uncommittedState.uncommittedSize =
    dataSize (rn.raft.raftLog.range (rn.uncounted + 1) (rn.raft.raftLog.lastIndex + 1))
  bound : rn.raft.uncommittedState.uncommittedSize ≤ max rn.raft.uncommittedState.maxUncommittedSize
    largest

/-- The uncounted index of a node with other marks. -/
theorem uncounted_congr
    (tail : rn'.raft.uncommittedState.lastLogTailIndex = rn.raft.uncommittedState.lastLogTailIndex)
    (since : rn'.commitSinceIndex = rn.commitSinceIndex) : rn'.uncounted = rn.uncounted := by
  unfold uncounted
  rw [tail, since]

/-- A log with the same counted entries is counted as before. -/
theorem Counts.congr (counts : rn.Counts largest) (uncounted : rn'.uncounted = rn.uncounted)
    (state : rn'.raft.uncommittedState = rn.raft.uncommittedState)
    (first : rn'.raft.raftLog.firstIndex ≤ rn.uncounted + 1)
    (last : rn'.raft.raftLog.lastIndex = rn.raft.raftLog.lastIndex)
    (entryAt : ∀ i, rn.uncounted < i → rn'.raft.raftLog.entryAt i = rn.raft.raftLog.entryAt i) :
    rn'.Counts largest := by
  refine ⟨uncounted ▸ first, ?_, ?_, ?_⟩
  · rw [uncounted, last]
    exact counts.last
  · rw [state, uncounted, last, RaftLog.range_congr fun i low _ => entryAt i low]
    exact counts.size
  · rw [state]
    exact counts.bound

/-- A leader that tends its peers counts the entries that it appends. -/
theorem Counts.tends (counts : rn.Counts largest) {proposal : Nat} (small : proposal ≤ largest)
    (sound : rn.raft.raftLog.Sound) (tends : Raft.Tends proposal rn.raft rn'.raft)
    (since : rn'.commitSinceIndex = rn.commitSinceIndex) : rn'.Counts largest := by
  have longer := tends.log sound
  have same := uncounted_congr tends.tail since
  have last := counts.last
  have grown := longer.last
  refine ⟨?_, ?_, fun limited => ?_, ?_⟩
  · rw [same, longer.first]
    exact counts.first
  · rw [same]
    exact last.trans grown
  · have limited : rn.raft.uncommittedState.isNoLimit = false := tends.isNoLimit.symm.trans limited
    have kept : rn'.raft.raftLog.range (rn.uncounted + 1) (rn.raft.raftLog.lastIndex + 1) =
        rn.raft.raftLog.range (rn.uncounted + 1) (rn.raft.raftLog.lastIndex + 1) :=
      RaftLog.range_congr fun i _ inside => longer.entryAt i (Nat.le_of_lt_succ inside)
    rw [tends.size sound limited, counts.size limited, same, ← kept, ← dataSize_append,
      RaftLog.range_append _ (by omega) (by omega)]
  · have bound := counts.bound
    have next := tends.bound
    rw [tends.limit]
    omega

theorem counts_elected (elected : rn.raft.Elected)
    (behind : rn.commitSinceIndex ≤ rn.raft.uncommittedState.lastLogTailIndex) : rn.Counts largest := by
  have tail : rn.uncounted = rn.raft.uncommittedState.lastLogTailIndex := max_eq_left behind
  exact ⟨tail ▸ elected.low, tail ▸ elected.high, tail ▸ elected.counted,
    elected.bound.trans (le_max_left _ _)⟩

/-- A light Ready hands out a range of the log and moves the last handed out index to its end. -/
theorem light_range (sound : rn.raft.raftLog.Sound) {light : LightReady}
    (done : rn.genLightReady = .ok (rn', light)) :
    ∃ high, high ≤ max (max (rn.commitSinceIndex + 1) rn.raft.raftLog.firstIndex)
    (rn.raft.raftLog.committed + 1) ∧
      light.committedEntries =
        rn.raft.raftLog.range (max (rn.commitSinceIndex + 1) rn.raft.raftLog.firstIndex) high ∧
      (high = max (rn.commitSinceIndex + 1) rn.raft.raftLog.firstIndex ∧
        rn'.commitSinceIndex = rn.commitSinceIndex ∨
        max (rn.commitSinceIndex + 1) rn.raft.raftLog.firstIndex < high ∧
          rn'.commitSinceIndex = high - 1) := by
  have lights := genLightReady_lights done
  obtain ⟨ents, read, handed⟩ := lights.entries
  obtain ⟨high, low, bounded, range⟩ := sound.wf.nextEntries_range read
  have since := lights.since
  have committed := sound.wf.high
  rw [range] at handed
  rw [handed] at since
  refine ⟨high, bounded, handed, ?_⟩
  rcases low.eq_or_lt with same | less
  · rw [← same, RaftLog.range_self] at since
    exact .inl ⟨same.symm, since⟩
  · obtain ⟨entry, final, index⟩ := sound.wf.getLast?_range (le_max_right _ _) less (by omega)
    rw [final] at since
    exact .inr ⟨less, since.trans index⟩

/-- Handed out entries leave the counted ones: the reduction takes off exactly their data and never
clamps. -/
theorem Counts.light (counts : rn.Counts largest) (sound : rn.raft.raftLog.Sound)
    (lead : rn.raft.state = .leader) {light : LightReady} (done : rn.genLightReady = .ok (rn', light)) :
    rn'.Counts largest ∧
      (rn.raft.uncommittedState.maybeReduceUncommittedSize light.committedEntries).2 = true := by
  obtain ⟨high, bounded, handed, since⟩ := light_range sound done
  have first := counts.first
  have last := counts.last
  have committed := sound.wf.high
  have state : rn'.raft.uncommittedState =
      (rn.raft.uncommittedState.maybeReduceUncommittedSize light.committedEntries).1 := by
    rw [genLightReady_raft done, Raft.reduceUncommittedSize, if_neg (by simp [lead])]
  have log := genLightReady_log done
  have base : rn.uncounted = max rn.raft.uncommittedState.lastLogTailIndex rn.commitSinceIndex := rfl
  -- The uncounted index moves to the end of the handed out entries, unless they lie before it.
  have moved (tail : rn'.raft.uncommittedState.lastLogTailIndex =
      rn.raft.uncommittedState.lastLogTailIndex) :
      rn'.uncounted + 1 = max (rn.uncounted + 1) high := by
    have next : rn'.uncounted = max rn.raft.uncommittedState.lastLogTailIndex rn'.commitSinceIndex := by
      rw [uncounted, tail]
    rcases since with ⟨same, since⟩ | ⟨less, since⟩ <;> omega
  cases limited : rn.raft.uncommittedState.isNoLimit with
  | true =>
      rw [UncommittedState.maybeReduceUncommittedSize_noLimit _ limited] at state ⊢
      have next := moved (by rw [state])
      refine ⟨⟨?_, ?_, ?_, ?_⟩, rfl⟩
      · rw [log]
        omega
      · rw [log]
        omega
      · rw [state, limited]
        nofun
      · rw [state]
        exact counts.bound
  | false =>
      have data : (light.committedEntries.dropWhile fun ent =>
          decide (ent.index ≤ rn.raft.uncommittedState.lastLogTailIndex)) =
            rn.raft.raftLog.range (rn.uncounted + 1) high := by
        rw [handed, sound.wf.dropWhile_range]
        congr 1
        omega
      have total : dataSize (rn.raft.raftLog.range (rn.uncounted + 1) high) +
          dataSize (rn.raft.raftLog.range (max (rn.uncounted + 1) high)
            (rn.raft.raftLog.lastIndex + 1)) =
            rn.raft.uncommittedState.uncommittedSize := by
        rw [counts.size limited, ← dataSize_append]
        rcases Nat.lt_or_ge (rn.uncounted + 1) high with less | le
        · rw [max_eq_right less.le, RaftLog.range_append _ less.le (by omega)]
        · rw [max_eq_left le, RaftLog.range_of_le le, List.nil_append]
      have reduced : rn.raft.uncommittedState.maybeReduceUncommittedSize light.committedEntries = _ :=
        UncommittedState.maybeReduceUncommittedSize_eq limited (by rw [data]; omega)
      rw [reduced] at state ⊢
      rw [data] at state
      have next := moved (by rw [state])
      refine ⟨⟨?_, ?_, fun _ => ?_, ?_⟩, rfl⟩
      · rw [log]
        omega
      · rw [log]
        omega
      · rw [state, log, next]
        show rn.raft.uncommittedState.uncommittedSize - _ = _
        omega
      · rw [state]
        exact (Nat.sub_le _ _).trans counts.bound

/-- A pending snapshot lies below the counted entries. -/
theorem Counts.snapshot (counts : rn.Counts largest) {s : Snapshot}
    (pending : rn.raft.raftLog.unstable.snapshot = some s)
    (ahead : rn.commitSinceIndex ≤ s.metadata.index) (raft : rn'.raft = rn.raft)
    (since : rn'.commitSinceIndex = s.metadata.index) : rn'.Counts largest := by
  have first := RaftLog.firstIndex_of_snapshot pending
  have below := counts.first
  have same : rn'.uncounted = rn.uncounted := by
    unfold uncounted at below ⊢
    rw [raft, since]
    omega
  refine counts.congr same (by rw [raft]) ?_ (by rw [raft]) fun i _ => by rw [raft]
  rw [raft]
  exact below

/-- A compaction of handed out entries keeps the counted ones. -/
theorem Counts.compact (counts : rn.Counts largest) (sound : rn.raft.raftLog.Sound) {compactIndex : Nat}
    {store : MemStorage} (may : Host.mayCompact rn.raft.raftLog compactIndex = true)
    (done : rn.raft.raftLog.store.compact compactIndex = .ok store)
    (spares : compactIndex ≤ rn.commitSinceIndex + 1) :
    (Host.withStore rn store).Counts largest := by
  simp only [Host.mayCompact, Bool.and_eq_true, decide_eq_true_eq] at may
  obtain ⟨⟨⟨-, committed⟩, stored⟩, settled⟩ := may
  obtain ⟨-, last, pending, plain, entryAt⟩ :=
    sound.wf.compact (by omega) stored (fun _ => settled.le) done rfl
  have below := counts.first
  have since : rn.commitSinceIndex ≤ rn.uncounted := le_max_right _ _
  have first : (Host.withStore rn store).raft.raftLog.firstIndex ≤ rn.uncounted + 1 := by
    cases snapshot : rn.raft.raftLog.unstable.snapshot with
    | none =>
        have moved : (Host.withStore rn store).raft.raftLog.firstIndex = _ := plain snapshot
        omega
    | some s => exact (pending s snapshot).trans_le below
  refine counts.congr rfl rfl first last fun i inside => entryAt i (first.trans inside)

theorem Rest.since_le (rest : rn.Rest op rn') : rn.commitSinceIndex ≤ rn'.commitSinceIndex := by
  cases rest with
  | keep raft log since => exact since.ge
  | snapshot sound pending ahead raft since => exact since ▸ ahead
  | light sound done =>
      obtain ⟨high, -, -, since⟩ := light_range sound done
      rcases since with ⟨-, since⟩ | ⟨less, since⟩ <;> omega
  | serve sound tracks forward since => exact since.ge
  | compact of sound may done same => rw [same]; rfl

/-- The last handed out index stays committed. -/
theorem Rest.behind (rest : rn.Rest op rn') (behind : rn.commitSinceIndex ≤ rn.raft.raftLog.committed) :
    rn'.commitSinceIndex ≤ rn'.raft.raftLog.committed := by
  cases rest with
  | keep raft log since =>
      rw [since, log.committed]
      exact behind
  | snapshot sound pending ahead raft since =>
      have low := sound.wf.low
      have first := RaftLog.firstIndex_of_snapshot pending
      rw [since, raft]
      omega
  | light sound done =>
      obtain ⟨high, bounded, -, since⟩ := light_range sound done
      rw [genLightReady_log done]
      rcases since with ⟨-, since⟩ | ⟨less, since⟩ <;> omega
  | serve sound tracks forward since =>
      rw [since]
      exact behind.trans forward.log.committed
  | compact of sound may done same =>
      rw [same]
      exact behind

/-- An operation that is no call keeps the count when it spares the entries that were not handed
out. -/
theorem Rest.counts (rest : rn.Rest op rn') (counts : rn.Counts largest) (lead : rn.raft.state = .leader)
    (spares : ∀ compactIndex, op = .compact compactIndex → compactIndex ≤ rn.commitSinceIndex + 1) :
    rn'.Counts largest := by
  cases rest with
  | keep raft log since =>
      have state : rn'.raft.uncommittedState = rn.raft.uncommittedState := by rw [raft]
      refine counts.congr (uncounted_congr (by rw [state]) since) state ?_ log.last
        fun i _ => log.entryAt i
      rw [log.first]
      exact counts.first
  | snapshot sound pending ahead raft since => exact counts.snapshot pending ahead raft since
  | light sound done => exact (counts.light sound lead done).1
  | serve sound tracks forward since => exact counts.tends (Nat.zero_le _) sound tracks.toTends since
  | @compact compactIndex store of sound may done same =>
      rw [same]
      exact counts.compact sound may done (spares compactIndex of)

/-- A sequence of such changes keeps the last handed out index committed. -/
theorem Rests.behind (rests : rn.Rests op rn')
    (behind : rn.commitSinceIndex ≤ rn.raft.raftLog.committed) :
    rn'.commitSinceIndex ≤ rn'.raft.raftLog.committed := by
  induction rests with
  | refl => exact behind
  | tail _ rest ih => exact rest.behind ih

theorem Rests.since_le (rests : rn.Rests op rn') : rn.commitSinceIndex ≤ rn'.commitSinceIndex := by
  induction rests with
  | refl => exact le_rfl
  | tail _ rest ih => exact ih.trans rest.since_le

/-- A sequence of such changes keeps the count. -/
theorem Rests.counts (rests : rn.Rests op rn') (counts : rn.Counts largest)
    (lead : rn.raft.state = .leader)
    (spares : ∀ compactIndex, op = .compact compactIndex → compactIndex ≤ rn.commitSinceIndex + 1) :
    rn'.Counts largest := by
  induction rests with
  | refl => exact counts
  | @tail middle last before rest ih =>
      have leads : middle.raft.state = .leader := (Rests.views before).state.trans lead
      refine rest.counts ih leads fun compactIndex of => ?_
      exact (spares compactIndex of).trans (Nat.succ_le_succ (Rests.since_le before))

end RawNode

namespace Host

variable [ConfChangeCodec] {start host host' : Host} {op : HostOp} {ops : List HostOp}
  {sent : List Message}
  {largest : Nat}

/-- The application starts its node with a committed applied index and compacts only what it was
handed. -/
def Sparing (host : Host) : HostOp → Prop
  | .compact compactIndex => ∀ rn, host.raw = some rn → compactIndex ≤ rn.commitSinceIndex + 1
  | .restart config rng => ∀ rn, RawNode.new config host.durable.store rng = .ok (.ok rn) →
      config.applied ≤ rn.raft.raftLog.committed
  | _ => True

/-- A machine whose node was handed committed entries only and counts the others as a leader. -/
structure Accounts (largest : Nat) (host : Host) : Prop where
  tidy : host.Tidy
  behind : ∀ rn, host.raw = some rn → rn.commitSinceIndex ≤ rn.raft.raftLog.committed
  counts : ∀ rn, host.raw = some rn → rn.raft.state = .leader → rn.Counts largest

/-- Every operation keeps the accounts. -/
theorem step_accounts (accounts : host.Accounts largest) (formed : op.Tidy)
    (small : op.proposalSize ≤ largest) (sparing : host.Sparing op)
    (stepped : host.step op = .ok (host', sent)) : host'.Accounts largest := by
  have node : ∀ rn', host'.raw = some rn' → rn'.commitSinceIndex ≤ rn'.raft.raftLog.committed ∧
      (rn'.raft.state = .leader → rn'.Counts largest) := by
    intro rn' running
    cases step_reaches accounts.tidy stepped running with
    | @call rn raw idle calls sound forward called =>
        have since : rn'.commitSinceIndex = rn.commitSinceIndex := by rw [called.1]
        have behind := accounts.behind rn raw
        refine ⟨since ▸ behind.trans forward.log.committed, fun lead => ?_⟩
        rcases called.2 sound lead with ⟨leader, tends, -⟩ | ⟨elected, whole, -⟩
        · exact (accounts.counts rn raw leader).tends small sound tends since
        · have high := sound.wf.high
          exact RawNode.counts_elected elected (by omega)
    | @rest rn raw uncalled rests =>
        refine ⟨rests.behind (accounts.behind rn raw), fun lead => ?_⟩
        have leader : rn.raft.state = .leader := rests.views.state.symm.trans lead
        refine rests.counts (accounts.counts rn raw leader) leader fun compactIndex of => ?_
        subst of
        exact sparing rn raw
    | start stopped of done starts =>
        subst of
        refine ⟨starts.since ▸ sparing rn' done, fun lead => ?_⟩
        have follows : rn'.raft.state = .follower := congrArg Core.state starts.core
        cases follows.symm.trans lead
  exact ⟨step_tidy accounts.tidy formed stepped, fun rn' running => (node rn' running).1,
    fun rn' running => (node rn' running).2⟩

/-- The uncommitted size of a leader with a limit is the size of the data behind its log at the
election and behind what was handed out; no reduction clamps it and it exceeds the limit by a single
proposal at most. -/
theorem uncommitted_accounting {rn : RawNode} (tidy : start.Tidy) (stopped : start.raw = none)
    (formed : ∀ op ∈ ops, op.Tidy) (sparing : Obeys Sparing start ops)
    (small : ∀ op ∈ ops, op.proposalSize ≤ largest) (done : start.run ops = .ok host)
    (raw : host.raw = some rn) (lead : rn.raft.state = .leader)
    (limited : rn.raft.uncommittedState.maxUncommittedSize ≠ noLimit) :
    rn.raft.uncommittedState.uncommittedSize =
      dataSize (rn.raft.raftLog.range
        (max rn.raft.uncommittedState.lastLogTailIndex rn.commitSinceIndex + 1)
          (rn.raft.raftLog.lastIndex + 1)) ∧
    rn.raft.uncommittedState.uncommittedSize ≤ max rn.raft.uncommittedState.maxUncommittedSize largest ∧
    (∀ rn' rd, host.outstanding = none → rn.ready = .ok (rn', rd) →
      (rn.raft.uncommittedState.maybeReduceUncommittedSize rd.committedEntries).2 = true) ∧
    ∀ rd rn₁ rn₂ rn₃ light, host.outstanding = some rd → rn.commitReady rd = .ok rn₁ →
      rn₁.onPersistReady rn₁.maxNumber = .ok rn₂ → rn₂.genLightReady = .ok (rn₃, light) →
      (rn₂.raft.uncommittedState.maybeReduceUncommittedSize light.committedEntries).2 = true := by
  have accounts : host.Accounts largest := by
    refine sparing.keeps (P := Accounts largest)
      (fun op inside _ _ _ accounts sparing stepped => ?_) ?_ done
    · exact step_accounts accounts (formed op inside) (small op inside) sparing stepped
    · refine ⟨tidy, fun rn raw => ?_, fun rn raw => ?_⟩ <;> cases stopped.symm.trans raw
  have counts := accounts.counts rn raw lead
  refine ⟨counts.size (by simpa [UncommittedState.isNoLimit] using limited), counts.bound, ?_, ?_⟩
  · intro rn' rd idle taken
    have sound : rn.raft.raftLog.Sound := (accounts.tidy.idle rn raw idle).log
    obtain ⟨rn₁, rn₂, chain, raft, lit, -⟩ := RawNode.ready_light .ready sound taken
    have lead₁ : rn₁.raft.state = .leader := (RawNode.Rests.views chain).state.trans lead
    have reduces :=
      ((RawNode.Rests.counts chain counts lead nofun).light (by rw [raft]; exact sound) lead₁ lit).2
    rw [raft] at reduces
    exact reduces
  · intro rd rn₁ rn₂ rn₃ light outstanding committed persisted lit
    obtain ⟨log, busy⟩ := accounts.tidy.busy rn rd raw outstanding
    obtain ⟨settled, sound₁⟩ : rn.Rest .ready rn₁ ∧ _ := RawNode.rest_commitReady busy committed
    obtain ⟨reported, sound₂⟩ : rn₁.Rest .ready rn₂ ∧ _ := RawNode.rest_onPersistReady sound₁ persisted
    have lead₁ : rn₁.raft.state = .leader := settled.views.state.trans lead
    have lead₂ : rn₂.raft.state = .leader := reported.views.state.trans lead₁
    exact ((reported.counts (settled.counts counts lead nofun) lead₁ nofun).light sound₂ lead₂ lit).2

omit [ConfChangeCodec] in
/-- A leader without peers counts the data of a proposal. -/
theorem uncommitted_accounting_one : let _ := ConfChangeCodec.sample
    ∃ ops host rn, (fresh 1 { voters := [1] }).run ops = .ok host ∧ host.raw = some rn ∧
      rn.raft.state = .leader ∧
      rn.raft.uncommittedState.maxUncommittedSize = 10 ∧ rn.raft.uncommittedState.uncommittedSize = 2 ∧
      rn.raft.uncommittedState.uncommittedSize =
        dataSize (rn.raft.raftLog.range
          (max rn.raft.uncommittedState.lastLogTailIndex rn.commitSinceIndex + 1)
          (rn.raft.raftLog.lastIndex + 1)) := by
  intro _
  let ops : List HostOp :=
    [.restart { id := 1, maxUncommittedSize := 10 } fun _ => 0, .campaign, .propose [] [7, 7]]
  have passed : (fresh 1 { voters := [1] }).ends ops
      (fun host => host.raw.any fun rn => rn.raft.state == .leader &&
      rn.raft.uncommittedState.maxUncommittedSize == 10 &&
        rn.raft.uncommittedState.uncommittedSize == 2) = true := by
    decide +kernel
  have formed : ∀ op ∈ ops, op.Tidy := by
    rw [List.forall_mem_cons, List.forall_mem_cons, List.forall_mem_singleton]
    exact ⟨nofun, nofun, nofun⟩
  have small : ∀ op ∈ ops, op.proposalSize ≤ 2 := by
    rw [List.forall_mem_cons, List.forall_mem_cons, List.forall_mem_singleton]
    exact ⟨Nat.zero_le 2, Nat.zero_le 2, le_rfl⟩
  have sparing : Obeys Sparing (fresh 1 { voters := [1] }) ops :=
    ⟨fun _ _ => Nat.zero_le _, fun _ _ _ => ⟨trivial, fun _ _ _ => ⟨trivial, fun _ _ _ => trivial⟩⟩⟩
  obtain ⟨host, done, tested⟩ := run_ends passed
  simp only [Bool.and_eq_true, beq_iff_eq, Option.any_eq_true] at tested
  obtain ⟨rn, running, ⟨lead, limit⟩, size⟩ := tested
  have accounting :=
    uncommitted_accounting (tidy_fresh 1 { voters := [1] }) rfl formed sparing small done running lead
    (by rw [limit]; decide)
  exact ⟨ops, host, rn, done, running, lead, limit, size, accounting.1⟩

end Host

end RaftRs

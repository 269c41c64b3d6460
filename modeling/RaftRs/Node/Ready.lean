import RaftRs.Act.HostStep

namespace RaftRs

open Library

namespace RawNode

/-- What a light Ready takes from its node. -/
structure Lights (rn rn' : RawNode) (light : LightReady) : Prop where
  core : rn'.raft.core = { rn.raft.core with msgs := [] }
  messages : light.messages = rn.raft.msgs
  rest : rn' = { rn with raft := rn'.raft, commitSinceIndex := rn'.commitSinceIndex }
  entries : ∃ ents, rn.raft.raftLog.nextEntriesSince rn.commitSinceIndex
    (some rn.raft.maxCommittedSizePerReady) =
    .ok ents ∧ light.committedEntries = ents.getD []
  since : rn'.commitSinceIndex = match light.committedEntries.getLast? with
    | none => rn.commitSinceIndex
    | some e => e.index

/-- The record of the positions that a Ready hands out. -/
def recordOf (number : Nat) (log : RaftLog) : ReadyRecord :=
  { number, lastEntry := log.unstable.entries.getLast?.map fun e => (e.index, e.term)
    snapshot := log.unstable.snapshot.map fun s => (s.metadata.index, s.metadata.term) }

/-- What a Ready takes from its node. -/
structure Readies (rn rn' : RawNode) (rd : Ready) : Prop where
  core : rn'.raft.core = { rn.raft.core with msgs := [], readStates := [] }
  number : rd.number = rn.maxNumber + 1
  maxNumber : rn'.maxNumber = rn.maxNumber + 1
  entries : rd.entries = rn.raft.raftLog.unstable.entries
  snapshot : rd.snapshot = rn.raft.raftLog.unstable.snapshot.getD {}
  hs : rd.hs = if rn.raft.hardState ≠ rn.prevHs then some rn.raft.hardState else none
  prevHs : rn'.prevHs = rn.prevHs
  messages : rd.messages = if rn.raft.state = .leader then rn.raft.msgs else []
  persistedMessages : rd.persistedMessages = if rn.raft.state = .leader then [] else rn.raft.msgs
  readStates : rd.readStates = rn.raft.readStates
  records : ∃ kept, rn'.records = kept ++ [recordOf (rn.maxNumber + 1) rn.raft.raftLog] ∧
    (kept = rn.records ∨
    kept = [] ∧ rn.raft.state = .leader ∧ ∀ record ∈ rn.records, record.lastEntry = none ∧
      record.snapshot = none)

/-- How a node starts from its storage. -/
structure Starts (config : Config) (store : MemStorage) (rn : RawNode) : Prop where
  core : rn.raft.core = { rn.raft.core with
    id := config.id, term := store.raftState.hardState.term, vote := store.raftState.hardState.vote
    state := .follower, msgs := [], votes := fun _ => none, readOnly :=
  ReadOnly.new config.readOnlyOption
    readStates := [], pendingRequestSnapshot := invalidIndex, batchAppend := config.batchAppend
    pendingConfIndex := 0, tail := 0, promotable := rn.raft.prs.conf.voters.contains config.id
    preVote := config.preVote, priority := config.priority }
  rostered : rn.raft.prs.Rostered
  log : rn.raft.raftLog = { RaftLog.new store 0 with
    committed := rn.raft.raftLog.committed, applied := rn.raft.raftLog.applied }
  committed : rn.raft.raftLog.committed = if store.raftState.hardState = {} then store.firstIndex - 1
    else store.raftState.hardState.commit
  low : store.firstIndex - 1 ≤ rn.raft.raftLog.committed
  high : rn.raft.raftLog.committed ≤ store.lastIndex
  applied : rn.raft.raftLog.applied = if config.applied = 0 then store.firstIndex - 1 else config.applied
  conf : confStateEq rn.raft.prs.conf.toConfState store.raftState.confState = true
  prevHs : rn.prevHs = rn.raft.hardState
  records : rn.records = []
  maxNumber : rn.maxNumber = 0
  since : rn.commitSinceIndex = config.applied
  named : config.id ≠ 0

variable {rn rn' : RawNode}

theorem core_reduceUncommittedSize (r : Raft) (ents : List Entry) :
    (r.reduceUncommittedSize ents).core = r.core := by
  have tail : (r.uncommittedState.maybeReduceUncommittedSize ents).1.lastLogTailIndex =
      r.uncommittedState.lastLogTailIndex := by
    unfold UncommittedState.maybeReduceUncommittedSize
    split
    · rfl
    simp only
    split <;> rfl
  unfold Raft.reduceUncommittedSize
  split
  · rfl
  · simp only [Raft.core, tail]

theorem genLightReady_lights {light : LightReady} (done : rn.genLightReady = .ok (rn', light)) :
    rn.Lights rn' light := by
  obtain ⟨entries, read, done⟩ := bind_eq_ok.1 done
  have core := core_reduceUncommittedSize rn.raft (entries.getD [])
  have messages : (rn.raft.reduceUncommittedSize (entries.getD [])).msgs = rn.raft.msgs :=
    congrArg Core.msgs core
  have emptied : { rn.raft.reduceUncommittedSize (entries.getD []) with msgs := [] }.core =
      { rn.raft.core with msgs := [] } := by
    rw [← core]
    rfl
  simp only at done
  split at done
  next none =>
    obtain ⟨rfl, rfl⟩ := ok_pair_inj done
    exact ⟨emptied, messages, rfl, ⟨entries, read, rfl⟩, by simp only [none]⟩
  next e last =>
    split at done
    · obtain ⟨rfl, rfl⟩ := ok_pair_inj done
      exact ⟨emptied, messages, rfl, ⟨entries, read, rfl⟩, by simp only [last]⟩
    · cases done

theorem dropRecords_ok (done : rn.dropRecords = .ok rn') :
    rn' = { rn with records := rn'.records } ∧ (rn'.records = rn.records ∨
      rn'.records = [] ∧ rn.raft.state = .leader ∧
        ∀ record ∈ rn.records, record.lastEntry = none ∧ record.snapshot = none) := by
  unfold dropRecords at done
  split at done
  next leads =>
    split at done
    next all =>
      cases done
      refine ⟨rfl, Or.inr ⟨rfl, leads.2, fun record member => ?_⟩⟩
      have := List.all_eq_true.1 all record member
      simpa using this
    next => cases done
  next =>
    cases done
    exact ⟨rfl, Or.inl rfl⟩

theorem readySnapshot_ok {snapshot : Option Snapshot} (done : rn.readySnapshot = .ok (rn', snapshot)) :
    rn' = { rn with commitSinceIndex := rn'.commitSinceIndex } ∧
      snapshot = rn.raft.raftLog.unstable.snapshot := by
  rcases readySnapshot_cases done with ⟨none, rfl, rfl⟩ | ⟨s, pending, -, rfl, rfl⟩
  · exact ⟨rfl, none.symm⟩
  · exact ⟨rfl, pending.symm⟩

theorem ready_readies {rd : Ready} (done : rn.ready = .ok (rn', rd)) : rn.Readies rn' rd := by
  obtain ⟨rn₁, dropped, done⟩ := bind_eq_ok.1 done
  obtain ⟨⟨rn₂, snapshot⟩, taken, done⟩ := bind_eq_ok.1 done
  obtain ⟨⟨rn₃, light⟩, lit, done⟩ := bind_eq_ok.1 done
  obtain ⟨rfl, rfl⟩ := ok_pair_inj done
  obtain ⟨first, records⟩ := dropRecords_ok dropped
  obtain ⟨second, pending⟩ := readySnapshot_ok taken
  obtain ⟨core, messages, third, -, -⟩ := genLightReady_lights lit
  have raft₁ : rn₁.raft = rn.raft := by
    rw [first]
  have raft₂ : rn₂.raft = { rn.raft with readStates := [] } := by
    rw [← raft₁, second]
  have core₃ : rn₃.raft.core = { rn.raft.core with msgs := [], readStates := [] } := by
    rw [core, raft₂]
    rfl
  have msgs : light.messages = rn.raft.msgs := by rw [messages, raft₂]
  have log₂ : rn₂.raft.raftLog = rn.raft.raftLog := by rw [raft₂]
  have role : rn₂.raft.state = rn.raft.state := by rw [raft₂]
  have hs : rn₁.raft.hardState = rn.raft.hardState := by rw [raft₁]
  have pending : snapshot = rn.raft.raftLog.unstable.snapshot := by
    rw [pending]
    simp only [raft₁]
  have number : rn₃.maxNumber = rn.maxNumber + 1 := by
    rw [third, second, first]
  have prevHs : rn₃.prevHs = rn.prevHs := by
    rw [third, second, first]
  have kept : rn₃.records = rn₁.records := by
    rw [third, second]
  refine ⟨core₃, rfl, number, ?_, ?_, ?_, prevHs, ?_, ?_, ?_, rn₁.records, ?_, records⟩
  · simp only [log₂]
  · simp only [pending]
  · simp only [prevHs, hs]
  · by_cases leads : rn.raft.state = .leader <;> simp [Ready.messages, role, leads, msgs]
  · by_cases leads : rn.raft.state = .leader <;> simp [Ready.persistedMessages, role, leads, msgs]
  · simp only [raft₁]
  · simp only [kept, log₂, pending, recordOf]

/-- A written Ready makes its own positions stable. -/
theorem commitReady_stable {rd : Ready} {kept : List ReadyRecord} {number : Nat} {log : RaftLog}
    {store : MemStorage} (records : rn.records = kept ++ [recordOf number log])
    (written : rn.raft.raftLog = { log with store }) (done : rn.commitReady rd = .ok rn') :
    rn.raft.raftLog.stable = .ok rn'.raft.raftLog ∧
      rn' = { rn with
        prevSs := rd.ss.getD rn.prevSs, prevHs := rd.hs.getD rn.prevHs
        raft := { rn.raft with raftLog := rn'.raft.raftLog } } := by
  have last : rn.records.getLast? = some (recordOf number log) := by rw [records, List.getLast?_concat]
  unfold commitReady at done
  simp only [last] at done
  split at done
  · cases done
  obtain ⟨log₁, snapped, done⟩ := bind_eq_ok.1 done
  obtain ⟨log₂, settled, done⟩ := bind_eq_ok.1 done
  obtain rfl := Except.ok.inj done
  refine ⟨?_, rfl⟩
  have unstable : rn.raft.raftLog.unstable = log.unstable := by rw [written]
  refine bind_eq_ok.2 ⟨log₁, ?_, ?_⟩
  · rw [unstable]
    simp only [recordOf] at snapped
    cases pending : log.unstable.snapshot with
    | none =>
        simp only [pending, Option.map_none] at snapped
        exact snapped
    | some s =>
        simp only [pending, Option.map_some] at snapped
        exact snapped
  · rw [unstable]
    simp only [recordOf] at settled
    cases ends : log.unstable.entries.getLast? with
    | none =>
        simp only [ends, Option.map_none] at settled
        exact settled
    | some e =>
        simp only [ends, Option.map_some] at settled
        exact settled

theorem autoLeave_follower {r : Raft} (role : r.state ≠ .leader) (oldApplied applied : Nat) :
    r.autoLeave oldApplied applied = .ok r := by
  unfold Raft.autoLeave
  rw [if_neg (by simp [role])]

theorem load_ok {r loaded : Raft} {hs : HardState} (fresh : r.term = 0 ∧ r.vote = 0)
    (range : r.raftLog.committed ≤ r.raftLog.lastIndex)
    (done : (if hs ≠ {} then r.loadState hs else pure r) = .ok loaded) :
    loaded = { r with
        raftLog := { r.raftLog with committed := if hs = {} then r.raftLog.committed else hs.commit }
        term := hs.term, vote := hs.vote } ∧
      r.raftLog.committed ≤ loaded.raftLog.committed ∧
        loaded.raftLog.committed ≤ r.raftLog.lastIndex := by
  by_cases empty : hs = {}
  · rw [if_neg (not_not.2 empty)] at done
    obtain rfl := Except.ok.inj done
    refine ⟨?_, le_rfl, range⟩
    have term : hs.term = r.term := by rw [empty, fresh.1]
    have vote : hs.vote = r.vote := by rw [empty, fresh.2]
    rw [if_pos empty, term, vote]
  · rw [if_pos empty] at done
    unfold Raft.loadState at done
    split at done
    · cases done
    next inside =>
      obtain rfl := Except.ok.inj done
      rw [if_neg empty]
      refine ⟨rfl, ?_, ?_⟩
      · show r.raftLog.committed ≤ hs.commit
        omega
      · show hs.commit ≤ r.raftLog.lastIndex
        omega

theorem applied_ok {r final : Raft} {applied : Nat} (role : r.state ≠ .leader)
    (done : (if applied > 0 then r.commitApplyInternal applied true else pure r) = .ok final) :
    final = { r with
      raftLog := { r.raftLog with applied := if applied = 0 then r.raftLog.applied else applied } } := by
  by_cases zero : applied = 0
  · rw [if_neg (by omega)] at done
    obtain rfl := Except.ok.inj done
    rw [if_pos zero]
  · rw [if_pos (by omega)] at done
    have unled : ({ r with raftLog := r.raftLog.appliedToUnchecked applied } : Raft).state ≠
        .leader := role
    have same : r.commitApplyInternal applied true = .ok { r with
        raftLog := r.raftLog.appliedToUnchecked applied } :=
      autoLeave_follower unled r.raftLog.applied applied
    obtain rfl := Except.ok.inj (same.symm.trans done)
    rw [if_neg zero]
    rfl

/-- A node starts from the content of its storage. -/
theorem new_starts {config : Config} {store : MemStorage} {rng : Nat → Nat} (wf : store.WF)
    (done : RawNode.new config store rng = .ok (.ok rn)) : rn.Starts config store := by
  have last := wf.last
  unfold RawNode.new at done
  split at done
  · cases done
  next named =>
  obtain ⟨result, made, done⟩ := bind_eq_ok.1 done
  cases result with
  | error error => cases done
  | ok raft =>
      simp only at done
      obtain rfl := Except.ok.inj (Except.ok.inj done)
      unfold Raft.new at made
      split at made
      · cases made
      simp only at made
      split at made
      · cases made
      next prs restored =>
        have role : { Raft.blank config store rng with prs }.state ≠ .leader := nofun
        rw [Raft.postConfChange_follower role] at made
        simp only [ok_bind] at made
        split at made
        · cases made
        next same =>
          obtain ⟨loaded, load, made⟩ := bind_eq_ok.1 made
          obtain ⟨final, apply, made⟩ := bind_eq_ok.1 made
          obtain rfl := Except.ok.inj (Except.ok.inj made)
          have range : store.firstIndex - 1 ≤ store.lastIndex := by omega
          obtain ⟨sameLoaded, low, high⟩ := load_ok ⟨rfl, rfl⟩ range load
          have follows : loaded.state ≠ .leader := by
            rw [sameLoaded]
            nofun
          have sameFinal := applied_ok follows apply
          have core := final.core_becomeFollower final.term invalidId
          have log : (final.becomeFollower final.term invalidId).raftLog =
              { final.raftLog with maxApplyUnpersistedLogLimit := 0 } := congrArg Core.log core
          have conf : (final.becomeFollower final.term invalidId).prs.conf = prs.conf := by
            have := congrArg Core.conf core
            rw [sameFinal, sameLoaded] at this ⊢
            exact this
          have committed : final.raftLog.committed = loaded.raftLog.committed := by rw [sameFinal]
          refine ⟨?_, ?_, ?_, ?_, ?_, ?_, ?_, ?_, rfl, rfl, rfl, rfl, named⟩
          · simp only [conf]
            rw [core, sameFinal, sameLoaded]
            simp only [Core.asFollower, Core.enter, Raft.core, if_true]
            rfl
          · rw [← Raft.rostered_core]
            simp only
            rw [core, sameFinal, sameLoaded]
            obtain ⟨roster, steps, represents⟩ :=
              ProgressTracker.rostered_restoreConf ⟨rfl, rfl⟩ restored
            refine ⟨roster, steps, represents.lists, fun id => ?_⟩
            rw [← represents.tracks id]
            simp [Core.asFollower, Core.enter, Core.freshPositions, Raft.core, ProgressTracker.get,
              KeyMap.contains]
          · simp only [log]
            rw [sameFinal, sameLoaded]
            rfl
          · simp only [log, committed]
            rw [sameLoaded]
            rfl
          · simp only [log, committed]
            exact low
          · simp only [log, committed]
            exact high
          · simp only [log]
            rw [sameFinal, sameLoaded]
            rfl
          · simp only [conf]
            simpa using same

end RawNode

end RaftRs

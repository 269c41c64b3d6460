import RaftRs.Log.Page
import RaftRs.Node.Tidy
import RaftRs.Peer.Flow

namespace RaftRs

open Library

/-- The size of the data of entries. -/
def dataSize (ents : List Entry) : Nat := (ents.map fun ent => ent.data.length).sum

theorem dataSize_append (ents more : List Entry) :
    dataSize (ents ++ more) = dataSize ents + dataSize more := by
  simp [dataSize]

namespace RaftLog

variable {log log' log'' : RaftLog} {low high : Nat}

theorem range_congr (same : ∀ i, low ≤ i → i < high → log'.entryAt i = log.entryAt i) :
    log'.range low high = log.range low high := by
  refine List.filterMap_congr fun i inside => ?_
  obtain ⟨least, most⟩ := List.mem_range'_1.1 inside
  exact same i least (by omega)

/-- A log keeps its entries and may have more behind them. -/
structure Lengthens (log log' : RaftLog) : Prop where
  sound : log'.Sound
  first : log'.firstIndex = log.firstIndex
  last : log.lastIndex ≤ log'.lastIndex
  entryAt : ∀ i ≤ log.lastIndex, log'.entryAt i = log.entryAt i

theorem Lengthens.trans (one : log.Lengthens log') (two : log'.Lengthens log'') : log.Lengthens log'' :=
  ⟨two.sound, two.first.trans one.first, one.last.trans two.last, fun i inside =>
    (two.entryAt i (inside.trans one.last)).trans (one.entryAt i inside)⟩

theorem Marks.lengthens (marks : log.Marks log') (sound : log'.Sound) : log.Lengthens log' :=
  ⟨sound, marks.firstIndex, marks.lastIndex.ge, fun i _ => marks.entryAt i⟩

theorem Sound.lengthens_trigger (sound : log.Sound) (trigger : Bool) :
    log.Lengthens { log with store := { log.store with triggerSnapUnavailable := trigger } } :=
  ⟨sound.mark log.persisted log.applied log.maxApplyUnpersistedLogLimit trigger
    log.store.triggerLogUnavailable, rfl, le_rfl, fun _ _ => rfl⟩

end RaftLog

namespace Raft

/-- The activity marks of the tracked nodes. -/
def activity (r : Raft) (id : Nat) : Option Bool := (r.prs.get id).map Progress.recentActive

/-- The node has an entry and its peers are in order. -/
structure Flows (r : Raft) : Prop where
  started : 1 ≤ r.raftLog.lastIndex
  peers : ∀ id pr, id ≠ r.id → r.prs.get id = some pr → pr.Flow

/-- A node keeps its role and its term, lengthens its log by entries that it counts, and keeps its
peers in order; the data of a proposal has a greatest size. -/
structure Tends (largest : Nat) (r r' : Raft) : Prop where
  id : r'.id = r.id
  term : r'.term = r.term
  state : r'.state = r.state
  tail : r'.uncommittedState.lastLogTailIndex = r.uncommittedState.lastLogTailIndex
  limit : r'.uncommittedState.maxUncommittedSize = r.uncommittedState.maxUncommittedSize
  log : r.raftLog.Sound → r.raftLog.Lengthens r'.raftLog
  size : r.raftLog.Sound → r.uncommittedState.isNoLimit = false → r'.uncommittedState.uncommittedSize =
    r.uncommittedState.uncommittedSize +
      dataSize (r'.raftLog.range (r.raftLog.lastIndex + 1) (r'.raftLog.lastIndex + 1))
  bound : r'.uncommittedState.uncommittedSize ≤
    max r.uncommittedState.uncommittedSize (max r.uncommittedState.maxUncommittedSize largest)
  flow : r.raftLog.Sound → r.Flows → r'.Flows

/-- A node that tends its peers also keeps their activity marks. -/
structure Tracks (largest : Nat) (r r' : Raft) : Prop extends Tends largest r r' where
  activity : r'.activity = r.activity

variable {r r' r'' : Raft} {largest : Nat} {id toId : Nat} {pr pr' : Progress}

theorem Tends.isNoLimit (tends : Tends largest r r') :
    r'.uncommittedState.isNoLimit = r.uncommittedState.isNoLimit := by
  unfold UncommittedState.isNoLimit
  rw [tends.limit]

theorem Tends.trans (one : Tends largest r r') (two : Tends largest r' r'') : Tends largest r r'' where
  id := two.id.trans one.id
  term := two.term.trans one.term
  state := two.state.trans one.state
  tail := two.tail.trans one.tail
  limit := two.limit.trans one.limit
  log sound := (one.log sound).trans (two.log (one.log sound).sound)
  size sound limited := by
    have longer := one.log sound
    have longest := two.log longer.sound
    have last := longer.last
    have last' := longest.last
    have kept : r''.raftLog.range (r.raftLog.lastIndex + 1) (r'.raftLog.lastIndex + 1) =
        r'.raftLog.range (r.raftLog.lastIndex + 1) (r'.raftLog.lastIndex + 1) :=
      RaftLog.range_congr fun i _ inside => longest.entryAt i (Nat.le_of_lt_succ inside)
    rw [two.size longer.sound (one.isNoLimit.trans limited), one.size sound limited,
      Nat.add_assoc, ← kept, ← dataSize_append, RaftLog.range_append _ (by omega) (by omega)]
  bound := by
    have first := one.bound
    have second := two.bound
    rw [one.limit] at second
    omega
  flow sound flows := two.flow (one.log sound).sound (one.flow sound flows)

theorem Tracks.trans (one : Tracks largest r r') (two : Tracks largest r' r'') : Tracks largest r r'' :=
  ⟨one.toTends.trans two.toTends, two.activity.trans one.activity⟩

/-- A node that keeps the length of its log tends its peers. -/
theorem tends_of (id : r'.id = r.id) (term : r'.term = r.term) (state : r'.state = r.state)
    (uncommitted : r'.uncommittedState = r.uncommittedState)
    (log : r.raftLog.Sound → r.raftLog.Lengthens r'.raftLog ∧ r'.raftLog.lastIndex = r.raftLog.lastIndex)
    (peers : r.raftLog.Sound → r.Flows → ∀ id pr, id ≠ r.id → r'.prs.get id = some pr → pr.Flow) :
    Tends largest r r' where
  id := id
  term := term
  state := state
  tail := by rw [uncommitted]
  limit := by rw [uncommitted]
  log sound := (log sound).1
  size sound _ := by
    rw [uncommitted, (log sound).2, RaftLog.range_self]
    rfl
  bound := by
    rw [uncommitted]
    exact le_max_left ..
  flow sound flows := by
    refine ⟨(log sound).2 ▸ flows.started, fun peer pr other => ?_⟩
    rw [id] at other
    exact peers sound flows peer pr other

theorem tracks_same (id : r'.id = r.id) (term : r'.term = r.term) (state : r'.state = r.state)
    (uncommitted : r'.uncommittedState = r.uncommittedState)
    (progress : r'.prs.progress = r.prs.progress)
    (log : r.raftLog.Sound → r.raftLog.Lengthens r'.raftLog ∧
      r'.raftLog.lastIndex = r.raftLog.lastIndex) :
    Tracks largest r r' := by
  have get : r'.prs.get = r.prs.get := by
    unfold ProgressTracker.get
    rw [progress]
  refine ⟨tends_of id term state uncommitted log fun _ flows peer pr other known => ?_, ?_⟩
  · rw [get] at known
    exact flows.peers peer pr other known
  · unfold activity
    rw [get]

theorem same_log (same : r'.raftLog = r.raftLog) (sound : r.raftLog.Sound) :
    r.raftLog.Lengthens r'.raftLog ∧ r'.raftLog.lastIndex = r.raftLog.lastIndex := by
  rw [same]
  exact ⟨⟨sound, rfl, le_rfl, fun _ _ => rfl⟩, rfl⟩

theorem Tracks.refl : Tracks largest r r := tracks_same rfl rfl rfl rfl rfl (same_log rfl)

theorem get_put (prs : ProgressTracker) (id other : Nat) (pr : Progress) :
    (prs.put id pr).get other = if other = id then (prs.get other).map fun _ => pr else prs.get other :=
  prs.progress.get?_modify id other fun _ => pr

theorem activity_put (known : r.prs.get id = some pr) :
    { r with prs := r.prs.put id pr' }.activity = Function.update r.activity
      id (some pr'.recentActive) := by
  funext other
  unfold activity
  rw [get_put]
  by_cases same : other = id
  · subst same
    simp [known]
  · simp [same]

theorem tends_put (known : r.prs.get id = some pr)
    (flow : r.raftLog.Sound → id ≠ r.id → pr.Flow → pr'.Flow) :
    Tends largest r { r with prs := r.prs.put id pr' } := by
  refine tends_of rfl rfl rfl rfl (same_log rfl) fun sound flows peer found other known' => ?_
  rw [get_put] at known'
  split at known'
  next same =>
    subst same
    rw [known] at known'
    obtain rfl := Option.some.inj known'
    exact flow sound other (flows.peers _ pr other known)
  next => exact flows.peers peer found other known'

theorem tracks_put (known : r.prs.get id = some pr) (active : pr'.recentActive = pr.recentActive)
    (flow : r.raftLog.Sound → id ≠ r.id → pr.Flow → pr'.Flow) :
    Tracks largest r { r with prs := r.prs.put id pr' } := by
  refine ⟨tends_put known flow, ?_⟩
  rw [activity_put known, active]
  exact Function.update_eq_self_iff.2 (by rw [activity, known]; rfl)

/-- What a message to a peer changes at its sender: the queue, a switch of the storage and the
progress. -/
structure Sent (r : Raft) (pr : Progress) (r' : Raft) (pr' : Progress) : Prop where
  rest : r' = { r with msgs := r'.msgs, raftLog := r'.raftLog }
  log : ∃ trigger, r'.raftLog = { r.raftLog with
    store := { r.raftLog.store with triggerSnapUnavailable := trigger } }
  active : pr'.recentActive = pr.recentActive
  flow : r.raftLog.Sound → pr.Flow → pr'.Flow

theorem sent_queue {msgs : List Message} (active : pr'.recentActive = pr.recentActive)
    (flow : r.raftLog.Sound → pr.Flow → pr'.Flow) : Sent r pr { r with msgs } pr' :=
  ⟨rfl, ⟨r.raftLog.store.triggerSnapUnavailable, rfl⟩, active, flow⟩

theorem Sent.refl : Sent r pr r pr := sent_queue rfl fun _ flow => flow

/-- A sender keeps a sound log. -/
theorem Sent.lengthens (sent : Sent r pr r' pr') (sound : r.raftLog.Sound) :
    r.raftLog.Lengthens r'.raftLog ∧ r'.raftLog.lastIndex = r.raftLog.lastIndex := by
  obtain ⟨trigger, same⟩ := sent.log
  rw [same]
  exact ⟨sound.lengthens_trigger trigger, rfl⟩

theorem Sent.sound (sent : Sent r pr r' pr') (sound : r'.raftLog.Sound) : r.raftLog.Sound := by
  obtain ⟨trigger, same⟩ := sent.log
  rw [same] at sound
  exact (sound.lengthens_trigger r.raftLog.store.triggerSnapUnavailable).sound

theorem Sent.trans {pr'' : Progress} (one : Sent r pr r' pr') (two : Sent r' pr' r'' pr'') :
    Sent r pr r'' pr'' := by
  obtain ⟨first, log⟩ := one.log
  obtain ⟨second, log'⟩ := two.log
  refine ⟨?_, ⟨second, by rw [log', log]⟩, two.active.trans one.active, fun sound flow => ?_⟩
  · rw [two.rest, one.rest]
  · exact two.flow (one.lengthens sound).1.sound (one.flow sound flow)

theorem send_msgs {m : Message} (done : r.send m = .ok r') : r' = { r with msgs := r'.msgs } := by
  rcases r.send_cases m with ⟨failed, -⟩ | ⟨sent, -⟩
  · cases failed.symm.trans done
  · obtain rfl := Except.ok.inj (sent.symm.trans done)
    rfl

theorem sent_sendSnapshot : Yields (r.sendSnapshot toId pr) fun x => Sent r pr x.1 x.2.1 := by
  unfold sendSnapshot prepareSendSnapshot
  split
  · exact Sent.refl
  simp only [bind_assoc]
  refine .read fun ⟨log, result⟩ taken => ?_
  rcases RaftLog.snapshot_cases taken with ⟨snapshot, rfl, rfl⟩ | ⟨rfl, rfl⟩
  · simp only
    split
    · exact yields_error
    · rw [pure_bind]
      refine .read fun sent done => ?_
      rw [send_msgs done]
      exact sent_queue rfl fun _ flow => flow.becomeSnapshot _
  · exact ⟨rfl, ⟨false, rfl⟩, rfl, fun _ flow => flow⟩

theorem sent_updateState {ents : List Entry} {last : Entry} {maxSize : Option Nat}
    {context : GetEntriesFor} {msgs : List Message}
    (read : r.raftLog.entries pr.nextIdx maxSize context = .ok (.ok ents))
    (ends : ents.getLast? = some last) (done : pr.updateState last.index = .ok pr') :
    Sent r pr { r with msgs } pr' := by
  refine sent_queue (Progress.updateState_recentActive done) fun sound flow => flow.updateState ?_ done
  have index := (sound.wf.entries_contiguous read).last ends
  have filled : ents ≠ [] := fun empty => by simp [empty] at ends
  have length := List.length_pos_iff.2 filled
  omega

theorem sent_sendEntries {term : Nat} {ents : List Entry} {maxSize : Option Nat}
    {context : GetEntriesFor} (read : r.raftLog.entries pr.nextIdx maxSize context = .ok (.ok ents)) :
    Yields (r.sendEntries toId pr term ents) fun x => Sent r pr x.1 x.2.1 := by
  unfold sendEntries prepareSendEntries
  cases ends : ents.getLast? with
  | none =>
      simp only [ok_bind]
      refine .read fun sent done => ?_
      rw [send_msgs done]
      exact sent_queue rfl fun _ flow => flow
  | some last =>
      simp only [bind_assoc, pure_bind]
      refine .read fun pr' updated => .read fun sent done => ?_
      rw [send_msgs done]
      exact sent_updateState read ends updated

theorem sent_maybeSendAppend (allowEmpty : Bool) :
    Yields (r.maybeSendAppend toId pr allowEmpty) fun x => Sent r pr x.1 x.2.1 := by
  unfold maybeSendAppend
  split
  · exact Sent.refl
  split
  · exact sent_sendSnapshot
  refine .read fun ents read => ?_
  have stay : Yields (.ok (r, pr, false) : Except Fatal (Raft × Progress × Bool))
      fun x => Sent r pr x.1 x.2.1 := Sent.refl
  cases ents with
  | error error =>
      simp only
      split
      · exact stay
      split
      next impossible => cases impossible
      next => exact stay
      next => exact sent_sendSnapshot
  | ok ents =>
      simp only
      split
      · exact stay
      split
      next term ents' known same =>
        cases same
        split
        next enabled =>
          refine .read fun result batched => ?_
          split
          next msgs pr' =>
            obtain ⟨-, -, -, -, -, -, -, -, moved⟩ := batchInto_ok batched
            rcases moved with rfl | ⟨last, ends, updated⟩
            · exact sent_queue rfl fun _ flow => flow
            · exact sent_updateState read ends updated
          next => exact sent_sendEntries read
        next => exact sent_sendEntries read
      next => exact stay
      next => exact sent_sendSnapshot

theorem sent_sendAppendLoop (fuel : Nat) :
    Yields (sendAppendLoop toId fuel r pr) fun x => Sent r pr x.1 x.2 := by
  induction fuel generalizing r pr with
  | zero => exact yields_error
  | succ fuel ih =>
      refine (sent_maybeSendAppend false).bind fun ⟨r', pr', more⟩ sent => ?_
      cases more with
      | false => exact sent
      | true => exact ih.mono fun x rest => sent.trans rest

theorem tracks_withProgress {action : Raft → Progress → Except Fatal (Raft × Progress)}
    (sends : ∀ pr, Yields (action r pr) fun x => Sent r pr x.1 x.2) :
    Yields (r.withProgress id action) (Tracks largest r) := by
  unfold withProgress
  split
  · exact yields_error
  next pr known =>
    refine (sends pr).bind fun ⟨r', pr'⟩ sent => ?_
    have sent : Sent r pr r' pr' := sent
    have queued : Tracks largest r r' := by
      rw [sent.rest]
      exact tracks_same rfl rfl rfl rfl rfl sent.lengthens
    have tracked : r'.prs.get id = some pr := by rw [sent.rest]; exact known
    exact queued.trans (tracks_put tracked sent.active fun sound _ => sent.flow (sent.sound sound))

theorem tracks_sendAppend : Yields (r.sendAppend toId) (Tracks largest r) :=
  tracks_withProgress fun _ => (sent_maybeSendAppend true).bind fun _ sent => sent

theorem tracks_sendAppendAggressively : Yields (r.sendAppendAggressively toId) (Tracks largest r) :=
  tracks_withProgress fun _ => sent_sendAppendLoop _

theorem tracks_foldlM {step : Raft → Nat → Except Fatal Raft} (ids : List Nat)
    (each : ∀ r id, Yields (step r id) (Tracks largest r)) :
    Yields (ids.foldlM step r) (Tracks largest r) :=
  Meets.foldlM ids (fun id _ r' tracks => (each r' id).mono fun _ more => tracks.trans more) r .refl

theorem tracks_bcastAppend : Yields r.bcastAppend (Tracks largest r) :=
  tracks_foldlM r.peers fun _ _ => tracks_sendAppend

theorem tracks_probePeers : Yields r.probePeers (Tracks largest r) :=
  tracks_foldlM r.peers fun _ _ => tracks_withProgress fun _ =>
    (sent_maybeSendAppend false).bind fun _ sent => sent

theorem tracks_send {m : Message} : Yields (r.send m) (Tracks largest r) := by
  rcases r.send_cases m with ⟨failed, -⟩ | ⟨sent, -⟩
  · rw [failed]
    exact yields_error
  · rw [sent]
    exact tracks_same rfl rfl rfl rfl rfl (same_log rfl)

theorem tracks_bcastHeartbeatWithCtx (ctx : Option Bytes) :
    Yields (r.bcastHeartbeatWithCtx ctx) (Tracks largest r) := by
  refine tracks_foldlM r.peers fun r id => tracks_withProgress fun pr => .read fun sent done => ?_
  rw [send_msgs done]
  exact sent_queue rfl fun _ flow => flow

theorem tracks_maybeCommit : Yields r.maybeCommit fun x => Tracks largest r x.1 := by
  unfold maybeCommit
  refine .read fun ⟨log, committed⟩ done => ?_
  have marked : Tracks largest r { r with raftLog := log } := by
    have marks := RaftLog.marks_maybeCommit done
    exact tracks_same rfl rfl rfl rfl rfl fun sound => ⟨marks.lengthens (sound.maybeCommit done),
      marks.lastIndex⟩
  simp only
  split
  · split
    · exact yields_error
    next pr known =>
      refine marked.trans (tracks_put known ?_ fun _ _ flow => flow.updateCommitted _)
      unfold Progress.updateCommitted
      split <;> rfl
  · exact marked

theorem dataSize_assignPositions (term lastIndex : Nat) (es : List Entry) :
    dataSize (assignPositions term lastIndex es) = dataSize es := by
  induction es generalizing lastIndex with
  | nil => rfl
  | cons e rest ih =>
      have next := ih (lastIndex + 1)
      simp only [dataSize] at next
      simp only [dataSize, assignPositions, List.map_cons, List.sum_cons, next]

/-- Every entry gets a position. -/
theorem length_assignPositions (term lastIndex : Nat) (es : List Entry) :
    (assignPositions term lastIndex es).length = es.length := by
  induction es generalizing lastIndex with
  | nil => rfl
  | cons e rest ih => rw [assignPositions, List.length_cons, ih, List.length_cons]

/-- Entries behind the last index lengthen a sound log. -/
theorem appended_lengthens {term : Nat} {es : List Entry} {log log' : RaftLog} (sound : log.Sound)
    (done : log.append (assignPositions term log.lastIndex es) = .ok log') :
    log.Lengthens log' ∧ log'.lastIndex = log.lastIndex + es.length ∧
      log'.range (log.lastIndex + 1) (log'.lastIndex + 1) = assignPositions term log.lastIndex es := by
  have contiguous := contiguous_assignPositions term log.lastIndex es
  have length := length_assignPositions term log.lastIndex es
  by_cases none : assignPositions term log.lastIndex es = []
  · have empty : es.length = 0 := by rw [← length, none]; rfl
    rw [none] at done ⊢
    obtain rfl := Except.ok.inj done
    exact ⟨⟨sound, rfl, le_rfl, fun _ _ => rfl⟩, by rw [empty]; rfl, RaftLog.range_self ..⟩
  · have appended := sound.wf.append none contiguous done
    have last := appended.last
    rw [length] at last
    refine ⟨⟨sound.of_snapshot ⟨appended.wf, appended.snapshot⟩, appended.firstIndex, by omega,
      fun i inside => ?_⟩, by omega, RaftLog.range_eq (fun k entry present => ?_) (by omega)⟩
    · rw [appended.entryAt, if_pos (Nat.lt_succ_of_le inside)]
    · rw [appended.entryAt, if_neg (by omega), Nat.add_sub_cancel_left]
      exact present

/-- How proposals are counted. -/
theorem increased_cases {state state' : UncommittedState} {es : List Entry}
    (counted : state.maybeIncreaseUncommittedSize es = (state', true)) :
    state'.maxUncommittedSize = state.maxUncommittedSize ∧
      state'.lastLogTailIndex = state.lastLogTailIndex ∧
      (state.isNoLimit = false → state'.uncommittedSize = state.uncommittedSize + dataSize es) ∧
      state'.uncommittedSize ≤ max state.uncommittedSize
        (max state.maxUncommittedSize (dataSize es)) := by
  unfold UncommittedState.maybeIncreaseUncommittedSize at counted
  split at counted
  next unlimited =>
    obtain rfl := (Prod.mk.inj counted).1
    exact ⟨rfl, rfl, fun limited => (by rw [limited] at unlimited; cases unlimited), le_max_left ..⟩
  next =>
    simp only at counted
    split at counted
    next fits =>
      obtain rfl := (Prod.mk.inj counted).1
      refine ⟨rfl, rfl, fun _ => rfl, ?_⟩
      simp only [dataSize]
      omega
    next => cases (Prod.mk.inj counted).2

theorem tracks_appendEntry {es : List Entry} (small : dataSize es ≤ largest) :
    Yields (r.appendEntry es) fun x => Tracks largest r x.1 ∧ x.1.prs = r.prs ∧
      (x.2 = true → r.raftLog.Sound → x.1.raftLog.lastIndex = r.raftLog.lastIndex + es.length) := by
  unfold appendEntry
  split
  · exact ⟨.refl, rfl, nofun⟩
  next uncommittedState counted =>
    obtain ⟨limit, tail, size, bound⟩ := increased_cases counted
    refine .read fun log done => ⟨⟨?_, rfl⟩, rfl, fun _ sound => (appended_lengthens sound done).2.1⟩
    refine
      { id := rfl
        term := rfl
        state := rfl
        tail := tail
        limit := limit
        log := fun sound => (appended_lengthens sound done).1
        size := fun sound limited => ?_
        bound := ?_
        flow := fun sound flows => ⟨flows.started.trans (appended_lengthens sound done).1.last,
          flows.peers⟩ }
    · show uncommittedState.uncommittedSize = _ + dataSize (log.range _ _)
      rw [(appended_lengthens sound done).2.2, dataSize_assignPositions]
      exact size limited
    · show uncommittedState.uncommittedSize ≤ _
      omega

end Raft

end RaftRs

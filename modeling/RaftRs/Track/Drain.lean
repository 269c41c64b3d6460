import RaftRs.Track.Drive

namespace RaftRs

open Library

namespace Progress

variable {pr pr' : Progress} {lastIndex last : Nat}

/-- The messages with entries that a peer still takes. -/
def room (pr : Progress) : Nat :=
  match pr.state with
  | .replicate => pr.ins.limit - pr.ins.count
  | .probe => if pr.paused then 0 else 1
  | .snapshot => 0

/-- The indexes that are left for the messages to a peer. -/
def span (lastIndex : Nat) (pr : Progress) : Nat :=
  match pr.state with
  | .replicate => lastIndex + 1 - pr.nextIdx + 1
  | .probe => if pr.paused then 0 else 1
  | .snapshot => 0

theorem Flow.room_eq_zero_iff (flow : pr.Flow) : pr.room = 0 ↔ pr.isPaused = true := by
  obtain ⟨items, window⟩ := flow
  unfold room isPaused
  cases pr.state with
  | replicate =>
      simp only [window.holds.full_iff]
      omega
  | probe => cases pr.paused <;> simp
  | snapshot => simp

/-- A message with entries takes room and indexes away. -/
theorem Flow.updateState_lowers (flow : pr.Flow) (open' : pr.isPaused = false)
    (fresh : pr.nextIdx ≤ last) (within : last ≤ lastIndex) :
    ∃ pr', pr.updateState last = .ok pr' ∧ pr'.room < pr.room ∧
      pr'.span lastIndex < pr.span lastIndex ∧
        pr'.pendingRequestSnapshot = pr.pendingRequestSnapshot := by
  obtain ⟨items, window⟩ := flow
  unfold isPaused at open'
  unfold Progress.updateState
  cases state : pr.state with
  | replicate =>
      simp only [state] at open'
      obtain ⟨ins, added, holds, limit⟩ := window.holds.add open' last
      have count : ins.count = pr.ins.count + 1 := by
        rw [← holds.size, List.length_append, window.holds.size]
        rfl
      have below : ¬ pr.ins.limit ≤ pr.ins.count := fun full => by
        rw [window.holds.full_iff.2 full] at open'
        cases open'
      simp only [added, ok_bind]
      refine ⟨_, rfl, ?_, ?_, rfl⟩
      · simp only [room, optimisticUpdate, state, limit, count]
        omega
      · simp only [span, optimisticUpdate, state]
        omega
  | probe =>
      simp only [state] at open'
      refine ⟨_, rfl, ?_, ?_, rfl⟩
      · simp [room, pause, state, open']
      · simp [span, pause, state, open']
  | snapshot => simp [state] at open'

end Progress

namespace Raft

variable {r r' : Raft} {toId : Nat} {pr pr' : Progress}

/-- The entries behind the next index of a peer, as the loop reads them. -/
def nextEntries (r : Raft) (toId : Nat) (pr : Progress) :
    Except Fatal (Except StorageError (List Entry)) :=
  r.raftLog.entries pr.nextIdx (some r.maxMsgSize) (.sendAppend toId r.term true)

/-- A snapshot is due for a peer: it asked for one, or the term before its next index is gone. -/
def SnapshotDue (r : Raft) (pr : Progress) : Prop :=
  pr.pendingRequestSnapshot ≠ invalidIndex ∨ ∃ e, r.raftLog.term (pr.nextIdx - 1) = .error e

/-- A snapshot cannot be sent now: the peer is not active, or the storage makes one later. -/
def SnapshotWaits (r : Raft) (pr : Progress) : Prop :=
  pr.recentActive = false ∨
    ∃ log, r.raftLog.snapshot pr.pendingRequestSnapshot =
      .ok (log, .error .snapshotTemporarilyUnavailable)

/-- The storage has no snapshot to send, which is fatal. -/
def SnapshotFails (r : Raft) (pr : Progress) (e : Fatal) : Prop :=
  r.raftLog.snapshot pr.pendingRequestSnapshot = .error e ∨
    (e = .emptySnapshot ∧ ∃ log s, r.raftLog.snapshot pr.pendingRequestSnapshot = .ok (log, .ok s) ∧
      s.metadata.index = 0)

/-- The reasons for which nothing more is sent to a peer. -/
def Drained (r : Raft) (toId : Nat) (pr : Progress) : Prop :=
  pr.isPaused = true ∨ r.raftLog.lastIndex < pr.nextIdx ∨ (∃ e, r.nextEntries toId pr = .ok (.error e)) ∨
    (r.SnapshotDue pr ∧ r.SnapshotWaits pr)

/-- What one call for the next message to a peer may do. -/
inductive Drains (r : Raft) (toId : Nat) (pr : Progress) :
    Except Fatal (Raft × Progress × Bool) → Prop where
  | stop {r' : Raft} (msgs : r'.msgs = r.msgs) (drained : r.Drained toId pr) :
      Drains r toId pr (.ok (r', pr, false))
  | entries {msgs : List Message} {pr' : Progress} (one : msgs.length ≤ r.msgs.length + 1)
      (flow : pr'.Flow) (room : pr'.room < pr.room)
      (span : pr'.span r.raftLog.lastIndex < pr.span r.raftLog.lastIndex) :
      Drains r toId pr (.ok ({ r with msgs }, pr', true))
  | snapshot {r' : Raft} {pr' : Progress} (one : r'.msgs.length = r.msgs.length + 1)
      (open' : pr.isPaused = false) (paused : pr'.state = .snapshot) :
      Drains r toId pr (.ok (r', pr', true))
  | fail {e : Fatal} (due : r.SnapshotDue pr) (fails : r.SnapshotFails pr e) :
      Drains r toId pr (.error e)

theorem drains_sendSnapshot (open' : pr.isPaused = false) (due : r.SnapshotDue pr) :
    Drains r toId pr (r.sendSnapshot toId pr) := by
  unfold sendSnapshot prepareSendSnapshot
  cases active : pr.recentActive with
  | false => exact .stop rfl (.inr (.inr (.inr ⟨due, .inl active⟩)))
  | true =>
      simp only [Bool.not_true, Bool.false_eq_true, if_false]
      cases taken : r.raftLog.snapshot pr.pendingRequestSnapshot with
      | error e => exact .fail due (.inl taken)
      | ok found =>
          obtain ⟨log, result⟩ := found
          simp only [ok_bind]
          rcases RaftLog.snapshot_cases taken with ⟨s, rfl, rfl⟩ | ⟨rfl, rfl⟩
          · simp only
            split
            next empty => exact .fail due (.inr ⟨rfl, _, s, taken, empty⟩)
            next =>
              rw [pure_bind]
              simp only
              rw [send_append _ rfl rfl]
              exact .snapshot (by simp) open' rfl
          · exact .stop rfl (.inr (.inr (.inr ⟨due, .inr ⟨_, taken⟩⟩)))

theorem drains_sendEntries {term : Nat} {ents : List Entry} {last : Entry} (flow : pr.Flow)
    (open' : pr.isPaused = false) (ends : ents.getLast? = some last) (fresh : pr.nextIdx ≤ last.index)
    (within : last.index ≤ r.raftLog.lastIndex) :
    Drains r toId pr (r.sendEntries toId pr term ents) := by
  obtain ⟨pr', updated, room, span, -⟩ := flow.updateState_lowers open' fresh within
  unfold sendEntries prepareSendEntries
  simp only [ends, updated, ok_bind, pure_bind]
  rw [send_append _ rfl rfl]
  exact .entries (by simp) (flow.updateState fresh updated) room span

/-- Entries behind the next index join a queued message or are left for a message of their own. -/
theorem batchInto_lowers {committed : Nat} {ents : List Entry} {last : Entry} {lastIndex : Nat}
    {msgs : List Message} (flow : pr.Flow) (open' : pr.isPaused = false)
    (ends : ents.getLast? = some last) (fresh : pr.nextIdx ≤ last.index)
    (within : last.index ≤ lastIndex) : batchInto committed toId pr ents msgs = .ok none ∨
      ∃ msgs' pr', batchInto committed toId pr ents msgs = .ok (some (msgs', pr')) ∧
        msgs'.length = msgs.length ∧
        pr'.Flow ∧ pr'.room < pr.room ∧ pr'.span lastIndex < pr.span lastIndex := by
  obtain ⟨pr', updated, room, span, -⟩ := flow.updateState_lowers open' fresh within
  have kept := flow.updateState fresh updated
  induction msgs with
  | nil => exact .inl rfl
  | cons msg rest ih =>
      unfold batchInto
      split
      · simp only [ends]
        split
        · right
          simp only [updated, ok_bind]
          exact ⟨_, pr', rfl, rfl, kept, room, span⟩
        · exact .inl rfl
      · rcases ih with none | ⟨msgs', pr'', batched, length, rest⟩
        · left
          rw [none]
          rfl
        · right
          rw [batched]
          exact ⟨_, pr'', rfl, congrArg Nat.succ length, rest⟩

theorem drains_maybeSendAppend (wf : r.raftLog.WF) (flow : pr.Flow) :
    Drains r toId pr (r.maybeSendAppend toId pr false) := by
  unfold maybeSendAppend
  cases open' : pr.isPaused with
  | true => exact .stop rfl (.inl open')
  | false =>
      simp only [Bool.false_eq_true, if_false, Bool.not_false, Bool.true_and]
      split
      next requested => exact drains_sendSnapshot open' (.inl requested)
      rcases wf.entries_cases pr.nextIdx (some r.maxMsgSize) (.sendAppend toId r.term true) with
        ⟨beyond, read⟩ | ⟨e, -, read⟩ | ⟨first, inside, read⟩
      · rw [read]
        exact .stop rfl (.inr (.inl beyond))
      · rw [read]
        exact .stop rfl (.inr (.inr (.inl ⟨e, read⟩)))
      · rw [read]
        have filled :=
          limitSize_ne_nil (wf.range_ne_nil first (Nat.lt_succ_of_le inside) le_rfl) (some r.maxMsgSize)
        generalize shape : limitSize (r.raftLog.range pr.nextIdx (r.raftLog.lastIndex + 1))
          (some r.maxMsgSize) = ents
          at filled
        obtain ⟨last, ends⟩ : ∃ last, ents.getLast? = some last :=
          ⟨_, List.getLast?_eq_some_getLast filled⟩
        have member : last ∈ r.raftLog.range pr.nextIdx (r.raftLog.lastIndex + 1) := by
          refine (limitSize_start _ (some r.maxMsgSize)).subset ?_
          rw [shape]
          exact List.mem_of_getLast? ends
        obtain ⟨fresh, within⟩ := wf.index_range member
        have within : last.index ≤ r.raftLog.lastIndex := Nat.le_of_lt_succ within
        have some : ents.isEmpty = false := by simpa using filled
        simp only [ok_bind, some, Bool.false_eq_true, if_false]
        cases known : r.raftLog.term (pr.nextIdx - 1) with
        | error e => exact drains_sendSnapshot open' (.inr ⟨e, known⟩)
        | ok term =>
            simp only
            split
            · rcases batchInto_lowers flow open' ends fresh within with none
                | ⟨msgs, pr', batched, length, kept, room, span⟩
              · rw [tryBatching, none]
                exact drains_sendEntries flow open' ends fresh within
              · rw [tryBatching, batched]
                exact .entries (by omega) kept room span
            · exact drains_sendEntries flow open' ends fresh within

/-- The ways in which the sending loop ends. -/
inductive Finishes (r : Raft) (toId : Nat) (pr : Progress) : Except Fatal (Raft × Progress) → Prop where
  | drained {r' : Raft} {pr' : Progress} (few : r'.msgs.length ≤ r.msgs.length + pr.room)
      (drained : r.Drained toId pr') : Finishes r toId pr (.ok (r', pr'))
  | fail {e : Fatal} {pr' : Progress} (due : r.SnapshotDue pr') (fails : r.SnapshotFails pr' e) :
      Finishes r toId pr (.error e)

/-- A number of calls exceeds the messages that a peer takes or the indexes that are left for it. -/
def Enough (r : Raft) (pr : Progress) (calls : Nat) : Prop :=
  pr.room < calls ∨ pr.span r.raftLog.lastIndex < calls

/-- A peer that is not paused takes a message and has an index left. -/
theorem Enough.two_le {calls : Nat} (enough : r.Enough pr (calls + 1)) (flow : pr.Flow)
    (open' : pr.isPaused = false) :
    0 < pr.room ∧ 0 < calls := by
  have room : pr.room ≠ 0 := fun none => by
    rw [flow.room_eq_zero_iff.1 none] at open'
    cases open'
  have span : pr.span r.raftLog.lastIndex ≠ 0 := by
    unfold Progress.span
    unfold Progress.isPaused at open'
    cases state : pr.state with
    | replicate => simp
    | probe =>
        simp only [state] at open'
        simp [open']
    | snapshot => simp [state] at open'
  unfold Enough at enough
  omega

/-- The loop ends at a peer that is being sent a snapshot. -/
theorem sendAppendLoop_snapshot {calls : Nat} (positive : 0 < calls) (sending : pr.state = .snapshot) :
    sendAppendLoop toId calls r pr = .ok (r, pr) := by
  obtain ⟨fuel, rfl⟩ := Nat.exists_eq_succ_of_ne_zero positive.ne'
  have paused : pr.isPaused = true := by
    unfold Progress.isPaused
    rw [sending]
  unfold sendAppendLoop maybeSendAppend
  rw [if_pos paused]
  rfl

/-- The loop ends after enough calls, and further calls change nothing. -/
theorem sendAppendLoop_finishes {calls more : Nat} (wf : r.raftLog.WF) (flow : pr.Flow)
    (enough : r.Enough pr calls) (enough' : r.Enough pr more) :
    Finishes r toId pr (sendAppendLoop toId calls r pr) ∧
      sendAppendLoop toId more r pr = sendAppendLoop toId calls r pr := by
  -- The induction is on the calls: every successful one lowers the room and the span of the peer.
  induction calls generalizing more r pr with
  | zero => rcases enough with none | none <;> cases none
  | succ calls ih =>
      obtain ⟨more, rfl⟩ : ∃ n, more = n + 1 := by
        rcases enough' with some | some <;> exact Nat.exists_eq_succ_of_ne_zero (Nat.ne_zero_of_lt some)
      unfold sendAppendLoop
      have call : Drains r toId pr (r.maybeSendAppend toId pr false) := drains_maybeSendAppend wf flow
      generalize r.maybeSendAppend toId pr false = result at call
      cases call with
      | stop msgs drained => exact ⟨.drained (by rw [msgs]; omega) drained, rfl⟩
      | @entries msgs pr' one kept room span =>
          have next : { r with msgs }.Enough pr' calls := enough.imp (by omega) (by dsimp only; omega)
          have next' : { r with msgs }.Enough pr' more := enough'.imp (by omega) (by dsimp only; omega)
          obtain ⟨finishes, same⟩ := ih (r := { r with msgs }) wf kept next next'
          refine ⟨?_, same⟩
          simp only [ok_bind]
          cases finished : sendAppendLoop toId calls { r with msgs } pr' with
          | error e =>
              rw [finished] at finishes
              cases finishes with
              | fail due fails => exact .fail due fails
          | ok result =>
              rw [finished] at finishes
              cases finishes with
              | drained few drained =>
                  have few : _ ≤ msgs.length + pr'.room := few
                  exact .drained (by omega) drained
      | @snapshot r' pr' one open' sending =>
          obtain ⟨room, positive⟩ := enough.two_le flow open'
          obtain ⟨-, positive'⟩ := enough'.two_le flow open'
          simp only [ok_bind]
          rw [sendAppendLoop_snapshot positive sending, sendAppendLoop_snapshot positive' sending]
          refine ⟨.drained (by omega) (.inl ?_), rfl⟩
          unfold Progress.isPaused
          rw [sending]
      | fail due fails => exact ⟨.fail due fails, rfl⟩

/-- The messages that the loop may send to a peer: the free places of its window, or one to a peer
that does not replicate. -/
def sendLimit (pr : Progress) : Nat := if pr.state = .replicate then pr.ins.limit - pr.ins.count else 1

theorem room_le_sendLimit : pr.room ≤ sendLimit pr := by
  unfold Progress.room sendLimit
  cases pr.state with
  | replicate => exact le_rfl
  | probe => cases pr.paused <;> simp
  | snapshot => simp

theorem enough_aggressively : r.Enough pr (r.raftLog.lastIndex + 2 - pr.nextIdx + 2) := by
  right
  unfold Progress.span
  cases pr.state with
  | replicate =>
      simp only
      omega
  | probe => cases pr.paused <;> simp
  | snapshot => simp

end Raft

namespace Host

variable [ConfChangeCodec] {start host : Host} {ops : List HostOp}

/-- In every reachable leader the sending loop to a peer ends after as many calls as its window has
free places and one more, or after two calls to a peer that does not replicate; it ends at a peer
that is paused, has everything, or whose entries or snapshot the storage does not supply. -/
theorem send_append_bounded {rn : RawNode} {id : Nat} {pr : Progress} (tidy : start.Tidy)
    (stopped : start.raw = none) (formed : ∀ op ∈ ops, op.Tidy) (done : start.run ops = .ok host)
    (raw : host.raw = some rn) (idle : host.outstanding = none) (lead : rn.raft.state = .leader)
    (other : id ≠ rn.raft.id) (known : rn.raft.prs.get id = some pr) {calls : Nat}
    (enough : Raft.sendLimit pr + 1 ≤ calls) :
    (∃ r' pr', Raft.sendAppendLoop id calls rn.raft pr = .ok (r', pr') ∧
      rn.raft.sendAppendAggressively id = .ok { r' with prs := r'.prs.put id pr' } ∧
      r'.msgs.length ≤ rn.raft.msgs.length + Raft.sendLimit pr ∧
      (pr'.isPaused = true ∨ rn.raft.raftLog.lastIndex < pr'.nextIdx ∨
        (∃ e, rn.raft.nextEntries id pr' = .ok (.error e)) ∨
          (rn.raft.SnapshotDue pr' ∧ rn.raft.SnapshotWaits pr'))) ∨
    ∃ e pr', Raft.sendAppendLoop id calls rn.raft pr = .error e ∧
      rn.raft.sendAppendAggressively id = .error e ∧
      rn.raft.SnapshotDue pr' ∧ rn.raft.SnapshotFails pr' e := by
  obtain ⟨tidy, windowed⟩ := run_windowed tidy stopped formed done
  have wf : rn.raft.raftLog.WF := (tidy.idle rn raw idle).log.wf
  have flow : pr.Flow := (windowed rn raw lead).peers id pr other known
  have room : pr.room ≤ Raft.sendLimit pr := Raft.room_le_sendLimit
  have called : rn.raft.Enough pr calls := .inl (by omega)
  obtain ⟨finishes, same⟩ : Raft.Finishes rn.raft id pr _ ∧ _ :=
    Raft.sendAppendLoop_finishes wf flow called Raft.enough_aggressively
  have whole : rn.raft.sendAppendAggressively id =
      Raft.sendAppendLoop id calls rn.raft pr >>= fun x => .ok { x.1 with
        prs := x.1.prs.put id x.2 } := by
    unfold Raft.sendAppendAggressively Raft.withProgress
    simp only [known, same]
    rfl
  rw [whole]
  cases finished : Raft.sendAppendLoop id calls rn.raft pr with
  | error e =>
      rw [finished] at finishes
      cases finishes with
      | fail due fails => exact .inr ⟨e, _, rfl, rfl, due, fails⟩
  | ok result =>
      rw [finished] at finishes
      cases finishes with
      | drained few drained => exact .inl ⟨_, _, rfl, rfl, by omega, drained⟩

omit [ConfChangeCodec] in
/-- A leader of two voters whose window has one free place needs two calls at most. -/
theorem send_append_bounded_two : let _ := ConfChangeCodec.sample
    ∃ ops host rn pr, (fresh 1 { voters := [1, 2] }).run ops = .ok host ∧ host.raw = some rn ∧
      rn.raft.state = .leader ∧ rn.raft.prs.get 2 = some pr ∧ pr.state = .replicate ∧ pr.ins.count = 1 ∧
      Raft.sendLimit pr = 1 ∧
      ((∃ r' pr', Raft.sendAppendLoop 2 2 rn.raft pr = .ok (r', pr') ∧
        rn.raft.sendAppendAggressively 2 = .ok { r' with prs := r'.prs.put 2 pr' } ∧
        r'.msgs.length ≤ rn.raft.msgs.length + Raft.sendLimit pr ∧
        (pr'.isPaused = true ∨ rn.raft.raftLog.lastIndex < pr'.nextIdx ∨
          (∃ e, rn.raft.nextEntries 2 pr' = .ok (.error e)) ∨
            (rn.raft.SnapshotDue pr' ∧ rn.raft.SnapshotWaits pr'))) ∨
      ∃ e pr', Raft.sendAppendLoop 2 2 rn.raft pr = .error e ∧
        rn.raft.sendAppendAggressively 2 = .error e ∧
        rn.raft.SnapshotDue pr' ∧ rn.raft.SnapshotFails pr' e) := by
  intro _
  have passed : (fresh 1 { voters := [1, 2] }).ends
      [.restart { id := 1, maxInflightMsgs := 2 } fun _ => 0, .campaign,
        .deliver { msgType := .msgRequestVoteResponse, fromId := 2, toId := 1, term := 1 },
        .deliver { msgType := .msgAppendResponse, fromId := 2, toId := 1, term := 1, index := 1 },
        .propose [] [7]]
      (fun host => host.outstanding.isNone && host.raw.any fun rn => rn.raft.id == 1 &&
        rn.raft.state == .leader &&
        (rn.raft.prs.get 2).any fun pr => pr.state == .replicate && pr.ins.count == 1 &&
          decide (Raft.sendLimit pr = 1)) = true := by decide +kernel
  obtain ⟨host, done, tested⟩ := run_ends passed
  simp only [Bool.and_eq_true, beq_iff_eq, Option.any_eq_true, Option.isNone_iff_eq_none,
    decide_eq_true_eq] at tested
  obtain ⟨idle, rn, running, ⟨own, lead⟩, pr, known, ⟨replicates, count⟩, limit⟩ := tested
  refine ⟨_, host, rn, pr, done, running, lead, known, replicates, count, limit,
    send_append_bounded (tidy_fresh 1 { voters := [1, 2] }) rfl ?_ done running idle lead (by omega)
      known (by omega)⟩
  rw [List.forall_mem_cons, List.forall_mem_cons, List.forall_mem_cons, List.forall_mem_cons,
    List.forall_mem_cons]
  refine ⟨nofun, nofun, ?_, ?_, nofun, List.forall_mem_nil _⟩ <;>
  · intro m same
    cases same
    exact Message.tidy_of_kind nofun nofun

end Host

end RaftRs

import RaftRs.Act.Quiet

namespace RaftRs

open Library

/-- A node keeps its identity, its term, its role and its pending reads. -/
structure Raft.Steady (r r' : Raft) : Prop where
  id : r'.id = r.id
  term : r'.term = r.term
  state : r'.state = r.state
  reads : r'.readOnly = r.readOnly

/-- A node only sends: it also keeps its tracker. -/
structure Raft.Sending (r r' : Raft) : Prop extends Raft.Steady r r' where
  prs : r'.prs = r.prs

namespace Raft

variable {r r' r'' : Raft} {inp : Input → Prop}

theorem Steady.refl : Steady r r := ⟨rfl, rfl, rfl, rfl⟩

theorem Steady.trans (first : Steady r r') (second : Steady r' r'') : Steady r r'' :=
  ⟨second.id.trans first.id, second.term.trans first.term, second.state.trans first.state,
    second.reads.trans first.reads⟩

theorem Sending.refl : Sending r r := ⟨.refl, rfl⟩

theorem Sending.trans (first : Sending r r') (second : Sending r' r'') : Sending r r'' :=
  ⟨first.toSteady.trans second.toSteady, second.prs.trans first.prs⟩

/-- A message as it is queued. -/
def stamp (r : Raft) (m : Message) : Message :=
  r.stampPriority
    { m with
      fromId := if m.fromId = invalidId then r.id else m.fromId
      term := if m.msgType.isCampaign ∨ m.msgType = .msgPropose ∨
        m.msgType = .msgReadIndex then m.term else r.term }

/-- The term that a message carries when it is handed over for sending. -/
def Unsent (m : Message) : Prop := if m.msgType.isCampaign then m.term ≠ 0 else m.term = 0

theorem send_cases (r : Raft) (m : Message) :
    (r.send m = .error .invalidMessageTerm ∧ ¬ Unsent m) ∨
      (r.send m = .ok { r with msgs := r.msgs ++ [r.stamp m] } ∧ Unsent m) := by
  have kind : (if m.fromId = invalidId then { m with fromId := r.id } else m) =
      { m with fromId := if m.fromId = invalidId then r.id else m.fromId } := by
    split <;> rfl
  unfold send
  simp only [kind]
  unfold stampTerm stamp Unsent
  simp only
  by_cases campaign : m.msgType.isCampaign = true
  · by_cases zero : m.term = 0
    · left
      simp [campaign, zero, Bind.bind, Except.bind]
    · right
      simp [campaign, zero, Bind.bind, Except.bind, pure, Except.pure]
  · by_cases zero : m.term = 0
    · right
      by_cases plain : m.msgType = .msgPropose ∨ m.msgType = .msgReadIndex
      · rcases plain with plain | plain <;>
          simp [plain, zero, MessageType.isCampaign, Bind.bind, Except.bind, pure, Except.pure]
      · push Not at plain
        simp [campaign, zero, plain.1, plain.2, Bind.bind, Except.bind, pure, Except.pure]
    · left
      simp [campaign, zero, Bind.bind, Except.bind]

theorem send_ok (r : Raft) {m : Message} (unsent : Unsent m) :
    r.send m = .ok { r with msgs := r.msgs ++ [r.stamp m] } := by
  rcases r.send_cases m with ⟨-, wrong⟩ | ⟨sent, -⟩
  · exact absurd unsent wrong
  · exact sent

theorem send_append (r : Raft) {m : Message} (kind : m.msgType.isCampaign = false) (unset : m.term = 0) :
    r.send m = .ok { r with msgs := r.msgs ++ [r.stamp m] } := by
  refine r.send_ok ?_
  rw [Unsent, kind]
  exact unset

theorem does_send_or {m : Message} (sound : Unsent m ∨ Faults inp r.core .invalidMessageTerm)
    (sends : Unsent m → Sends inp r.core (r.stamp m)) :
    Does inp r.core (r.send m) core fun r' => r' = { r with msgs := r.msgs ++ [r.stamp m] } := by
  rcases r.send_cases m with ⟨failed, wrong⟩ | ⟨sent, unsent⟩
  · rw [failed]
    exact .fault (sound.resolve_left wrong)
  · rw [sent]
    exact .pure (Act.send (sends unsent)).acts rfl

theorem does_send {m : Message} (sends : Sends inp r.core (r.stamp m)) (unsent : Unsent m := by rfl) :
    Does inp r.core (r.send m) core fun r' => r' = { r with msgs := r.msgs ++ [r.stamp m] } :=
  does_send_or (.inl unsent) fun _ => sends

theorem does_send_with {m : Message} {toId : Nat} {pr : Progress}
    (sends : Sends inp (r.coreWith toId pr) (r.stamp m)) (unsent : Unsent m := by rfl) :
    Does inp (r.coreWith toId pr) (r.send m) (coreWith · toId pr) (Sending r) := by
  rw [r.send_ok unsent]
  exact .pure (Act.send sends).acts ⟨⟨rfl, rfl, rfl, rfl⟩, rfl⟩

end Raft

/-- A snapshot leaves the log as it is unless it is temporarily unavailable. -/
theorem RaftLog.snapshot_cases {log log' : RaftLog} {requestIndex : Nat}
    {result : Except StorageError Snapshot} (taken : log.snapshot requestIndex = .ok (log', result)) :
    (∃ snapshot, result = .ok snapshot ∧ log' = log) ∨
      (result = .error .snapshotTemporarilyUnavailable ∧
        log' = { log with store := { log.store with triggerSnapUnavailable := false } }) := by
  have stored : ∀ {store}, log.store.snapshot requestIndex = .ok (store, result) →
      { log with store } = log' → (∃ snapshot, result = .ok snapshot ∧ log' = log) ∨
        (result = .error .snapshotTemporarilyUnavailable ∧
          log' = { log with store := { log.store with triggerSnapUnavailable := false } }) := by
    rintro store read rfl
    unfold MemStorage.snapshot at read
    split at read
    · obtain ⟨rfl, rfl⟩ := ok_pair_inj read
      exact .inr ⟨rfl, rfl⟩
    · obtain ⟨snap, _, rest⟩ := bind_eq_ok.1 read
      left
      split at rest <;> obtain ⟨rfl, rfl⟩ := ok_pair_inj rest <;> exact ⟨_, rfl, rfl⟩
  unfold RaftLog.snapshot at taken
  simp only at taken
  split at taken
  · split at taken
    · obtain ⟨rfl, rfl⟩ := ok_pair_inj taken
      exact .inl ⟨_, rfl, rfl⟩
    · obtain ⟨⟨store, found⟩, read, same⟩ := bind_eq_ok.1 taken
      obtain ⟨log, rfl⟩ := ok_pair_inj same
      exact stored read log
  · obtain ⟨⟨store, found⟩, read, same⟩ := bind_eq_ok.1 taken
    obtain ⟨log, rfl⟩ := ok_pair_inj same
    exact stored read log

/-- A sent message moves the next index behind its last entry or pauses the probe. -/
theorem Progress.updateState_position {pr pr' : Progress} {last : Nat}
    (done : pr.updateState last = .ok pr') :
    pr'.position = pr.position ∨ pr'.position = { pr.position with nextIdx := last + 1 } := by
  unfold Progress.updateState at done
  split at done
  · obtain ⟨ins, _, same⟩ := bind_eq_ok.1 done
    obtain rfl := Except.ok.inj same
    exact .inr rfl
  · obtain rfl := Except.ok.inj done
    exact .inl rfl
  · cases done

theorem Progress.quiet_updateState (pr : Progress) (last : Nat) (free : pr.isPaused = false) :
    Quiet (pr.updateState last) := by
  unfold Progress.isPaused at free
  unfold Progress.updateState
  split
  next replicating =>
    rw [replicating] at free
    exact (pr.ins.quiet_add last free).bind fun _ => quiet_ok
  next => exact quiet_ok
  next sending =>
    rw [sending] at free
    cases free

end RaftRs

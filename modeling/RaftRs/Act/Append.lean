import RaftRs.Act.Send

namespace RaftRs

open Library

@[simp] theorem Core.at'_at' (c : Core) (id : Nat) (first second : Position) :
    (c.at' id first).at' id second = c.at' id second := by
  simp [Core.at']

namespace Raft

variable {r : Raft} {inp : Input → Prop} {toId : Nat} {pr : Progress}

theorem positions_coreWith : (r.coreWith toId pr).positions toId = some pr.position := by
  simp [coreWith, Core.at']

theorem coreWith_congr {pr' : Progress} (same : pr'.position = pr.position) :
    r.coreWith toId pr' = r.coreWith toId pr := by
  unfold coreWith
  rw [same]

theorem does_sendSnapshot (role : r.state = .leader) (other : Addressee inp r.core toId) :
    Does inp (r.coreWith toId pr) (r.sendSnapshot toId pr) (fun x => x.1.coreWith toId x.2.1)
      fun x => Sending r x.1 := by
  unfold sendSnapshot prepareSendSnapshot
  split
  · exact .pure .refl .refl
  simp only [bind_assoc]
  refine .read (r.raftLog.quiet_snapshot _) fun ⟨log, result⟩ taken => ?_
  rcases RaftLog.snapshot_cases taken with ⟨snapshot, rfl, rfl⟩ | ⟨rfl, rfl⟩
  · by_cases empty : snapshot.metadata.index = 0
    · simp only [empty, if_true]
      exact .fail not_false
    · simp only [empty, if_false]
      have sent := r.send_ok (m := { toId, msgType := .msgSnapshot, snapshot }) rfl
      simp only [pure_bind, sent]
      have act : Act inp (r.coreWith toId pr) _ :=
        .sendSnapshot role other positions_coreWith taken empty
      refine .pure (act.acts_to ?_) ⟨⟨rfl, rfl, rfl, rfl⟩, rfl⟩
      simp [coreWith, Core.push, Core.at', core, Progress.position, Progress.becomeSnapshot,
        Progress.resetState, stamp, stampPriority, MessageType.isCampaign, invalidId]
  · exact .pure Act.trigger.acts ⟨⟨rfl, rfl, rfl, rfl⟩, rfl⟩

/-- The positions move behind the sent entries. -/
theorem acts_updateState {pr' : Progress} {ents : List Entry} {last : Entry} {maxSize : Option Nat}
    {context : GetEntriesFor} (read : r.raftLog.entries pr.nextIdx maxSize context = .ok (.ok ents))
    (ends : ents.getLast? = some last) (done : pr.updateState last.index = .ok pr') :
    Acts inp (r.coreWith toId pr) (r.coreWith toId pr') := by
  rcases Progress.updateState_position done with same | moved
  · rw [coreWith_congr same]
  · have act : Act inp (r.coreWith toId pr) _ := .sent positions_coreWith read ends
    refine act.acts_to ?_
    rw [coreWith, Core.at'_at', coreWith, moved]

/-- The message that carries entries to a follower. -/
def appendMessage (r : Raft) (toId : Nat) (pr : Progress) (term : Nat) (ents : List Entry) : Message :=
  { toId, msgType := .msgAppend, index := pr.nextIdx - 1, logTerm := term, entries := ents
    commit := r.raftLog.committed }

theorem does_sendEntries {term : Nat} {ents : List Entry} {maxSize : Option Nat}
    {context : GetEntriesFor} (role : r.state = .leader) (other : Addressee inp r.core toId)
    (free : pr.isPaused = false) (known : r.raftLog.term (pr.nextIdx - 1) = .ok term)
    (read : r.raftLog.entries pr.nextIdx maxSize context = .ok (.ok ents)) :
    Does inp (r.coreWith toId pr) (r.sendEntries toId pr term ents) (fun x => x.1.coreWith toId x.2.1)
      fun x => Sending r x.1 := by
  have sends : Sends inp (r.coreWith toId pr) (r.stamp (r.appendMessage toId pr term ents)) :=
    .append (c := r.coreWith toId pr) role other positions_coreWith known read
  unfold sendEntries prepareSendEntries
  have sent := r.send_ok (m := r.appendMessage toId pr term ents) rfl
  refine .after (Act.send sends).acts ?_
  unfold appendMessage at sent
  cases ends : ents.getLast? with
  | none =>
      simp only [ok_bind, sent]
      exact .pure .refl ⟨⟨rfl, rfl, rfl, rfl⟩, rfl⟩
  | some last =>
      simp only [bind_assoc, pure_bind, sent]
      refine .read (pr.quiet_updateState _ free) fun pr' done => ?_
      exact .pure (acts_updateState (r := { r with msgs := _ }) read ends done)
        ⟨⟨rfl, rfl, rfl, rfl⟩, rfl⟩

theorem batchInto_ok {committed : Nat} {pr' : Progress} {ents : List Entry} {msgs msgs' : List Message}
    (done : batchInto committed toId pr ents msgs = .ok (some (msgs', pr'))) :
    ∃ before msg after, msgs = before ++ msg :: after ∧
      msgs' = before ++ { msg with entries := msg.entries ++ ents, commit := committed } :: after ∧
      msg.msgType = .msgAppend ∧ msg.toId = toId ∧ (ents = [] ∨ isContinuousEnts msg ents = true) ∧
      (pr' = pr ∨ ∃ last, ents.getLast? = some last ∧ pr.updateState last.index = .ok pr') := by
  induction msgs generalizing msgs' with
  | nil => cases done
  | cons msg rest ih =>
      unfold batchInto at done
      split at done
      next target =>
        split at done
        next empty =>
          obtain ⟨rfl, rfl⟩ := Prod.mk.inj (Option.some.inj (Except.ok.inj done))
          obtain rfl := List.getLast?_eq_none_iff.1 empty
          exact ⟨[], msg, rest, rfl, by simp, target.1, target.2, .inl rfl, .inl rfl⟩
        next last ends =>
          split at done
          next continuous =>
            obtain ⟨moved, updated, same⟩ := bind_eq_ok.1 done
            obtain ⟨rfl, rfl⟩ := Prod.mk.inj (Option.some.inj (Except.ok.inj same))
            exact ⟨[], msg, rest, rfl, rfl, target.1, target.2, .inr continuous,
              .inr ⟨last, ends, updated⟩⟩
          next => cases done
      next =>
        obtain ⟨result, found, same⟩ := bind_eq_ok.1 done
        cases result with
        | none => cases same
        | some result =>
            obtain ⟨rfl, rfl⟩ := Prod.mk.inj (Option.some.inj (Except.ok.inj same))
            obtain ⟨before, hit, after, rfl, same, rest⟩ := ih found
            exact ⟨msg :: before, hit, after, rfl, by rw [same]; rfl, rest⟩

/-- Batching for a progress that may send is quiet. -/
theorem quiet_batchInto (committed toId : Nat) {pr : Progress} (ents : List Entry) (msgs : List Message)
    (free : pr.isPaused = false) : Quiet (batchInto committed toId pr ents msgs) := by
  induction msgs with
  | nil => exact quiet_ok
  | cons msg rest ih =>
      unfold batchInto
      split
      · split
        · exact quiet_ok
        split
        · exact (pr.quiet_updateState _ free).bind fun _ => quiet_ok
        · exact quiet_ok
      · refine ih.bind fun result => ?_
        split <;> exact quiet_ok

/-- Entries are batched by one change and the positions follow. -/
theorem acts_tryBatching {pr' : Progress} {ents : List Entry} {maxSize : Option Nat}
    {context : GetEntriesFor} {msgs : List Message} (role : r.state = .leader)
    (enabled : r.batchAppend = true)
    (read : r.raftLog.entries pr.nextIdx maxSize context = .ok (.ok ents))
    (done : r.tryBatching toId pr ents = .ok (some (msgs, pr'))) :
    Acts inp (r.coreWith toId pr) ({ r with msgs }.coreWith toId pr') := by
  obtain ⟨before, msg, after, queued, rfl, kind, receiver, continuous, moved⟩ := batchInto_ok done
  have act : Act inp (r.coreWith toId pr) _ :=
    .batch role enabled positions_coreWith read queued kind receiver continuous
  refine act.acts.trans ?_
  rcases moved with rfl | ⟨last, ends, updated⟩
  · exact .refl
  · exact acts_updateState (r := { r with msgs := _ }) read ends updated

theorem does_maybeSendAppend (allowEmpty : Bool) (role : r.state = .leader)
    (other : Addressee inp r.core toId) :
    Does inp (r.coreWith toId pr) (r.maybeSendAppend toId pr allowEmpty)
    (fun x => x.1.coreWith toId x.2.1)
      fun x => Sending r x.1 := by
  unfold maybeSendAppend
  split
  · exact .pure .refl .refl
  rename_i paused
  have free : pr.isPaused = false := by simpa using paused
  split
  · exact does_sendSnapshot role other
  refine .read (r.raftLog.quiet_entries ..) fun ents read => ?_
  have stay : Does inp (r.coreWith toId pr) (.ok (r, pr, false)) (fun x => x.1.coreWith toId x.2.1)
      fun x => Sending r x.1 := .pure .refl .refl
  cases ents with
  | error error =>
      simp only
      split
      · exact stay
      split
      next impossible => cases impossible
      next => exact stay
      next => exact does_sendSnapshot role other
  | ok ents =>
      simp only
      split
      · exact stay
      split
      next term ents' known same =>
        cases same
        split
        next enabled =>
          refine .read (quiet_batchInto _ _ _ _ free) fun result batched => ?_
          split
          next msgs pr' =>
            exact .pure (acts_tryBatching role enabled read batched) ⟨⟨rfl, rfl, rfl, rfl⟩, rfl⟩
          next => exact does_sendEntries role other free known read
        next => exact does_sendEntries role other free known read
      next => exact stay
      next => exact does_sendSnapshot role other

theorem does_sendAppendLoop (fuel : Nat) (role : r.state = .leader) (other : Addressee inp r.core toId) :
    Does inp (r.coreWith toId pr) (sendAppendLoop toId fuel r pr) (fun x => x.1.coreWith toId x.2)
      fun x => Sending r x.1 := by
  induction fuel generalizing r pr with
  | zero => exact .fail not_false
  | succ fuel ih =>
      refine (does_maybeSendAppend false role other).bind fun ⟨r', pr', more⟩ sending => ?_
      cases more with
      | false => exact .pure .refl sending
      | true =>
          have sending : Sending r r' := sending
          have role' : r'.state = .leader := sending.state.trans role
          have other' : Addressee inp r'.core toId := by
            simpa only [Addressee, core, sending.id] using other
          exact (ih role' other').mono fun x rest => sending.trans rest

theorem does_withProgress {id : Nat} {action : Raft → Progress → Except Fatal (Raft × Progress)}
    (does : ∀ pr, Does inp (r.coreWith id pr) (action r pr) (fun x => x.1.coreWith id x.2) fun x =>
      Sending r x.1) :
    Does inp r.core (r.withProgress id action) core (Steady r) := by
  unfold withProgress
  split
  · exact .fail not_false
  next pr known =>
    rw [← r.coreWith_get known]
    refine (does pr).bind fun ⟨r', pr'⟩ sending => ?_
    have sending : Sending r r' := sending
    have tracked : (r'.prs.get id).isSome := by simp [sending.prs, known]
    refine .pure ?_ ⟨sending.id, sending.term, sending.state, sending.reads⟩
    rw [r'.core_put tracked]

theorem does_sendAppend (role : r.state = .leader) (other : Addressee inp r.core toId) :
    Does inp r.core (r.sendAppend toId) core (Steady r) :=
  does_withProgress fun _ => (does_maybeSendAppend true role other).bind
    fun _ sending => .pure .refl sending

theorem does_sendAppendAggressively (role : r.state = .leader) (other : Addressee inp r.core toId) :
    Does inp r.core (r.sendAppendAggressively toId) core (Steady r) :=
  does_withProgress fun _ => does_sendAppendLoop _ role other

theorem does_peers {step : Raft → Nat → Except Fatal Raft} (role : r.state = .leader)
    (each : ∀ r' id, r'.state = .leader → id ≠ r'.id → Does inp r'.core (step r' id) core (Steady r')) :
    Does inp r.core (r.peers.foldlM step r) core (Steady r) := by
  refine Does.foldlM r.peers (fun id inside r' steady => ?_) r .refl
  have other : id ≠ r.id := by simpa [peers] using (List.mem_filter.1 inside).2
  exact (each r' id (steady.state.trans role) (steady.id ▸ other)).mono fun _ more => steady.trans more

theorem does_bcastAppend (role : r.state = .leader) : Does inp r.core r.bcastAppend core (Steady r) :=
  does_peers role fun _ _ role other => does_sendAppend role (.inl other)

theorem does_probePeers (role : r.state = .leader) : Does inp r.core r.probePeers core (Steady r) :=
  does_peers role fun _ _ role other => does_withProgress fun _ =>
    (does_maybeSendAppend false role (.inl other)).bind fun _ sending => .pure .refl sending

end Raft

end RaftRs

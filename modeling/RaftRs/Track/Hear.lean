import RaftRs.Conf.Quorums
import RaftRs.Track.Drive
import Mathlib.Data.Finset.Insert

namespace RaftRs

open Library

namespace Raft

variable {r r' : Raft} {heard : Finset Nat} {m : Message} {own : Nat} {activity : Nat → Option Bool}

/-- A message is a response of the current term from a tracked node; one without a term counts as
current. -/
def HearsFrom (r : Raft) (m : Message) : Prop :=
  (m.msgType = .msgAppendResponse ∨ m.msgType = .msgHeartbeatResponse) ∧ (m.term = 0 ∨ m.term = r.term) ∧
    (r.prs.get m.fromId).isSome = true

instance : Decidable (r.HearsFrom m) := inferInstanceAs (Decidable (_ ∧ _ ∧ _))

/-- The next tick of a leader checks its quorum. -/
def ChecksQuorum (r : Raft) : Prop := r.electionTimeout ≤ r.electionElapsed + 1 ∧ r.checkQuorum = true

instance : Decidable r.ChecksQuorum := inferInstanceAs (Decidable (_ ∧ _))

/-- The nodes that count as heard after changes of the tracked nodes: added ones do, removed ones do
not. -/
def changedHeard (changes : MapChange) (heard : Finset Nat) : Finset Nat :=
  changes.foldl (fun heard change => match change.2 with
    | .add => insert change.1 heard
    | .remove => heard.erase change.1) heard

/-- The nodes that a leader has heard from since its last check, after an operation that calls
it. -/
def heardAfter (r : Raft) (heard : Finset Nat) : HostOp → Finset Nat
  | .tick => if r.ChecksQuorum then ∅ else heard
  | .deliver m => if r.HearsFrom m then insert m.fromId heard else heard
  | .applyConfChange cc => changedHeard (r.mapChange cc) heard
  | _ => heard

/-- The activity marks of the peers are those of the heard nodes. -/
structure Recalls (own : Nat) (activity : Nat → Option Bool) (heard : Finset Nat) : Prop where
  tracked : ∀ id ∈ heard, (activity id).isSome = true
  marked : ∀ id, id ≠ own → (activity id = some true ↔ id ∈ heard)

theorem recalls_empty (idle : ∀ id, id ≠ own → activity id ≠ some true) : Recalls own activity ∅ where
  tracked _ inside := absurd inside (Finset.notMem_empty _)
  marked id other := iff_of_false (idle id other) (Finset.notMem_empty id)

/-- A marked node is heard. -/
theorem Recalls.hear (recalls : Recalls own activity heard) (peer : Nat) :
    Recalls own (Function.update activity peer (some true)) (insert peer heard) where
  tracked id inside := by
    by_cases same : id = peer
    · rw [same, Function.update_self]
      rfl
    · rw [Function.update_of_ne same]
      exact recalls.tracked id (Finset.mem_of_mem_insert_of_ne inside same)
  marked id other := by
    by_cases same : id = peer
    · rw [same, Function.update_self]
      exact iff_of_true rfl (Finset.mem_insert_self _ _)
    · rw [Function.update_of_ne same, recalls.marked id other, Finset.mem_insert, or_iff_right same]

/-- A forgotten node is no more heard. -/
theorem Recalls.forget (recalls : Recalls own activity heard) (peer : Nat) :
    Recalls own (Function.update activity peer none) (heard.erase peer) where
  tracked id inside := by
    obtain ⟨other, inside⟩ := Finset.mem_erase.1 inside
    rw [Function.update_of_ne other]
    exact recalls.tracked id inside
  marked id other := by
    by_cases same : id = peer
    · rw [same, Function.update_self]
      exact iff_of_false nofun (Finset.notMem_erase _ _)
    · rw [Function.update_of_ne same, recalls.marked id other, Finset.mem_erase, and_iff_right same]

/-- Changes of the tracked nodes mark the nodes that they let count as heard. -/
theorem Recalls.changed (recalls : Recalls own activity heard) (changes : MapChange) :
    Recalls own (changedActivity changes activity) (changedHeard changes heard) := by
  unfold changedActivity changedHeard
  induction changes generalizing activity heard with
  | nil => exact recalls
  | cons change rest ih =>
      rw [List.foldl_cons, List.foldl_cons]
      obtain ⟨peer, type⟩ := change
      cases type with
      | add => exact ih (recalls.hear peer)
      | remove => exact ih (recalls.forget peer)

/-- A delivered message marks its sender when it is a response that counts. -/
theorem Recalls.delivered (recalls : Recalls r.id r.activity heard) (m : Message) :
    Recalls r.id (r.activityOf (.deliver m)) (r.heardAfter heard (.deliver m)) := by
  unfold activityOf heardAfter
  simp only
  by_cases hears : r.HearsFrom m
  · rw [if_pos hears]
    obtain ⟨kind, current, known⟩ := hears
    have foreign : isLocalMsg m.msgType = false := by rcases kind with kind | kind <;> rw [kind] <;> rfl
    have after : r.activityAfter m = Function.update r.activity m.fromId (some true) := by
      unfold activityAfter
      rw [if_pos current]
      rcases kind with kind | kind <;> rw [kind] <;> exact if_pos known
    rw [foreign, if_neg nofun, after]
    exact recalls.hear m.fromId
  · rw [if_neg hears]
    have same : (if isLocalMsg m.msgType = true then r.activity else r.activityAfter m) =
        r.activity := by
      split
      · rfl
      next foreign =>
        have check : m.msgType ≠ .msgCheckQuorum := fun kind => foreign (by rw [kind]; rfl)
        by_cases response : m.msgType = .msgAppendResponse ∨ m.msgType = .msgHeartbeatResponse
        · by_cases current : m.term = 0 ∨ m.term = r.term
          · have absent : r.prs.get m.fromId = none := by
              rw [← Option.not_isSome_iff_eq_none]
              exact fun known => hears ⟨response, current, known⟩
            exact activityAfter_unknown absent check
          · exact if_neg current
        · obtain ⟨append, heartbeat⟩ := not_or.1 response
          exact activityAfter_other append heartbeat check
    rw [same]
    exact recalls

theorem Recalls.after (recalls : Recalls r.id r.activity heard) (op : HostOp) :
    Recalls r.id (r.activityOf op) (r.heardAfter heard op) := by
  cases op with
  | tick =>
      show Recalls r.id r.tickActivity (if r.ChecksQuorum then ∅ else heard)
      by_cases due : r.ChecksQuorum
      · have cleared : r.tickActivity = r.clearedActivity := if_pos due
        rw [if_pos due, cleared]
        refine recalls_empty fun id other marked => ?_
        obtain ⟨_, -, same⟩ := Option.map_eq_some_iff.1 marked
        exact other (beq_iff_eq.1 same)
      · have kept : r.tickActivity = r.activity := if_neg due
        rw [if_neg due, kept]
        exact recalls
  | deliver m => exact recalls.delivered m
  | applyConfChange cc => exact recalls.changed (r.mapChange cc)
  | _ => exact recalls

theorem checkQuorumActive_iff (recalls : Recalls r.id r.activity heard) :
    r.checkQuorumActive.2 = true ↔
      r.prs.conf.voters.Agrees fun id => (id = r.id ∧ (r.prs.get id).isSome = true) ∨ id ∈ heard := by
  have active : ∀ id, (id ∈ (KeySet.ofList ((r.prs.progress.entries.filter fun entry =>
      entry.1 == r.id || entry.2.recentActive).map Prod.fst)).elems) ↔
        (id = r.id ∧ (r.prs.get id).isSome = true) ∨ id ∈ heard := by
    intro id
    rw [KeySet.mem_ofList, List.mem_map]
    constructor
    · rintro ⟨⟨peer, pr⟩, inside, rfl⟩
      obtain ⟨inside, active⟩ := List.mem_filter.1 inside
      have known : r.prs.get peer = some pr := (r.prs.progress.mem_entries peer pr).1 inside
      by_cases self : peer = r.id
      · exact .inl ⟨self, by rw [known]; rfl⟩
      · right
        show peer ∈ heard
        rw [← recalls.marked peer self, activity, known]
        simpa [self] using active
    · intro counts
      have known : (r.activity id).isSome = true := by
        rcases counts with ⟨-, known⟩ | inside
        · simpa [activity] using known
        · exact recalls.tracked id inside
      obtain ⟨pr, found⟩ : ∃ pr, r.prs.get id = some pr := by
        rw [← Option.isSome_iff_exists]
        simpa [activity] using known
      refine ⟨(id, pr), List.mem_filter.2 ⟨(r.prs.progress.mem_entries id pr).2 found, ?_⟩, rfl⟩
      by_cases self : id = r.id
      · simp [self]
      · have inside : id ∈ heard := counts.resolve_left fun both => self both.1
        have marked := (recalls.marked id self).2 inside
        rw [activity, found] at marked
        simpa [self] using marked
  show r.prs.hasQuorum _ = true ↔ _
  rw [ProgressTracker.hasQuorum_iff]
  simp only [active]

/-- A leader that steps a check of its quorum stays leader when the quorum is active. -/
theorem step_checkQuorum [ConfChangeCodec] (role : r.state = .leader)
    (kind : m.msgType = .msgCheckQuorum) (current : m.term = 0 ∨ m.term = r.term) :
    ∃ r', r.step m = .ok (r', .ok ()) ∧ (r'.state = .leader ↔ r.checkQuorumActive.2 = true) := by
  have accepted : r.handleTerm m = .ok (r, true) := by
    unfold handleTerm
    split
    · rfl
    next nonzero =>
      have same := current.resolve_left nonzero
      rw [if_neg (by omega), if_neg (by omega)]
  have stepped : r.step m = r.stepLeader m := by
    unfold step
    rw [accepted, ok_bind]
    show r.dispatch m = r.stepLeader m
    unfold dispatch
    rw [kind, role]
  rw [stepped]
  unfold stepLeader
  rw [kind]
  simp only
  split
  next r₁ checked => exact ⟨r₁, rfl, iff_of_true (by
    rw [← show r.checkQuorumActive.1 = r₁ from congrArg Prod.fst checked]
    exact role) (by rw [checked])⟩
  next r₁ checked => exact ⟨_, rfl, iff_of_false nofun (by rw [checked]; nofun)⟩

/-- A leader at its election timeout stays leader when the quorum is active. -/
theorem tickQuorum_checkQuorum [ConfChangeCodec] (role : r.state = .leader)
    (due : r.electionTimeout ≤ r.electionElapsed) (enabled : r.checkQuorum = true) :
    ∃ x, r.tickQuorum = .ok x ∧ (x.1.state = .leader ↔ r.checkQuorumActive.2 = true) := by
  obtain ⟨r₁, stepped, stays⟩ := step_checkQuorum (r := { r with electionElapsed := 0 })
    (m := newMessage invalidId .msgCheckQuorum r.id) role rfl (.inl rfl)
  unfold tickQuorum
  simp only [if_pos due]
  rw [if_pos enabled, stepped]
  refine ⟨_, rfl, Iff.trans ?_ stays⟩
  simp only
  split <;> rfl

/-- A leader whose tick checks its quorum stays leader when the quorum is active. -/
theorem tick_checkQuorum [ConfChangeCodec] (role : r.state = .leader) (due : r.ChecksQuorum) :
    Yields r.tick fun x => x.1.state = .leader ↔ r.checkQuorumActive.2 = true := by
  have ticks : r.tick = r.tickHeartbeat := by
    unfold tick
    rw [role]
  rw [ticks]
  unfold tickHeartbeat
  obtain ⟨⟨r₁, hasReady⟩, checked, stays⟩ := tickQuorum_checkQuorum
    (r := { r with
      heartbeatElapsed := r.heartbeatElapsed + 1, electionElapsed := r.electionElapsed + 1 }) role due.1
    due.2
  have stays : r₁.state = .leader ↔ r.checkQuorumActive.2 = true := stays
  simp only
  rw [checked, ok_bind]
  simp only
  split
  · exact stays
  next lead =>
    have lead : r₁.state = .leader := by simpa using lead
    split
    · rw [step_own (r := { r₁ with heartbeatElapsed := 0 }) lead rfl (fun kind => by cases kind)
        (fun kind => by cases kind) (fun kind => by cases kind)]
      have beats :
          Yields ({ r₁ with heartbeatElapsed := 0 }.stepLeader (newMessage invalidId .msgBeat r₁.id))
          fun x => x.1.state = .leader :=
        (tracks_bcastHeartbeatWithCtx _).bind fun r₂ (tracks : Tracks 0 _ r₂) => tracks.state.trans lead
      exact beats.bind fun x leads => iff_of_true leads (stays.1 lead)
    · exact stays

end Raft

namespace Host

variable [ConfChangeCodec] {start host host' : Host} {op : HostOp} {ops : List HostOp}
  {sent : List Message}
  {heard : Finset Nat} {rn rn' : RawNode}

/-- The nodes that the leader of a machine has heard from after an operation; a machine that still
handles a Ready is not called. -/
def heardAfter (host : Host) (heard : Finset Nat) (op : HostOp) : Finset Nat :=
  match host.raw, host.outstanding with
  | some rn, none => rn.raft.heardAfter heard op
  | _, _ => heard

/-- A run elects a leader and leads on; the heard nodes are those that responded or were added since
the election or the last check of the quorum. -/
inductive Hears (start : Host) : Host → Finset Nat → Prop where
  | elected {host host' : Host} {ops : List HostOp} {op : HostOp} {sent : List Message} {rn' : RawNode}
      (done : start.run ops = .ok host) (formed : ∀ op ∈ ops, op.Tidy) (formed' : op.Tidy)
      (stepped : host.step op = .ok (host', sent)) (running : host'.raw = some rn')
      (leads : rn'.raft.state = .leader)
      (new : ∀ rn, host.raw = some rn → rn.raft.state = .leader → rn.raft.term ≠ rn'.raft.term) :
      Hears start host' ∅
  | next {host host' : Host} {heard : Finset Nat} {op : HostOp} {sent : List Message} {rn rn' : RawNode}
      (before : Hears start host heard) (formed : op.Tidy) (stepped : host.step op = .ok (host', sent))
      (raw : host.raw = some rn) (running : host'.raw = some rn') (leads : rn'.raft.state = .leader)
      (same : rn'.raft.term = rn.raft.term) : Hears start host' (host.heardAfter heard op)

omit [ConfChangeCodec] in
theorem heardAfter_uncalled (uncalled : op.Calls → host.outstanding ≠ none) :
    host.heardAfter heard op = heard := by
  unfold heardAfter
  split
  next rn raw idle =>
    cases op with
    | tick | deliver | applyConfChange => exact absurd idle (uncalled trivial)
    | _ => rfl
  next => rfl

/-- The marks of a leader are those of the nodes that it has heard from. -/
theorem Hears.recalls (tidy : start.Tidy) (hears : start.Hears host heard) :
    host.Tidy ∧ ∃ rn, host.raw = some rn ∧ rn.raft.state = .leader ∧
      Raft.Recalls rn.raft.id rn.raft.activity heard := by
  induction hears with
  | @elected host host' ops op sent rn' done formed formed' stepped running leads new =>
      have before := run_tidy tidy formed done
      refine ⟨step_tidy before formed' stepped, rn', running, leads, ?_⟩
      cases step_reaches before stepped running with
      | @call rn raw idle calls sound forward called =>
          rcases called.2 sound leads with ⟨leader, tends, -⟩ | ⟨elected, -⟩
          · exact absurd tends.term.symm (new rn raw leader)
          · exact Raft.recalls_empty fun id _ => elected.idle id
      | @rest rn raw uncalled rests =>
          have views := rests.views
          exact absurd views.term.symm (new rn raw (views.state.symm.trans leads))
      | start stopped of done starts =>
          have follows : rn'.raft.state = .follower := congrArg Core.state starts.core
          cases follows.symm.trans leads
  | @next host host' heard op sent rn rn' before formed stepped raw running leads same ih =>
      obtain ⟨before, other, raw', leader, recalls⟩ := ih
      obtain rfl := Option.some.inj (raw.symm.trans raw')
      refine ⟨step_tidy before formed stepped, rn', running, leads, ?_⟩
      cases step_reaches before stepped running with
      | @call other raw' idle calls sound forward called =>
          obtain rfl := Option.some.inj (raw.symm.trans raw')
          have after : host.heardAfter heard op = rn.raft.heardAfter heard op := by
            unfold heardAfter
            rw [raw, idle]
          rcases called.2 sound leads with ⟨-, tends, activity⟩ | ⟨-, -, later⟩
          · rw [after, activity, tends.id]
            exact recalls.after op
          · exact absurd same (later leader).ne'
      | @rest other raw' uncalled rests =>
          obtain rfl := Option.some.inj (raw.symm.trans raw')
          have views := rests.views
          rw [heardAfter_uncalled uncalled, views.activity, views.id]
          exact recalls
      | start stopped of done starts => cases stopped.symm.trans raw

/-- A leader that processes a check of its quorum stays leader exactly when itself, if it is
tracked, and the nodes that responded or were added since its election or its last check are a
quorum of its configuration. -/
theorem check_quorum (tidy : start.Tidy) (hears : start.Hears host heard) (raw : host.raw = some rn) :
    (∀ m : Message, m.msgType = .msgCheckQuorum → m.term = 0 ∨ m.term = rn.raft.term →
      ∃ r, rn.raft.step m = .ok (r, .ok ()) ∧
        (r.state = .leader ↔ rn.raft.prs.conf.voters.Agrees fun id =>
        (id = rn.raft.id ∧ (rn.raft.prs.get id).isSome = true) ∨ id ∈ heard)) ∧
    (rn.raft.ChecksQuorum → host.outstanding = none → ∀ host' sent, host.step .tick = .ok (host', sent) →
      ∃ rn', host'.raw = some rn' ∧ (rn'.raft.state = .leader ↔ rn.raft.prs.conf.voters.Agrees fun id =>
        (id = rn.raft.id ∧ (rn.raft.prs.get id).isSome = true) ∨ id ∈ heard)) := by
  obtain ⟨-, other, raw', leader, recalls⟩ := hears.recalls tidy
  obtain rfl := Option.some.inj (raw.symm.trans raw')
  rw [← Raft.checkQuorumActive_iff recalls]
  refine ⟨fun m kind current => Raft.step_checkQuorum leader kind current,
    fun due idle host' sent stepped => ?_⟩
  change host.callWith (fun rn => rn.tick) = .ok (host', sent) at stepped
  unfold callWith call at stepped
  rw [raw, idle] at stepped
  obtain ⟨rn', called, stepped⟩ := bind_eq_ok.1 stepped
  obtain ⟨rfl, -⟩ := ok_pair_inj stepped
  refine ⟨rn', rfl, ?_⟩
  obtain ⟨⟨rn₁, hasReady⟩, ticked, same⟩ := bind_eq_ok.1 called
  obtain rfl := Except.ok.inj same
  obtain ⟨⟨raft, ready⟩, moved, same⟩ := bind_eq_ok.1 ticked
  obtain ⟨rfl, -⟩ := ok_pair_inj same
  exact (Raft.tick_checkQuorum leader due).of_eq_ok moved

omit [ConfChangeCodec] in
/-- A leader of two voters has heard from the other one, so a check of the quorum keeps it in the
lead. -/
theorem check_quorum_two : let _ := ConfChangeCodec.sample
    ∃ host heard rn r, (fresh 1 { voters := [1, 2] }).Hears host heard ∧ host.raw = some rn ∧ 2 ∈ heard ∧
      rn.raft.step (newMessage invalidId .msgCheckQuorum 1) = .ok (r, .ok ()) ∧
      (r.state = .leader ↔ rn.raft.prs.conf.voters.Agrees fun id =>
        (id = rn.raft.id ∧ (rn.raft.prs.get id).isSome = true) ∨ id ∈ heard) := by
  intro _
  let campaigned : List HostOp := [.restart { id := 1, checkQuorum := true } fun _ => 0, .campaign]
  let vote : Message := { msgType := .msgRequestVoteResponse, fromId := 2, toId := 1, term := 1 }
  let response : Message := { msgType := .msgHeartbeatResponse, fromId := 2, toId := 1, term := 1 }
  have candidate : (fresh 1 { voters := [1, 2] }).ends campaigned
      (fun host => host.raw.all fun rn => rn.raft.state == .candidate) = true := by decide +kernel
  have leader : (fresh 1 { voters := [1, 2] }).ends (campaigned ++ [.deliver vote])
      (fun host => host.outstanding.isNone && host.raw.any fun rn => rn.raft.state == .leader &&
        rn.raft.term == 1 &&
        (rn.raft.prs.get 2).isSome) = true := by decide +kernel
  have leads : (fresh 1 { voters := [1, 2] }).ends (campaigned ++ [.deliver vote] ++ [.deliver response])
      (fun host => host.raw.any fun rn => rn.raft.state == .leader && rn.raft.term == 1) =
        true := by decide +kernel
  obtain ⟨host₁, done₁, tested₁⟩ := run_ends candidate
  obtain ⟨host₂, done₂, tested₂⟩ := run_ends leader
  obtain ⟨host₃, done₃, tested₃⟩ := run_ends leads
  simp only [Option.all_eq_true, Bool.and_eq_true, beq_iff_eq, Option.any_eq_true,
    Option.isNone_iff_eq_none]
    at tested₁ tested₂ tested₃
  obtain ⟨idle, rn₂, raw₂, ⟨lead₂, term₂⟩, known⟩ := tested₂
  obtain ⟨rn₃, raw₃, lead₃, term₃⟩ := tested₃
  have formed : ∀ m : Message, m = vote ∨ m = response → HostOp.Tidy (.deliver m) := by
    rintro m kind _ same
    cases same
    rcases kind with rfl | rfl <;> exact Message.tidy_of_kind nofun nofun
  have first : (fresh 1 { voters := [1, 2] }).Hears host₂ ∅ := by
    obtain ⟨host, sent, done, stepped⟩ := run_split done₂
    obtain rfl := Except.ok.inj (done.symm.trans done₁)
    refine .elected done ?_ (formed vote (.inl rfl)) stepped raw₂ lead₂ fun rn raw lead => ?_
    · rw [List.forall_mem_cons, List.forall_mem_singleton]
      exact ⟨nofun, nofun⟩
    · cases (tested₁ rn raw).symm.trans lead
  have second : (fresh 1 { voters := [1, 2] }).Hears host₃ (host₂.heardAfter ∅ (.deliver response)) := by
    obtain ⟨host, sent, done, stepped⟩ := run_split done₃
    obtain rfl := Except.ok.inj (done.symm.trans done₂)
    exact .next first (formed response (.inr rfl)) stepped raw₂ raw₃ lead₃ (term₃.trans term₂.symm)
  have heard : host₂.heardAfter ∅ (.deliver response) = {2} := by
    unfold heardAfter
    rw [raw₂, idle]
    exact if_pos ⟨.inr rfl, .inr term₂.symm, known⟩
  rw [heard] at second
  obtain ⟨r, stepped, stays⟩ := (check_quorum (tidy_fresh 1 { voters := [1, 2] }) second raw₃).1
    (newMessage invalidId .msgCheckQuorum 1) rfl (.inl rfl)
  exact ⟨host₃, {2}, rn₃, r, second, raw₃, Finset.mem_singleton_self 2, stepped, stays⟩

end Host

end RaftRs

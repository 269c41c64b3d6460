import RaftRs.Act.Follow

namespace RaftRs

open Library

namespace Raft

variable {r : Raft} {inp : Input → Prop} {m : Message}

/-- The term of a message that a node goes on with is its own, no term or that of a pre-vote. -/
def Accepts (r : Raft) (m : Message) : Prop :=
  m.term = r.term ∨ m.term = 0 ∨
    ((m.msgType = .msgRequestPreVote ∨ m.msgType = .msgRequestPreVoteResponse) ∧ r.term < m.term)

/-- A message of another kind than a pre-vote is heard. -/
theorem Accepts.hears (accepts : r.Accepts m) (vote : m.msgType ≠ .msgRequestPreVote)
    (answer : m.msgType ≠ .msgRequestPreVoteResponse) : r.core.Hears m := by
  rcases accepts with same | zero | ⟨preVote | preVote, -⟩
  · exact .inl same
  · exact .inr zero
  · exact absurd preVote vote
  · exact absurd preVote answer

theorem Accepts.recent (accepts : r.Accepts m) (nonzero : m.term ≠ 0) : r.term ≤ m.term := by
  rcases accepts with same | zero | ⟨-, later⟩
  · exact same.ge
  · exact absurd zero nonzero
  · exact later.le

/-- What a call hands to its node for a message. -/
structure Gives (inp : Input → Prop) (r : Raft) (m : Message) : Prop where
  message : isLocalMsg m.msgType = false → inp (.message m)
  untermed : isLocalMsg m.msgType = true → m.term = 0
  elects : m.Elects → inp .election
  hup : m.msgType = .msgHup → r.core.Eligible inp
  started : m.IsVoteResponse → r.state = .preCandidate → inp (.started r.term)
  leader : m.msgType = .msgPropose ∨ m.msgType = .msgReadIndex ∨ m.msgType = .msgTransferLeader →
    m.term ≠ 0 →
    m.term = r.term → r.state = .follower → r.leaderId ≠ invalidId → inp (.leader m.term)

/-- A message of the node itself needs only the permissions to campaign. -/
theorem Gives.own (own : isLocalMsg m.msgType = true) (zero : m.term = 0)
    (elects : m.Elects → inp .election) (hup : m.msgType = .msgHup → r.core.Eligible inp) :
    r.Gives inp m where
  message other := by simp [own] at other
  untermed _ := zero
  elects := elects
  hup := hup
  started kind := by rcases kind with kind | kind <;> simp [kind, isLocalMsg] at own
  leader _ nonzero := absurd zero nonzero

/-- A message without a term that starts no campaign needs no permission. -/
theorem Gives.plain (zero : m.term = 0) (quiet : ¬ m.Elects)
    (stepped : isLocalMsg m.msgType = false → inp (.message m)) : r.Gives inp m where
  message := stepped
  untermed _ := zero
  elects elects := absurd elects quiet
  hup kind := absurd (.inl kind) quiet
  started kind := absurd (.inr (.inr kind)) quiet
  leader _ nonzero := absurd zero nonzero

/-- A message of a later term is handed on to the new follower. -/
theorem Gives.bump (gives : r.Gives inp m) (nonzero : m.term ≠ 0) (leaderId : Nat)
    (unknown : m.msgType = .msgPropose ∨ m.msgType = .msgReadIndex ∨ m.msgType = .msgTransferLeader →
      leaderId = invalidId) : (r.becomeFollower m.term leaderId).Gives inp m where
  message := gives.message
  untermed := gives.untermed
  elects := gives.elects
  hup kind := absurd (gives.untermed (by rw [kind]; rfl)) nonzero
  started _ := nofun
  leader kind _ _ _ known := absurd (unknown kind) known

theorem does_handleTerm (gives : r.Gives inp m) :
    Does inp r.core (r.handleTerm m) (fun x => x.1.core) fun x => x.2 = true → x.1.Accepts m ∧
      x.1.Gives inp m := by
  unfold handleTerm
  split
  next zero => exact .pure .refl fun _ => ⟨.inr (.inl zero), gives⟩
  next nonzero =>
    have stepped : inp (.message m) := by
      cases kind : isLocalMsg m.msgType with
      | false => exact gives.message kind
      | true => exact absurd (gives.untermed kind) nonzero
    have bump : r.term < m.term →
        ∀ leaderId, Acts inp r.core (r.becomeFollower m.term leaderId).core := by
      intro later leaderId
      rw [core_becomeFollower]
      exact (Act.bump stepped later).acts
    have term : ∀ leaderId, (r.becomeFollower m.term leaderId).term = m.term := fun leaderId =>
      congrArg Core.term (r.core_becomeFollower m.term leaderId)
    split
    next later =>
      simp only
      split
      · exact .pure .refl nofun
      split
      next preVote =>
        exact .pure .refl fun _ => ⟨.inr (.inr ⟨preVote.imp (fun same => same) And.left, later⟩), gives⟩
      split
      next kind =>
        refine .pure (bump later _) fun _ => ⟨.inl (term _).symm, gives.bump nonzero _ fun other => ?_⟩
        rcases kind with kind | kind | kind <;> simp [kind] at other
      · exact .pure (bump later _) fun _ => ⟨.inl (term _).symm, gives.bump nonzero _ fun _ => rfl⟩
    next notLater =>
      split
      next stale =>
        split
        next kind =>
          exact .bind (does_send (.staleAppend stepped kind.2 stale)) fun _ _ => .pure .refl nofun
        split
        next preVote =>
          have positive : r.term ≠ 0 := by omega
          exact .bind (does_send (.stalePreVote stepped preVote stale) positive)
            fun _ _ => .pure .refl nofun
        · exact .pure .refl nofun
      next notStale =>
        exact .pure .refl fun _ => ⟨.inl (Nat.le_antisymm (not_lt.1 notLater) (not_lt.1 notStale)),
          gives⟩

theorem does_stepFollower (gives : r.Gives inp m) (accepts : r.Accepts m) (role : r.state = .follower) :
    Does inp r.core (r.stepFollower m) (fun x => x.1.core) fun _ => True := by
  have stay : ∀ result : Except RaftError Unit, Does inp r.core (.ok (r, result))
      (fun x => x.1.core) fun _ => True :=
    fun _ => .pure .refl trivial
  have stepped := gives.message
  have heard : (r.heardFrom m).core = r.core := rfl
  have known :
      ∀ kind : m.msgType = .msgPropose ∨ m.msgType = .msgReadIndex ∨ m.msgType = .msgTransferLeader,
      ¬ r.leaderId = invalidId → m.term ≠ 0 → inp (.leader m.term) := by
    intro kind known termed
    have vote : m.msgType ≠ .msgRequestPreVote := by rcases kind with kind | kind | kind <;> simp [kind]
    have answer : m.msgType ≠ .msgRequestPreVoteResponse := by
      rcases kind with kind | kind | kind <;> simp [kind]
    exact gives.leader kind termed ((accepts.hears vote answer).resolve_right termed) role known
  unfold stepFollower
  simp only
  split
  next kind =>
    split
    · exact stay _
    next leader =>
    split
    · exact stay _
    · exact does_done (does_forward (stepped (by rw [kind]; rfl)) role (.inl kind)
        (known (.inl kind) leader))
  next kind =>
    have heard := accepts.hears (by simp [kind]) (by simp [kind])
    exact does_done
      (does_handleAppendEntries (r := r.heardFrom m) (stepped (by rw [kind]; rfl)) kind heard role)
  next kind =>
    have heard := accepts.hears (by simp [kind]) (by simp [kind])
    exact does_done
      (does_handleHeartbeat (r := r.heardFrom m) (stepped (by rw [kind]; rfl)) kind heard role)
  next kind =>
    have heard := accepts.hears (by simp [kind]) (by simp [kind])
    exact does_done
      (does_handleSnapshot (r := r.heardFrom m) (stepped (by rw [kind]; rfl)) kind heard role)
  next kind =>
    split
    · exact stay _
    next leader =>
      exact does_done (does_forward (stepped (by rw [kind]; rfl)) role (.inr (.inr kind))
        (known (.inr (.inr kind)) leader))
  next kind =>
    split
    next promotable =>
      exact does_done (does_hup (gives.elects (.inr (.inl kind))) true (.inl promotable)
        fun _ => ⟨m, stepped (by rw [kind]; rfl), kind⟩)
    · exact stay _
  next kind =>
    split
    · exact stay _
    next leader =>
      exact does_done (does_forward (stepped (by rw [kind]; rfl)) role (.inr (.inl kind))
        (known (.inr (.inl kind)) leader))
  next kind =>
    have heard := accepts.hears (by simp [kind]) (by simp [kind])
    exact does_done (does_handleReadIndexResp (stepped (by rw [kind]; rfl)) kind heard role)
  next => exact stay _

theorem does_stepCandidate (gives : r.Gives inp m) (accepts : r.Accepts m)
    (role : r.state = .candidate ∨ r.state = .preCandidate) :
    Does inp r.core (r.stepCandidate m) (fun x => x.1.core) fun _ => True := by
  have stepped := gives.message
  have follow : m.term = r.term → Acts inp r.core (r.becomeFollower m.term m.fromId).core := by
    intro term
    rw [core_becomeFollower, term]
    exact Act.stepDown.acts
  have term : (r.becomeFollower m.term m.fromId).term = m.term :=
    congrArg Core.term (r.core_becomeFollower m.term m.fromId)
  have follower : (r.becomeFollower m.term m.fromId).state = .follower := rfl
  unfold stepCandidate
  simp only [true_and]
  split
  · exact .pure .refl trivial
  next kind =>
    split
    · exact .fail not_false
    next same =>
    refine .after (follow (not_not.1 same).symm) ?_
    exact does_done
      (does_handleAppendEntries (stepped (by rw [kind]; rfl)) kind (.inl term.symm) follower)
  next kind =>
    split
    · exact .fail not_false
    next same =>
    refine .after (follow (not_not.1 same).symm) ?_
    exact does_done (does_handleHeartbeat (stepped (by rw [kind]; rfl)) kind (.inl term.symm) follower)
  next kind =>
    split
    · exact .fail not_false
    next same =>
    refine .after (follow (not_not.1 same).symm) ?_
    exact does_done (does_handleSnapshot (stepped (by rw [kind]; rfl)) kind (.inl term.symm) follower)
  next kind =>
    exact does_done (does_handleVoteResponse (gives.elects (.inr (.inr (.inr kind))))
      (stepped (by rw [kind]; rfl))
      (.inr kind) role (fun other => by simp [kind] at other) (gives.started (.inr kind)) accepts.recent)
  next kind =>
    exact does_done (does_handleVoteResponse (gives.elects (.inr (.inr (.inl kind))))
      (stepped (by rw [kind]; rfl))
      (.inl kind) role (fun _ => accepts.hears (by simp [kind]) (by simp [kind]))
        (gives.started (.inl kind))
      accepts.recent)
  next => exact .pure .refl trivial

variable [ConfChangeCodec]

theorem does_dispatch (gives : r.Gives inp m) (accepts : r.Accepts m) :
    Does inp r.core (r.dispatch m) (fun x => x.1.core) fun _ => True := by
  have stepped := gives.message
  unfold dispatch
  split
  next kind => exact does_done (does_hup (gives.elects (.inl kind)) false (gives.hup kind) nofun)
  next kind =>
    exact does_done (does_handleVoteRequest (stepped (by rw [kind]; rfl)) (.inl kind)
      (fun _ => accepts.hears (by simp [kind]) (by simp [kind])))
  next kind =>
    exact does_done (does_handleVoteRequest (stepped (by rw [kind]; rfl)) (.inr kind)
      (fun other => by simp [kind] at other))
  next =>
    split
    next role => exact does_stepCandidate gives accepts (.inr role)
    next role => exact does_stepCandidate gives accepts (.inl role)
    next role => exact does_stepFollower gives accepts role
    next role =>
      refine does_stepLeader stepped role fun kind => ?_
      rcases kind with ⟨kind, accepted⟩ | kind
      · exact accepts.hears (by simp [kind]) (by simp [kind])
      · exact accepts.hears (by simp [kind]) (by simp [kind])

theorem does_step (gives : r.Gives inp m) :
    Does inp r.core (r.step m) (fun x => x.1.core) fun _ => True := by
  unfold step
  refine .bind (does_handleTerm gives) fun ⟨r', goesOn⟩ accepts => ?_
  cases goesOn with
  | false => exact .pure .refl trivial
  | true => exact does_dispatch (accepts rfl).2 (accepts rfl).1

theorem does_tickElection (may : inp .election) :
    Does inp r.core r.tickElection (fun x => x.1.core) fun _ => True := by
  unfold tickElection
  simp only
  split
  · exact .pure .refl trivial
  next due =>
    have promotable : r.promotable = true := by
      push Not at due
      simpa using due.2
    refine .bind (does_step (r := { r with electionElapsed := 0 }) ?_) fun _ _ => ?_
    · exact .own rfl rfl (fun _ => may) fun _ => .inl promotable
    · exact .pure .refl trivial

theorem does_tickQuorum : Does inp r.core r.tickQuorum (fun x => x.1.core) fun _ => True := by
  unfold tickQuorum
  split
  · refine .bind (?_ : Does inp r.core _ (fun x => x.1.core) fun _ => True) fun x _ => .pure ?_ trivial
    · split
      · refine .bind (does_step (r := { r with electionElapsed := 0 }) (.own rfl rfl ?_ ?_))
          fun _ _ => ?_
        · simp [newMessage, Message.Elects, Message.IsVoteResponse]
        · simp [newMessage]
        · exact .pure .refl trivial
      · exact .pure .refl trivial
    · split <;> exact .refl
  · exact .pure .refl trivial

theorem does_tickHeartbeat : Does inp r.core r.tickHeartbeat (fun x => x.1.core) fun _ => True := by
  unfold tickHeartbeat
  refine .bind (does_tickQuorum (r := { r with heartbeatElapsed := _, electionElapsed := _ }))
    fun ⟨r', hasReady⟩ _ => ?_
  simp only
  split
  · exact .pure .refl trivial
  split
  · refine .bind
      (does_step (r := { r' with heartbeatElapsed := 0 }) (.own rfl rfl (fun own => ?_) nofun))
      fun _ _ => ?_
    · simp [newMessage, Message.Elects, Message.IsVoteResponse] at own
    · exact .pure .refl trivial
  · exact .pure .refl trivial

theorem does_tick (may : inp .election) : Does inp r.core r.tick (fun x => x.1.core) fun _ => True := by
  unfold tick
  split
  · exact does_tickElection may
  · exact does_tickElection may
  · exact does_tickElection may
  · exact does_tickHeartbeat

omit [ConfChangeCodec]

theorem does_requestSnapshot (asked : inp .requestSnapshot) :
    Does inp r.core r.requestSnapshot (fun x => x.1.core) fun _ => True := by
  unfold requestSnapshot
  split
  · exact .pure .refl trivial
  next open' =>
    push Not at open'
    simp only
    split
    · exact .fail not_false
    next term known =>
      split
      next current =>
        subst current
        have none : r.raftLog.unstable.snapshot = none := by simpa using open'.2.2.1
        refine .after (Act.askSnapshot asked open'.1 none open'.2.2.2 known).acts ?_
        refine .bind (does_sendRequestSnapshot (r := { r with pendingRequestSnapshot := _ })
          (.inr asked)) fun _ _ => ?_
        exact .pure .refl trivial
      next => exact .pure .refl trivial

theorem does_postConfChange (changed : ∃ cc, inp (.confChange cc))
    (judged : r.promotable = r.prs.conf.voters.contains r.id) :
    Does inp r.core r.postConfChange (fun x => x.1.core) fun _ => True := by
  have same : { r with promotable := r.prs.conf.voters.contains r.id } = r := by rw [← judged]
  by_cases role : r.state = .leader
  · unfold postConfChange
    simp only [same]
    split
    · exact .pure .refl trivial
    split
    · exact .pure .refl trivial
    refine .bind (does_maybeCommit role) fun ⟨r₁, committed⟩ steady => ?_
    have role₁ : r₁.state = .leader := steady.state.trans role
    have told : Does inp r₁.core (if committed then r₁.bcastAppend else r₁.probePeers) core
        (Steady r₁) := by
      split
      · exact does_bcastAppend role₁
      · exact does_probePeers role₁
    refine .bind told fun r₂ steady => ?_
    refine .bind (?_ : Does inp r₂.core _ core fun _ => True) fun r₃ _ => ?_
    · split
      · exact (does_advanceReads (steady.state.trans role₁) (.inr changed)).mono fun _ _ => trivial
      · exact .pure .refl trivial
    split
    · split <;> exact .pure .refl trivial
    · exact .pure .refl trivial
  · rw [postConfChange_follower role, same]
    exact .pure .refl trivial

/-- A new configuration keeps the votes. -/
theorem applyConf_votes (prs : ProgressTracker) (conf : Configuration) (changes : MapChange)
    (nextIdx : Nat) :
    (prs.applyConf conf changes nextIdx).votes = prs.votes := by
  unfold ProgressTracker.applyConf
  refine List.foldlRecOn (motive := fun prs' : ProgressTracker => prs'.votes = prs.votes) changes
    _ rfl fun prs' kept change _ => ?_
  split
  · exact kept
  · exact kept

theorem applyConf_get {prs : ProgressTracker} {conf : Configuration} {changes : MapChange}
    {nextIdx id : Nat} {pr : Progress} (known : (prs.applyConf conf changes nextIdx).get id = some pr) :
    prs.get id = some pr ∨ pr.position = { nextIdx } := by
  unfold ProgressTracker.applyConf at known
  refine List.foldlRecOn (motive := fun prs' : ProgressTracker => ∀ pr, prs'.get id = some pr →
    prs.get id = some pr ∨ pr.position = { nextIdx }) changes _ ?_ ?_ pr known
  · exact fun _ => .inl
  · intro prs' kept change _ pr known
    split at known
    · rw [ProgressTracker.get, KeyMap.get?_insert] at known
      split_ifs at known
      · obtain rfl := Option.some.inj known
        exact .inr rfl
      · exact kept pr known
    · rw [ProgressTracker.get, KeyMap.get?_remove] at known
      split_ifs at known
      exact kept pr known

theorem applyConfChange_eq (r : Raft) (cc : ConfChangeV2) :
    r.applyConfChange cc = match cc.membershipChange.run r.prs with
      | .error error => .ok (r, .error error)
      | .ok (cfg, changes) => do
          let (r, cs) ← { r with prs := r.prs.applyConf cfg changes r.raftLog.lastIndex }.postConfChange
          return (r, .ok cs) := by
  unfold applyConfChange ConfChangeV2.membershipChange
  split
  · rfl
  · cases cc.enterJoint <;> rfl

theorem does_applyConfChange {cc : ConfChangeV2} (changed : inp (.confChange cc))
    (current : inp (.configured r.prs.conf)) :
    Does inp r.core (r.applyConfChange cc) (fun x => x.1.core) fun _ => True := by
  rw [applyConfChange_eq]
  split
  · exact .pure .refl trivial
  next cfg changes done =>
    have conf : (r.prs.applyConf cfg changes r.raftLog.lastIndex).conf = cfg :=
      ProgressTracker.applyConf_conf ..
    generalize prs : r.prs.applyConf cfg changes r.raftLog.lastIndex = tracker at conf
    have reconfigures : r.prs.Reconfigures tracker :=
      prs ▸ .install cc.membershipChange r.raftLog.lastIndex done
    have votes : tracker.votes = r.prs.votes := prs ▸ applyConf_votes ..
    have kept : Rostered r.core.conf r.core.positions →
        Rostered tracker.conf (fun id => (tracker.get id).map Progress.position) ∧
        (∀ id, r.core.conf.voters.contains id = true → cc.membershipChange.Retains r.core.conf id →
          tracker.conf.voters.contains id = true) ∧
        ∀ id, r.core.conf.Member id → cc.membershipChange.Keeps r.core.conf id →
          tracker.conf.Member id := by
      intro rostered
      have rostered := rostered_core.1 rostered
      refine ⟨rostered_core (r := { r with prs := tracker }).2 (rostered.reconfigure reconfigures), ?_⟩
      obtain ⟨roster, -, represents⟩ := rostered
      rw [conf]
      exact ⟨fun id => ProgressTracker.retains_run represents done,
        fun id => ProgressTracker.keeps_run represents done⟩
    have tracked : ∀ id pos, (tracker.get id).map Progress.position = some pos →
        r.core.positions id = some pos ∨ pos = { nextIdx := r.core.log.lastIndex } := by
      intro id pos known
      obtain ⟨pr, found, rfl⟩ := Option.map_eq_some_iff.1 known
      rw [← prs] at found
      rcases applyConf_get found with old | new
      · exact .inl (core_positions old)
      · exact .inr new
    have same : { r with prs := tracker, promotable := tracker.conf.voters.contains r.id }.core =
        { r.core with
          conf := tracker.conf, positions := fun id => (tracker.get id).map Progress.position
          promotable := tracker.conf.voters.contains r.core.id } := by
      simp only [core, votes]
    refine .after ((Act.reconfigure changed current kept tracked).acts_to same.symm) ?_
    refine .bind (does_postConfChange
      (r := { r with prs := tracker, promotable := tracker.conf.voters.contains r.id })
        ⟨cc, changed⟩ rfl) fun _ _ => ?_
    exact .pure .refl trivial

end Raft

end RaftRs

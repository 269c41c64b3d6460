import RaftRs.Safe.Mirror

namespace RaftRs

open Library

namespace Message

variable {h : History Nat Entry} {m : Message}

/-- The meaning of a message of an election. -/
theorem means_vote (kind : m.IsVoteRequest ∨ m.IsVoteResponse)
    (other : m.IsVoteRequest → m.toId ≠ m.fromId)
    (vote : m.commitTerm ≠ 0 → ∃ log, h.Committed log ∧ log.length = m.commit ∧
      lastTerm log = m.commitTerm) :
    m.Means h := by
  have crosses : m.Crosses → m.toId ≠ m.fromId := by
    intro crosses
    apply other
    rcases kind with (kind | kind) | (kind | kind)
    · exact .inl kind
    · exact .inr kind
    · simp [Crosses, Leads, IsVoteRequest, kind] at crosses
    · simp [Crosses, Leads, IsVoteRequest, kind] at crosses
  refine ⟨?_, crosses, ?_, ?_, ?_, ?_, ?_, fun _ => vote, ?_⟩
  all_goals rcases kind with (kind | kind) | (kind | kind) <;> simp [Leads, kind]

theorem means_response (kind : m.msgType = .msgAppendResponse ∨ m.msgType = .msgHeartbeatResponse)
    (other : m.toId ≠ m.fromId) (unasked : m.requestSnapshot = 0) : m.Means h := by
  refine ⟨?_, fun _ => other, ?_, ?_, ?_, ?_, ?_, ?_, fun _ => unasked⟩
  all_goals rcases kind with kind | kind <;> simp [Leads, IsVoteRequest, IsVoteResponse, kind]

theorem means_append (kind : m.msgType = .msgAppend)
    (elected : ∃ e ∈ h.elections, e.term = m.term ∧ e.leader = m.fromId) (other : m.toId ≠ m.fromId)
    (append : SliceOf (h.log m.term) m ∨
      (m.entries = [] ∧ m.logTerm = 0 ∧ ∃ j, m.index ≤ j ∧ h.Acked m.toId m.term j))
    (commit : Announces h m.term m.commit) : m.Means h := by
  refine ⟨fun _ => elected, fun _ => other, fun _ => append, fun _ => commit, ?_, ?_, ?_, ?_, ?_⟩
  all_goals simp [IsVoteRequest, IsVoteResponse, kind]

/-- The meaning of a heartbeat. -/
theorem means_heartbeat (kind : m.msgType = .msgHeartbeat)
    (elected : ∃ e ∈ h.elections, e.term = m.term ∧ e.leader = m.fromId) (other : m.toId ≠ m.fromId)
    (commit : Announces h m.term m.commit)
    (acked : m.commit = 0 ∨ ∃ j, m.commit ≤ j ∧ h.Acked m.toId m.term j) :
    m.Means h := by
  refine ⟨fun _ => elected, fun _ => other, ?_, fun _ => commit, fun _ => acked, ?_, ?_, ?_, ?_⟩
  all_goals simp [IsVoteRequest, IsVoteResponse, kind]

/-- The meaning of a snapshot. -/
theorem means_snapshot (kind : m.msgType = .msgSnapshot)
    (elected : ∃ e ∈ h.elections, e.term = m.term ∧ e.leader = m.fromId) (other : m.toId ≠ m.fromId)
    (snapshot : Announces h m.term m.snapshot.metadata.index ∧
      termAt (h.log m.term) m.snapshot.metadata.index = m.snapshot.metadata.term) : m.Means h := by
  refine ⟨fun _ => elected, fun _ => other, ?_, ?_, ?_, fun _ => snapshot, ?_, ?_, ?_⟩
  all_goals simp [IsVoteRequest, IsVoteResponse, kind]

/-- The meaning of an answered read. -/
theorem means_read (kind : m.msgType = .msgReadIndexResp)
    (elected : ∃ e ∈ h.elections, e.term = m.term ∧ e.leader = m.fromId)
    (read : Announces h m.term m.index) :
    m.Means h := by
  refine ⟨fun _ => elected, ?_, ?_, ?_, ?_, ?_, fun _ => read, ?_, ?_⟩
  all_goals simp [Crosses, Leads, IsVoteRequest, IsVoteResponse, kind]

end Message

/-- The promises that a sent message needs. -/
inductive Sends.Promised (inp : Input → Prop) (c : Core) (m : Message) : Prop where
  | plain (backed : ∀ x P, m.Backed x P)
  | request (role : c.state = .candidate) (kind : m.msgType = .msgRequestVote) (sender : m.fromId = c.id)
      (term : m.term = c.term) (index : m.index = c.log.lastIndex)
      (last : c.log.lastTerm = .ok m.logTerm)
  | floor {asked : Message} (stepped : inp (.message asked))
      (leads : asked.msgType = .msgAppend ∨ asked.msgType = .msgSnapshot) (heard : c.Hears asked)
      (role : c.state = .follower) (kind : m.msgType = .msgAppendResponse) (sender : m.fromId = c.id)
      (term : m.term = c.term) (index : m.index = c.log.committed)

variable {cs : ConfState} {h : History Nat Entry} {x : Nat} {durable V : Replica Nat Entry}
  {pending : List (Stage Nat Entry)} {P : Set (Promise Nat Entry)} {inp : Input → Prop} {c : Core}
    {m : Message}

theorem Sends.promised (sends : Sends inp c m) : Sends.Promised inp c m := by
  cases sends with
  | voteRequest role other info last => exact .request role rfl rfl rfl rfl last
  | floorAck stepped kind heard role =>
      exact .floor stepped (kind.imp_left And.left) heard role rfl rfl rfl rfl
  | preVoteGrant stepped kind =>
      exact .plain fun _ _ => Message.backed_of_plain (by simp) (by simp) (by simp)
  | voteReject stepped kind nonzero info =>
      refine .plain fun _ _ => Message.backed_of_plain ?_ (fun _ => .inl rfl) fun _ => rfl
      rcases kind with kind | kind <;> simp [Raft.voteRespMsgType, kind]
  | forward stepped role kind =>
      refine .plain fun _ _ => ?_
      rcases kind with ⟨kind, -⟩ | ⟨kind, -⟩ | ⟨kind, -⟩ <;>
        exact Message.backed_of_plain (by simp [kind]) (by simp [kind]) (by simp [kind])
  | _ =>
      exact .plain fun _ _ => Message.backed_of_plain (by simp [Core.ackFor])
        (by simp [Core.ackFor]) (by simp [Core.ackFor])

theorem Message.Credible.other {asked : Message} (credible : asked.Credible h x)
    (kind : asked.Crosses) : asked.fromId ≠ x := by
  have sent : asked.msgType ≠ .msgPropose ∧ asked.msgType ≠ .msgReadIndex ∧
      asked.msgType ≠ .msgTransferLeader := by
    rcases kind with (kind | kind | kind) | (kind | kind) | kind | kind <;> simp [kind]
  obtain ⟨receiver, means, -⟩ := credible.sent sent
  rw [← receiver]
  exact (means.crosses kind).symm

/-- A leader sends only to other nodes. -/
theorem Addressee.other (heard : ∀ m, inp (.message m) → m.Credible h c.id) {toId : Nat}
    (addressee : Addressee inp c toId) : toId ≠ c.id := by
  rcases addressee with other | ⟨asked, stepped, rfl, kind⟩
  · exact other
  · exact (heard asked stepped).other (.inr (.inr kind))

/-- What a leader appends is a part of its log, or lies beyond it where a follower is ahead. -/
theorem Core.Lives.slice (lives : c.Lives cs h x durable pending P V) (role : c.state = .leader)
    {toId logTerm : Nat} {pos : Position} {ents : List Entry} {maxSize : Option Nat}
    {context : GetEntriesFor} (known : c.positions toId = some pos)
    (term : c.log.term (pos.nextIdx - 1) = .ok logTerm)
    (read : c.log.entries pos.nextIdx maxSize context = .ok (.ok ents)) (kind : MessageType)
    (commit : Nat) :
    SliceOf (h.log c.term) { msgType := kind, toId, fromId := c.id, term := c.term,
                             index := pos.nextIdx - 1, logTerm
                             entries := ents, commit } ∨
      (ents = [] ∧ logTerm = 0 ∧ ∃ j, pos.nextIdx - 1 ≤ j ∧ h.Acked toId c.term j) := by
  have rests := (lives.mirrors.rules role).positions toId pos known
  have view := lives.mirrors.picture.log
  have length := lives.mirrors.length
  have low := view.wf.first_le_last
  have positive := view.wf.first_pos
  rcases Nat.lt_or_ge (c.log.lastIndex + 1) pos.nextIdx with ahead | inside
  · right
    refine ⟨?_, ?_, ?_⟩
    · unfold RaftLog.entries at read
      rw [if_pos (by omega)] at read
      exact (Except.ok.inj (Except.ok.inj read)).symm
    · rw [RaftLog.term_outside (.inr (by omega))] at term
      exact (Except.ok.inj term).symm
    · have next := rests.next
      rcases rests.matched with zero | ⟨j, le, acked⟩
      · omega
      · exact ⟨j, by omega, acked⟩
  · left
    rw [← lives.leader_log role]
    have first := RaftLog.entries_first read
    obtain ⟨bounded, same⟩ := view.entries (by omega) (by omega) read
    exact ⟨bounded, (view.term term (by omega) (by omega)).symm, same⟩

/-- A sent message says what the history knows. -/
theorem Sends.means (heard : ∀ m, inp (.message m) → m.Credible h x) (unasked : ¬ inp .requestSnapshot)
    (lives : c.Lives cs h x durable pending P V) (sends : Sends inp c m) : m.Means h := by
  have named := lives.mirrors.named
  have heard' : ∀ m, inp (.message m) → m.Credible h c.id := by rwa [named]
  cases sends with
  | voteRequest role other info last =>
      exact Message.means_vote (.inl (.inl rfl)) (fun _ => other) fun _ => lives.commitInfo info
  | preVoteRequest role other info =>
      exact Message.means_vote (.inl (.inr rfl)) (fun _ => other) fun _ => lives.commitInfo info
  | preVoteGrant stepped kind =>
      exact Message.means_vote (.inr (.inr rfl)) (by simp [Message.IsVoteRequest]) (by simp)
  | voteReject stepped kind nonzero info =>
      refine Message.means_vote (.inr ?_) ?_ fun _ => lives.commitInfo info
      · rcases kind with kind | kind <;> simp [Message.IsVoteResponse, Raft.voteRespMsgType, kind]
      · rcases kind with kind | kind <;> simp [Message.IsVoteRequest, Raft.voteRespMsgType, kind]
  | stalePreVote stepped kind stale =>
      exact Message.means_vote (.inr (.inr rfl)) (by simp [Message.IsVoteRequest]) (by simp)
  | staleAppend stepped kind stale =>
      exact Message.means_response (.inl rfl)
        ((heard' _ stepped).other (.inl (kind.symm.imp_right .inl))) rfl
  | append role other known term read =>
      have elected := lives.leader_elected role
      rw [← named] at elected
      exact Message.means_append rfl elected (other.other heard') (lives.slice role known term read _ _)
        (lives.announces role le_rfl)
  | @heartbeat toId pos context role other known waiting =>
      have elected := lives.leader_elected role
      rw [← named] at elected
      refine Message.means_heartbeat rfl elected other (lives.announces role (min_le_right _ _)) ?_
      rcases ((lives.mirrors.rules role).positions toId pos known).matched with zero | ⟨j, le, acked⟩
      · exact .inl (by simp [zero])
      · exact .inr ⟨j, (min_le_left _ _).trans le, acked⟩
  | timeoutNow role => exact Message.means_of_other (.inr (.inr (.inr rfl)))
  | heartbeatResponse stepped kind _ role =>
      exact Message.means_response (.inr rfl) ((heard' _ stepped).other (.inl (.inr (.inl kind)))) rfl
  | appendReject stepped kind =>
      exact Message.means_response (.inl rfl) ((heard' _ stepped).other (.inl (.inl kind))) rfl
  | snapshotRequest asked =>
      exact (asked.elim (fun pending => pending lives.mirrors.unasked) unasked).elim
  | floorAck stepped kind _ role =>
      refine Message.means_response (.inl rfl) ((heard' _ stepped).other (.inl ?_)) rfl
      exact kind.imp And.left .inr
  | forward stepped role kind =>
      refine Message.means_of_other ?_
      rcases kind with ⟨kind, -⟩ | ⟨kind, -⟩ | ⟨kind, -⟩
      · exact .inl kind
      · exact .inr (.inl kind)
      · exact .inr (.inr (.inl kind))

/-- A message joins the queue of a node together with the promises that it needs. -/
theorem Core.Lives.push (lives : c.Lives cs h x durable pending P V) {P' : Set (Promise Nat Entry)}
    (more : P ⊆ P') (inv : h.NodeInv x durable pending (some ⟨P', V⟩)) (means : m.Means h)
    (backed : m.Backed x (h.recorded x ∪ P')) (leads : c.state = .leader → m.Backed x (h.recorded x))
    (campaigns : c.state = .candidate → P ⊆ {.vote c.term x V.log} → P' ⊆ {.vote c.term x V.log}) :
    (c.push m).Lives cs h x durable pending P' V := by
  have mirrors := lives.mirrors
  have picture := mirrors.picture
  refine ⟨lives.recounts, inv, mirrors.named,
    ⟨picture.term, picture.vote, picture.role, picture.log, picture.commit⟩, mirrors.stored,
      mirrors.saved, ?_, ?_, fun role => ?_,
        fun role voted => campaigns role (mirrors.campaigns role voted),
    mirrors.unasked, mirrors.unbatched⟩
  · intro m' inside
    rcases List.mem_append.1 inside with old | new
    · exact mirrors.means m' old
    · rw [List.mem_singleton.1 new]
      exact means
  · intro m' inside
    rcases List.mem_append.1 inside with old | new
    · exact (mirrors.queue m' old).mono (Set.union_subset_union_right _ more)
    · rw [List.mem_singleton.1 new]
      exact backed
  · have rules := mirrors.rules role
    refine ⟨fun m' inside => ?_, rules.positions, rules.reads, rules.decides⟩
    rcases List.mem_append.1 inside with old | new
    · exact rules.queue m' old
    · rw [List.mem_singleton.1 new]
      exact leads role

/-- The leader that a node hears was elected in the term of the node. -/
theorem Core.Lives.heard_leader (lives : c.Lives cs h x durable pending P V) {asked : Message}
    (credible : asked.Credible h x) (kind : asked.Leads) (hears : c.Hears asked) :
    asked.term = c.term ∧ ∃ e ∈ h.elections, e.term = V.term ∧ e.leader ≠ x := by
  have sent : asked.msgType ≠ .msgPropose ∧ asked.msgType ≠ .msgReadIndex ∧
      asked.msgType ≠ .msgTransferLeader := by
    rcases kind with kind | kind | kind <;> simp [kind]
  obtain ⟨receiver, means, -⟩ := credible.sent sent
  obtain ⟨e, member, term, leader⟩ := means.leads (.inl kind)
  have same : asked.term = c.term :=
    hears.resolve_right fun zero => lives.recounts.positive e member (term.trans zero)
  refine ⟨same, e, member, ?_, ?_⟩
  · rw [term, same, lives.mirrors.picture.term]
  · rw [leader]
    exact credible.other (.inl kind)

/-- A node that sends a message continues the history. -/
theorem Core.Lives.send (several : cs.NoSingleton) (heard : ∀ m, inp (.message m) → m.Credible h x)
    (unasked : ¬ inp .requestSnapshot) (own : c.state = .candidate → c.vote = x)
    (positive : x ≠ invalidId) (lives : c.Lives cs h x durable pending P V) (sends : Sends inp c m) :
    (c.push m).Continues cs h x durable pending := by
  have means := sends.means heard unasked lives
  have picture := lives.mirrors.picture
  have named := lives.mirrors.named
  have quiet : (∀ x P, m.Backed x P) → (c.push m).Continues cs h x durable pending := fun backed =>
    (lives.push (Set.Subset.refl _) lives.inv means (backed _ _) (fun _ => backed _ _) fun _ same =>
      same).continues
  cases sends.promised with
  | plain backed => exact quiet backed
  | request role kind sender term index last =>
      have vote : V.vote = some x := by rw [picture.vote, own role, voteFor, if_neg positive]
      have inv : h.NodeInv x durable pending (some ⟨P ∪ {.vote V.term x V.log}, V⟩) := by
        refine lives.inv.promise ⟨le_rfl, fun _ => ⟨vote, fun _ => rfl⟩⟩
          ⟨lives.inv.proper.path, .inl rfl⟩ rfl
          (fun q => lives.inv.proper.vote_compatible lives.recounts.valid several.intersecting ?_)
        intro c' log' kept
        exact Option.some.inj ((kept.2 rfl).1.symm.trans vote)
      refine (lives.push Set.subset_union_left inv means
        ⟨fun _ => ⟨sender.trans named, V.log, ?_, ?_, ?_⟩, ?_, ?_⟩ ?_
        ?_).continues
      · rw [term, ← picture.term]
        exact .inr (.inr rfl)
      · rw [lives.mirrors.length, index]
      · exact picture.log.lastTerm last
      · simp [kind]
      · simp [kind]
      · simp [role]
      · intro _ only
        rw [← picture.term] at only ⊢
        exact Set.union_subset only (Set.Subset.refl _)
  | floor stepped leads hears role kind sender term index =>
      obtain ⟨-, elected⟩ := lives.heard_leader (heard _ stepped) (leads.imp_right .inr) hears
      by_cases zero : c.log.committed = 0
      · exact quiet fun _ _ => Message.backed_of_plain (by simp [kind])
          (fun _ => .inr (index.trans zero)) (by simp [kind])
      · have follows : V.role = .follower := by rw [picture.role, role]; rfl
        have inv := lives.inv.floor follows elected picture.commit.ge
        refine (lives.push Set.subset_union_left inv means ⟨?_, ?_,
          fun _ _ _ => ⟨sender.trans named, .inr ?_⟩⟩ ?_
          ?_).continues
        · simp [kind]
        · simp [kind]
        · rw [term, index, ← picture.term]
          exact .inr (.inr rfl)
        · simp [role]
        · simp [role]

end RaftRs

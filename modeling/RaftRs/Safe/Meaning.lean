import RaftRs.Safe.Picture

namespace RaftRs

open Library

/-- The leader of a term may announce an index of its log as committed. -/
def Announces (h : History Nat Entry) (t i : Nat) : Prop :=
  i ≤ (h.log t).length ∧ h.Committed ((h.log t).take i)

namespace Message

/-- A message with which a leader moves its followers. -/
def Leads (m : Message) : Prop :=
  m.msgType = .msgAppend ∨ m.msgType = .msgHeartbeat ∨ m.msgType = .msgSnapshot

/-- A message that a node never sends to itself. -/
def Crosses (m : Message) : Prop :=
  m.Leads ∨ m.IsVoteRequest ∨ m.msgType = .msgAppendResponse ∨ m.msgType = .msgHeartbeatResponse

/-- What a message says is true of the history. -/
structure Means (h : History Nat Entry) (m : Message) : Prop where
  leads : m.Leads ∨ m.msgType = .msgReadIndexResp → ∃ e ∈ h.elections, e.term = m.term ∧
    e.leader = m.fromId
  crosses : m.Crosses → m.toId ≠ m.fromId
  /-- A leader that takes a follower to be ahead of its own log probes an index without a term. -/
  append : m.msgType = .msgAppend → SliceOf (h.log m.term) m ∨
    (m.entries = [] ∧ m.logTerm = 0 ∧ ∃ j, m.index ≤ j ∧ h.Acked m.toId m.term j)
  commit : m.msgType = .msgAppend ∨ m.msgType = .msgHeartbeat → Announces h m.term m.commit
  heartbeat : m.msgType = .msgHeartbeat → m.commit = 0 ∨ ∃ j, m.commit ≤ j ∧ h.Acked m.toId m.term j
  snapshot : m.msgType = .msgSnapshot → Announces h m.term m.snapshot.metadata.index ∧
    termAt (h.log m.term) m.snapshot.metadata.index = m.snapshot.metadata.term
  read : m.msgType = .msgReadIndexResp → Announces h m.term m.index
  vote : m.IsVoteRequest ∨ m.IsVoteResponse → m.commitTerm ≠ 0 →
    ∃ log, h.Committed log ∧ log.length = m.commit ∧ lastTerm log = m.commitTerm
  unasked : m.msgType = .msgAppendResponse → m.requestSnapshot = 0

/-- The promises that a node makes with a message are among the given ones. -/
structure Backed (x : Nat) (P : Set (Promise Nat Entry)) (m : Message) : Prop where
  request : m.msgType = .msgRequestVote → m.fromId = x ∧
    ∃ log, .vote m.term x log ∈ P ∧ log.length = m.index ∧ lastTerm log = m.logTerm
  grant : m.msgType = .msgRequestVoteResponse → m.reject = false → m.fromId = x ∧
    ∃ log, .vote m.term m.toId log ∈ P
  ack : m.msgType = .msgAppendResponse → m.reject = false → m.index ≠ 0 → m.fromId = x ∧
    (.ack m.term m.index ∈ P ∨ .floor m.term m.index ∈ P)

/-- A message of the application or one whose promises and meaning its receiver may rely on. -/
def Credible (h : History Nat Entry) (id : Nat) (m : Message) : Prop :=
  m.Own ∨ (m.toId = id ∧ m.Means h ∧ m.Backed m.fromId (h.recorded m.fromId))

variable {h h' : History Nat Entry} {m : Message} {x : Nat} {P P' : Set (Promise Nat Entry)}

theorem Backed.mono (backed : m.Backed x P) (more : P ⊆ P') : m.Backed x P' where
  request kind :=
    (backed.request kind).imp_right fun found => found.imp fun _ both => ⟨more both.1, both.2⟩
  grant kind granted :=
    (backed.grant kind granted).imp_right fun found => found.imp fun _ cast => more cast
  ack kind accepted nonzero :=
    (backed.ack kind accepted nonzero).imp_right fun found => found.imp (fun p => more p) fun p => more p

/-- A message that neither asks for a vote, nor grants one, nor acknowledges anything needs no
promise. -/
theorem backed_of_plain (request : m.msgType ≠ .msgRequestVote)
    (response : m.msgType = .msgRequestVoteResponse ∨ m.msgType = .msgAppendResponse →
      m.reject = true ∨ m.index = 0)
    (grant : m.msgType = .msgRequestVoteResponse → m.reject = true) : m.Backed x P where
  request kind := absurd kind request
  grant kind granted := by simp [grant kind] at granted
  ack kind accepted nonzero := by
    rcases response (.inr kind) with rejected | zero
    · simp [rejected] at accepted
    · exact absurd zero nonzero

/-- A message of the kinds that say nothing about the history. -/
theorem means_of_other
    (kind : m.msgType = .msgPropose ∨ m.msgType = .msgReadIndex ∨ m.msgType = .msgTransferLeader ∨
    m.msgType = .msgTimeoutNow) : m.Means h := by
  rcases kind with kind | kind | kind | kind <;>
    refine ⟨?_, ?_, ?_, ?_, ?_, ?_, ?_, ?_, ?_⟩ <;>
    simp [Leads, Crosses, IsVoteRequest, IsVoteResponse, kind]

end Message

variable {h h' : History Nat Entry} {m : Message} {x t i : Nat}

theorem Announces.mono (announced : Announces h t i) (ext : h.Extends h') : Announces h' t i := by
  refine ⟨announced.1.trans (ext.log t).length_le, ?_⟩
  rw [ext.log_take announced.1]
  exact ext.committed announced.2

theorem Announces.of_le (announced : Announces h t i) {j : Nat} (le : j ≤ i) : Announces h t j :=
  ⟨le.trans announced.1, announced.2.of_start (List.take_prefix_take_left le)⟩

theorem Message.Means.mono (means : m.Means h) (ext : h.Extends h') : m.Means h' where
  leads kind := (means.leads kind).imp fun _ found => ⟨ext.election found.1, found.2⟩
  crosses := means.crosses
  append kind := by
    rcases means.append kind with slice | ⟨entries, term, j, le, acked⟩
    · exact .inl (slice.grow (ext.log m.term))
    · exact .inr ⟨entries, term, j, le, ext.acked acked⟩
  commit kind := (means.commit kind).mono ext
  heartbeat kind :=
    (means.heartbeat kind).imp_right fun found => found.imp fun _ both => ⟨both.1, ext.acked both.2⟩
  snapshot kind := by
    obtain ⟨announced, term⟩ := means.snapshot kind
    refine ⟨announced.mono ext, ?_⟩
    rw [termAt, ext.log_take announced.1]
    exact term
  read kind := (means.read kind).mono ext
  vote kind nonzero := (means.vote kind nonzero).imp fun _ found => ⟨ext.committed found.1, found.2⟩
  unasked := means.unasked

theorem Message.Credible.mono {id : Nat} (credible : m.Credible h id) (ext : h.Extends h') :
    m.Credible h' id := by
  rcases credible with ofOwn | ⟨receiver, means, backed⟩
  · exact .inl ofOwn
  · exact .inr ⟨receiver, means.mono ext, backed.mono (ext.recorded _)⟩

/-- A message that no application hands to its node was sent by a node. -/
theorem Message.Credible.sent {id : Nat} (credible : m.Credible h id)
    (kind : m.msgType ≠ .msgPropose ∧ m.msgType ≠ .msgReadIndex ∧ m.msgType ≠ .msgTransferLeader) :
    m.toId = id ∧ m.Means h ∧ m.Backed m.fromId (h.recorded m.fromId) := by
  refine credible.resolve_left ?_
  rintro ⟨same | same | same, -⟩
  · exact kind.1 same
  · exact kind.2.1 same
  · exact kind.2.2 same

end RaftRs

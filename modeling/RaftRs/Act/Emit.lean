import RaftRs.Act.Act

namespace RaftRs

open Library

/-- The messages that an atomic change from one core to another may queue. -/
inductive Core.Emits (inp : Input → Prop) (c c' : Core) : Message → Prop where
  | sends {m : Message} (sends : Sends inp c m) (same : c'.term = c.term ∧ c'.vote = c.vote) :
      Emits inp c c' m
  | grant {m : Message} (stepped : inp (.message m)) (kind : m.msgType = .msgRequestVote)
      (term : m.term = c.term) (nonzero : m.term ≠ 0) (free : c.vote = m.fromId ∨ c.vote = invalidId)
      (cast : c'.term = c.term ∧ c'.vote = m.fromId) :
      Emits inp c c' { msgType := .msgRequestVoteResponse, toId := m.fromId, fromId := c.id,
                       term := m.term }
  | ack {m : Message} {index commit : Nat} (stepped : inp (.message m))
      (kind : m.msgType = .msgAppend ∨ m.msgType = .msgSnapshot) (heard : c.Hears m)
      (role : c.state = .follower) (same : c'.term = c.term) : Emits inp c c' (c.ackFor m index commit)
  | snapshot {toId request : Nat} {snapshot : Snapshot} (role : c.state = .leader)
      (same : c'.term = c.term) (taken : c.log.snapshot request = .ok (c.log, .ok snapshot)) :
      Emits inp c c' { msgType := .msgSnapshot, toId, fromId := c.id, term := c.term, snapshot }
  | batched {msg : Message} {ents : List Entry} {commit : Nat} (role : c.state = .leader)
      (queued : msg ∈ c.msgs) (kind : msg.msgType = .msgAppend)
      (same : c'.term = c.term ∧ c'.vote = c.vote) (enabled : c.batchAppend = true) :
      Emits inp c c' { msg with entries := msg.entries ++ ents, commit }
  | read {toId index : Nat} {entries : List Entry} (role : c.state = .leader) (same : c'.term = c.term) :
      Emits inp c c' { msgType := .msgReadIndexResp, toId, fromId := c.id, term := c.term, index,
                       entries }

variable {inp : Input → Prop} {c c' : Core} {m : Message}

theorem Core.respond_msgs {req : Message} {index : Nat} (inside : m ∈ (c.respond req index).msgs) :
    m ∈ c.msgs ∨
      m = { msgType := .msgReadIndexResp, toId := req.fromId, fromId := c.id, term := c.term, index
            entries := req.entries } := by
  unfold Core.respond at inside
  split at inside
  · split at inside
    · exact .inl inside
    · exact .inl inside
  · rcases List.mem_append.1 inside with old | last
    · exact .inl old
    · exact .inr (List.mem_singleton.1 last)

/-- Answered reads queue only their answers. -/
theorem Core.responds_msgs {confirmed : List ReadIndexStatus} {c : Core}
    (inside : m ∈ (confirmed.foldl (fun c rs => c.respond rs.req rs.index) c).msgs) :
    m ∈ c.msgs ∨ ∃ toId index entries,
      m = { msgType := .msgReadIndexResp, toId, fromId := c.id, term := c.term, index, entries } := by
  induction confirmed generalizing c with
  | nil => exact .inl inside
  | cons status rest ih =>
      obtain ⟨_, _, same⟩ := c.respond_rest status.req status.index
      rcases ih inside with early | ⟨toId, index, entries, late⟩
      · rcases Core.respond_msgs early with old | answer
        · exact .inl old
        · exact .inr ⟨_, _, _, answer⟩
      · refine .inr ⟨toId, index, entries, ?_⟩
        simp only [late, same]

/-- Every queued message was queued before or is one that the change may queue. -/
theorem Act.emits (act : Act inp c c') (inside : m ∈ c'.msgs) : m ∈ c.msgs ∨ c.Emits inp c' m := by
  have last : ∀ {m' : Message}, m ∈ c.msgs ++ [m'] → c.Emits inp c' m' → m ∈ c.msgs ∨
      c.Emits inp c' m := by
    intro m' inside emits
    rcases List.mem_append.1 inside with old | last
    · exact .inl old
    · rw [List.mem_singleton.1 last]
      exact .inr emits
  cases act with
  | send sends => exact last inside (.sends sends ⟨rfl, rfl⟩)
  | grant stepped kind term nonzero free complete =>
      exact last inside (.grant stepped kind term nonzero free ⟨rfl, rfl⟩)
  | accept stepped kind heard role unasked above done =>
      exact last inside (.ack stepped (.inl kind) heard role rfl)
  | restore stepped kind heard role fresh done same rostered =>
      exact last inside (.ack stepped (.inr kind) heard role rfl)
  | sendSnapshot role other known taken nonempty => exact last inside (.snapshot role rfl taken)
  | @batch toId pos before after msg ents maxSize context role enabled known read queued kind
      receiver continuous =>
      have old : ∀ m' ∈ before ++ msg :: after, m' ∈ c.msgs := by
        intro m' member
        rw [queued]
        exact member
      rcases List.mem_append.1 inside with early | rest
      · exact .inl (old m (List.mem_append_left _ early))
      · rcases List.mem_cons.1 rest with rfl | late
        · exact .inr (.batched role (old msg (List.mem_append_right _ List.mem_cons_self)) kind
            ⟨rfl, rfl⟩ enabled)
        · exact .inl (old m (List.mem_append_right _ (List.mem_cons_of_mem _ late)))
  | persist reported done =>
      rw [Core.countOwn_rest] at inside
      exact .inl inside
  | @confirm ctx status readOnly confirmed role pending acked done =>
      obtain ⟨_, _, same⟩ := Core.responds_rest { c with readOnly } confirmed
      rcases Core.responds_msgs inside with old | ⟨toId, index, entries, answer⟩
      · exact .inl old
      · rw [answer]
        exact .inr (.read role (by rw [same]))
  | @respondNow req stepped kind role immediate =>
      obtain ⟨_, _, same⟩ := c.respond_rest req c.log.committed
      rcases Core.respond_msgs inside with old | answer
      · exact .inl old
      · rw [answer]
        exact .inr (.read role (by rw [same]))
  | _ => exact .inl inside

end RaftRs

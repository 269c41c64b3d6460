import RaftRs.Model.Play
import RaftRs.Track.Prudent

namespace RaftRs

open Library

variable {inp : Input → Prop} {c c' : Core} {m : Message}

/-- A node is a quorum alone. -/
def Raft.alone (r : Raft) : Bool :=
  r.prs.conf.voters.voteResult (fun voter => if voter = r.id then some true else none) == .won

/-- A node that campaigns, may campaign by itself or is told to. -/
def Raft.electable (r : Raft) (forced : Bool) : Bool :=
  r.promotable || r.state == .preCandidate || r.state == .candidate || forced

/-- An operation that may let its node win an election, and whether it makes the node campaign in
every case. -/
def HostOp.election : HostOp → Option Bool
  | .tick => some false
  | .campaign => some true
  | .deliver m =>
      if m.msgType = .msgHup ∨ m.msgType = .msgTimeoutNow ∨ m.msgType = .msgRequestVoteResponse ∨
          m.msgType = .msgRequestPreVoteResponse then some false
      else none
  | _ => none

/-- A node that leads after a call without an election has led before in its term. -/
theorem Acts.leads_before (quiet : ¬ inp .election) (acts : Acts inp c c') (leads : c'.state = .leader) :
    c.state = .leader ∧ c'.term = c.term := by
  induction acts with
  | refl => exact ⟨leads, rfl⟩
  | tail _ act ih =>
      obtain ⟨term, led | ⟨may, -⟩⟩ := act.leader_turns leads
      · obtain ⟨before, same⟩ := ih led
        exact ⟨before, term.trans same⟩
      · exact absurd may quiet

/-- The messages of a light Ready are the queue of a leader behind the reported Ready. -/
theorem RawNode.advanceAppend_messages {rn rn' : RawNode} {rd : Ready} {light : LightReady}
    (done : rn.advanceAppend rd = .ok (rn', light)) (inside : m ∈ light.messages) :
    ∃ rn₁ rn₂, rn.commitReady rd = .ok rn₁ ∧ rn₁.onPersistReady rn₁.maxNumber = .ok rn₂ ∧
      rn₂.raft.state = .leader ∧ m ∈ rn₂.raft.msgs ∧ rn'.maxNumber = rn₁.maxNumber := by
  unfold advanceAppend at done
  obtain ⟨rn₁, committed, done⟩ := bind_eq_ok.1 done
  obtain ⟨rn₂, reported, done⟩ := bind_eq_ok.1 done
  obtain ⟨⟨rn₃, light₃⟩, lit, done⟩ := bind_eq_ok.1 done
  have lights := genLightReady_lights lit
  have state : rn₃.raft.state = rn₂.raft.state := congrArg Core.state lights.core
  cases position : persistedPosition
    (rn₁.records.takeWhile fun record => record.number ≤ rn₁.maxNumber) with
  | mk snapIndex rest =>
  obtain ⟨-, kept⟩ := Meets.of_eq_ok (does_onPersistReady position) reported
  have number : rn₃.maxNumber = rn₁.maxNumber := by rw [lights.rest, kept]
  simp only at done
  split at done
  · cases done
  next withheld =>
    obtain ⟨⟨rn₄, light₄⟩, chosen, done⟩ := bind_eq_ok.1 done
    have handed : light₄.messages = light₃.messages ∧ rn₄.maxNumber = rn₃.maxNumber := by
      split_ifs at chosen
      · obtain ⟨rfl, rfl⟩ := ok_pair_inj chosen
        exact ⟨rfl, rfl⟩
      · obtain ⟨rfl, rfl⟩ := ok_pair_inj chosen
        exact ⟨rfl, rfl⟩
    simp only at done
    split at done
    · cases done
    obtain ⟨rfl, rfl⟩ := ok_pair_inj done
    rw [handed.1, lights.messages] at inside
    refine ⟨rn₁, rn₂, committed, reported, ?_, inside, handed.2.trans number⟩
    by_contra other
    refine withheld ⟨state ▸ other, ?_⟩
    rw [lights.messages]
    exact List.ne_nil_of_mem inside

namespace Host

variable {permitted : Config → Prop} {host host' : Host} {sent : List Message}

/-- The vote requests of a term wait for a write that was reported as persisted. -/
def requested (host : Host) (term : Nat) : Bool :=
  (host.past ++ [host.durable]).any fun write => write.number ≤ host.reported &&
    write.msgs.any fun m => m.msgType == .msgRequestVote && m.term == term

/-- A granted vote answers a request that has left the node, the snapshot of a leader is of no later
term, and no candidate or leader is asked for a pre-vote of a later term. -/
def admits (host : Host) (r : Raft) (m : Message) : Bool :=
  match m.msgType with
  | .msgRequestVoteResponse => m.reject || m.fromId == r.id || (m.term != 0 && m.term ≤ r.term &&
      (r.state != .candidate || m.term != r.term || host.requested r.term))
  | .msgSnapshot => m.snapshot.metadata.term ≤ m.term
  | .msgRequestPreVote => (r.state != .candidate && r.state != .leader) || m.term ≤ r.term
  | _ => true

/-- No election is decided by the own vote alone, and the messages are admitted. -/
def guards (host : Host) (op : HostOp) : Bool :=
  host.raw.all fun rn =>
    (match op.election with
      | some forced => !(rn.raft.electable forced && rn.raft.alone)
      | none => true) &&
    match op with
      | .deliver m => host.admits rn.raft m
      | _ => true

/-- A request that has left the node has its ballot reported. -/
theorem Prudent.reported_of_requested (prudent : host.Prudent) {term : Nat}
    (requested : host.requested term = true) :
    host.Reported term := by
  simp only [Host.requested, List.any_eq_true, Bool.and_eq_true, decide_eq_true_eq,
    beq_iff_eq] at requested
  obtain ⟨write, member, below, m, inside, kind, rfl⟩ := requested
  obtain ⟨positive, ballot⟩ := prudent.requests write (issued_of_durable member) m inside kind
  exact ⟨write, member, positive, below, ballot⟩

/-- The permission to win an election comes from the operations that may elect. -/
theorem election_of_inputs {op : HostOp} (may : op.inputs .election) :
    ∃ forced, op.election = some forced ∧ (op.inputs .campaign → forced = true) ∧
      (∀ cc, ¬ op.inputs (.confChange cc)) ∧
      ∀ m, op.inputs (.message m) → m.msgType ≠ .msgSnapshot ∧ m.msgType ≠ .msgRequestPreVote := by
  cases op with
  | tick => exact ⟨false, rfl, False.elim, fun _ => not_false, fun _ given => given.elim⟩
  | campaign => exact ⟨true, rfl, fun _ => rfl, fun _ => not_false, fun _ given => given.elim⟩
  | deliver m =>
      refine ⟨false, if_pos may, False.elim, fun _ => not_false, fun m' same => ?_⟩
      obtain rfl : m' = m := same
      rcases may with kind | kind | kind | kind <;> simp [kind]
  | _ => exact may.elim

/-- A node of a guarded operation heeds its inputs. -/
theorem Prudent.heeds (prudent : host.Prudent) {op : HostOp} {rn : RawNode} (raw : host.raw = some rn)
    (guarded : host.guards op = true) : rn.raft.core.Heeds host.Reported (rn.inputs op.inputs) := by
  simp only [guards, raw, Option.all_some, Bool.and_eq_true] at guarded
  obtain ⟨elections, messages⟩ := guarded
  have admitted : ∀ m, op.inputs (.message m) → ¬ m.Own → host.admits rn.raft m = true := by
    intro m input other
    rcases HostOp.inputs_message input with rfl | ofOwn
    · exact messages
    · exact absurd ofOwn other
  refine ⟨fun may electable agrees => ?_, fun may => ?_, fun m stepped kind accepted other => ?_,
    ?_, ?_, fun _ => ?_⟩
  · obtain ⟨forced, election, campaign, -⟩ := election_of_inputs may
    have runs : rn.raft.electable forced = true := by
      simp only [Raft.electable, Bool.or_eq_true, beq_iff_eq]
      rcases electable with (promotable | forces) | role | role
      · exact .inl (.inl (.inl promotable))
      · exact .inr (campaign forces)
      · exact .inl (.inl (.inr role))
      · exact .inl (.inr role)
    have alone : rn.raft.alone = true := by
      rw [Raft.alone, beq_iff_eq, JointConfig.voteResult_won]
      exact agrees.mono fun voter same => if_pos same
    simp [election, runs, alone] at elections
  · obtain ⟨-, -, -, fixed, plain⟩ := election_of_inputs may
    exact ⟨fixed, plain⟩
  · have foreign : ¬ m.Own := by
      rintro ⟨wrong | wrong | wrong, -⟩ <;> cases kind.symm.trans wrong
    have admits := admitted m stepped foreign
    have other : m.fromId ≠ rn.raft.id := other
    simp only [Host.admits, kind, accepted, Bool.false_or, Bool.or_eq_true, beq_iff_eq, other, false_or,
      Bool.and_eq_true, bne_iff_ne, decide_eq_true_eq] at admits
    obtain ⟨⟨termed, below⟩, current⟩ := admits
    refine ⟨termed, below, fun runs same => prudent.reported_of_requested ?_⟩
    rcases current with (idle | stale) | requested
    · exact absurd runs idle
    · exact absurd same stale
    · exact requested
  · intro m stepped kind
    have foreign : ¬ m.Own := by
      rintro ⟨wrong | wrong | wrong, -⟩ <;> cases kind.symm.trans wrong
    have admits := admitted m stepped foreign
    simpa [Host.admits, kind] using admits
  · intro m stepped kind role
    have foreign : ¬ m.Own := by
      rintro ⟨wrong | wrong | wrong, -⟩ <;> cases kind.symm.trans wrong
    have admits := admitted m stepped foreign
    simp only [Host.admits, kind, Bool.or_eq_true, Bool.and_eq_true, bne_iff_ne,
      decide_eq_true_eq] at admits
    rcases admits with ⟨idle, unled⟩ | within
    · rcases role with runs | leads
      · exact absurd runs idle
      · exact absurd leads unled
    · exact within
  · obtain ⟨latest, reached⟩ := prudent.latest rn raw
    refine ⟨reached.term_le, fun term reported => ?_⟩
    obtain ⟨write, member, -, -, ballot⟩ := reported
    exact (ballot.trans (latest write (issued_of_durable member))).term_le

variable [ConfChangeCodec] {start : Host} {op : HostOp} {ops : List HostOp}

omit [ConfChangeCodec] in
/-- An advanced Ready lets out only the queue of a node that led before in a reported term. -/
theorem Prudent.advanced (prudent : host.Prudent) {rn rn' : RawNode} {rd : Ready}
    {light : LightReady} {m : Message} (raw : host.raw = some rn)
    (outstanding : host.outstanding = some rd) (done : rn.advanceAppend rd = .ok (rn', light))
    (inside : m ∈ light.messages) :
    rn.raft.state = .leader ∧ Reported { host with
      reported := max host.reported rn'.maxNumber } rn.raft.term ∧ m.term ≤ rn.raft.term := by
  obtain ⟨rn₁, rn₂, committed, reported, leads, queued, number⟩ :=
    RawNode.advanceAppend_messages done inside
  have first : Phase (fun _ => False) (fun _ => False) host { host with
      raw := some rn₁, outstanding := none } [] :=
    .stable raw outstanding committed
  have quiet : ∀ rn, host.raw = some rn → rn.raft.core.Heeds host.Reported (rn.inputs fun _ => False) :=
    fun _ _ => Core.heeds_of_quiet not_false fun _ => not_false
  have after := first.prudent (fun _ => False.elim) quiet prudent
  obtain ⟨log, busy⟩ := prudent.tidy.busy rn rd raw outstanding
  obtain ⟨-, -, -, -, -, same⟩ := busy.settle committed
  have state : rn₁.raft.core.state = rn.raft.state ∧ rn₁.raft.core.term = rn.raft.term := by
    rw [same]
    exact ⟨rfl, rfl⟩
  cases position : RawNode.persistedPosition
    (rn₁.records.takeWhile fun record => record.number ≤ rn₁.maxNumber) with
  | mk snapIndex rest =>
      obtain ⟨index, term⟩ := rest
      obtain ⟨acts, -⟩ := Meets.of_eq_ok (RawNode.does_onPersistReady position) reported
      obtain ⟨led, kept⟩ := Acts.leads_before not_false acts leads
      have node := ((after.acts rfl (Core.heeds_of_quiet not_false fun _ => not_false) acts)).2
      have current : rn₂.raft.core.term = rn.raft.term := kept.trans state.2
      refine ⟨state.1.symm.trans led, ?_, ?_⟩
      · rw [← current]
        exact (node.leads leads).mono rfl (List.Subset.refl _) (le_max_left _ _)
      · by_contra beyond
        exact (node.bounded m queued (current ▸ not_le.1 beyond)).1 leads

omit [ConfChangeCodec] in
/-- A taken Ready lets out only the queue of a node that leads in a reported term. -/
theorem Prudent.readied (prudent : host.Prudent) {rn rn' : RawNode} {rd : Ready} {m : Message}
    (raw : host.raw = some rn) (taken : rn.ready = .ok (rn', rd)) (inside : m ∈ rd.messages) :
    rn.raft.state = .leader ∧ host.Reported rn.raft.term ∧ m.term ≤ rn.raft.term := by
  rw [(RawNode.ready_readies taken).messages] at inside
  split_ifs at inside with leads
  · have node := prudent.running rn raw
    refine ⟨leads, node.leads leads, ?_⟩
    by_contra beyond
    exact (node.bounded m inside (not_le.1 beyond)).1 leads
  · cases inside

/-- What is sent at once is the queue of a node that leads in a reported term. -/
theorem Prudent.released (prudent : host.Prudent) {m : Message}
    (stepped : host.step op = .ok (host', sent)) (immediate : ∀ number, op ≠ .send number)
    (inside : m ∈ sent) :
    ∃ rn, host.raw = some rn ∧ rn.raft.state = .leader ∧ host'.Reported rn.raft.term ∧
      m.term ≤ rn.raft.term := by
  cases step_moves stepped with
  | @ready rn _ _ _ raw idle taken written =>
      obtain ⟨leads, reported, within⟩ := prudent.readied raw taken inside
      exact ⟨rn, raw, leads, reported, within⟩
  | send => exact absurd rfl (immediate _)
  | @advance rn rn' rd light raw outstanding written advanced =>
      obtain ⟨⟨rn₁, light₁⟩, appended, advanced⟩ := bind_eq_ok.1 advanced
      obtain ⟨rn₂, applied, advanced⟩ := bind_eq_ok.1 advanced
      obtain ⟨rfl, rfl⟩ := ok_pair_inj advanced
      obtain ⟨raft, -, same⟩ := bind_eq_ok.1 applied
      obtain rfl := Except.ok.inj same
      obtain ⟨leads, reported, within⟩ := prudent.advanced raw outstanding appended inside
      exact ⟨rn, raw, leads, reported.mono rfl (List.Subset.refl _) le_rfl, within⟩
  | @advanceAppend rn rn' rd light raw outstanding written advanced =>
      obtain ⟨leads, reported, within⟩ := prudent.advanced raw outstanding advanced inside
      exact ⟨rn, raw, leads, reported.mono rfl (List.Subset.refl _) le_rfl, within⟩
  | _ => cases inside

end Host

end RaftRs

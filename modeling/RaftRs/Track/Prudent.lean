import RaftRs.Act.Turn
import RaftRs.Node.Uniform
import RaftRs.Track.Drive

namespace RaftRs

open Library

/-- No quorum of a node consists of the node alone. -/
def Core.Several (c : Core) : Prop := ¬ c.conf.voters.Agrees fun voter => voter = c.id

/-- A node that campaigns or may start to. -/
def Core.Electable (inp : Input → Prop) (c : Core) : Prop :=
  c.Eligible inp ∨ c.state = .preCandidate ∨ c.state = .candidate

/-- What a call may hand to a node: no election that the own vote decides, only votes for a reported
candidacy, snapshots of a term that is not ahead of their sender, and to a candidate or leader no
later pre-vote. Reported terms are stored before an election. -/
structure Core.Heeds (reported : Nat → Prop) (inp : Input → Prop) (c : Core) : Prop where
  several : inp .election → c.Electable inp → c.Several
  apart : inp .election → (∀ cc, ¬ inp (.confChange cc)) ∧
    ∀ m, inp (.message m) → m.msgType ≠ .msgSnapshot ∧ m.msgType ≠ .msgRequestPreVote
  granted : ∀ m, inp (.message m) → m.msgType = .msgRequestVoteResponse → m.reject = false →
    m.fromId ≠ c.id →
    m.term ≠ 0 ∧ m.term ≤ c.term ∧ (c.state = .candidate → m.term = c.term → reported c.term)
  grounded : ∀ m, inp (.message m) → m.msgType = .msgSnapshot → m.snapshot.metadata.term ≤ m.term
  invited : ∀ m, inp (.message m) → m.msgType = .msgRequestPreVote → c.state = .candidate ∨
    c.state = .leader → m.term ≤ c.term
  stored : inp .election →
    c.log.store.ballot.term ≤ c.term ∧ ∀ term, reported term → term ≤ c.log.store.ballot.term

/-- A node does not lead, and its candidacy is not yet stored. -/
def Core.Unelected (c : Core) : Prop :=
  c.state ≠ .leader ∧ (c.state = .candidate → c.log.store.ballot.term < c.term)

/-- A node leads only a term whose own vote was reported as persisted, and only an unelected node
has messages ahead of its term in its queue. -/
structure Core.Prudent (reported : Nat → Prop) (id : Nat) (c : Core) : Prop where
  named : c.id = id
  positive : id ≠ invalidId
  own : c.state = .candidate ∨ c.state = .leader → c.vote = id
  queued : ∀ m ∈ c.msgs, m.msgType = .msgRequestVote → Ballot.Before ⟨m.term, id⟩ c.ballot
  bounded : ∀ m ∈ c.msgs, c.term < m.term → c.Unelected
  snapshot : ∀ s, c.log.unstable.snapshot = some s → s.metadata.term ≤ c.term
  counted : c.state = .candidate → ∀ voter, voter ≠ id → c.votes voter = some true → reported c.term
  leads : c.state = .leader → reported c.term

variable {reported : Nat → Prop} {id : Nat} {inp : Input → Prop} {c c' : Core} {m : Message}

theorem Act.electable (act : Act inp c c') (same : c'.promotable = c.promotable)
    (electable : c'.Electable inp) :
    c.Electable inp := by
  have eligible : c'.Eligible inp → c.Electable inp := by
    rintro (promotable | forced)
    · exact .inl (.inl (same ▸ promotable))
    · exact .inl (.inr forced)
  rcases electable with may | role
  · exact eligible may
  obtain ⟨-, -, turns⟩ := act.turns
  cases turns with
  | keep state term vote votes => exact .inr (state ▸ role)
  | follow state => simp [state] at role
  | grant stepped kind free state term vote votes => exact .inr (state ▸ role)
  | preCampaign may allowed state term vote votes => exact .inl allowed
  | campaign may cause state term vote votes =>
      rcases cause with ⟨allowed, -⟩ | ⟨ran, -⟩
      · exact .inl allowed
      · exact .inr (.inl ran)
  | count state term vote votes source => exact .inr (state ▸ role)
  | lead may candidate won state term vote => exact .inr (.inr candidate)

theorem Act.heeds (heeds : c.Heeds reported inp) (act : Act inp c c') : c'.Heeds reported inp where
  several may electable := by
    obtain ⟨fixed, plain⟩ := heeds.apart may
    obtain ⟨conf, promotable⟩ := act.standing fixed fun m stepped => (plain m stepped).1
    have several := heeds.several may (act.electable promotable electable)
    rw [Core.Several, conf, act.turns.1]
    exact several
  apart := heeds.apart
  granted m stepped kind accepted other := by
    rw [act.turns.1] at other
    obtain ⟨termed, below, current⟩ := heeds.granted m stepped kind accepted other
    refine ⟨termed, below.trans act.forward.term, fun runs same => ?_⟩
    rcases act.candidate_cases runs with ⟨ran, kept⟩ | next
    · rw [kept] at same ⊢
      exact current ran same
    · omega
  grounded := heeds.grounded
  invited m stepped kind role := by
    have before := heeds.invited m stepped kind
    obtain ⟨-, -, turns⟩ := act.turns
    cases turns with
    | keep state term vote votes => exact term ▸ before (state ▸ role)
    | follow state => simp [state] at role
    | grant voted other free state term vote votes => exact term ▸ before (state ▸ role)
    | preCampaign may eligible state term vote votes => simp [state] at role
    | campaign may cause state term vote votes => exact absurd kind ((heeds.apart may).2 m stepped).2
    | count state term vote votes source => exact term ▸ before (state ▸ role)
    | lead may candidate won state term vote => exact absurd kind ((heeds.apart may).2 m stepped).2
  stored may := by
    obtain ⟨below, written⟩ := heeds.stored may
    rw [act.store_same.ballot]
    exact ⟨below.trans act.forward.term, written⟩

theorem Core.Several.other (several : c.Several) (won : c.Won) :
    ∃ voter, voter ≠ c.id ∧ c.votes voter = some true := by
  by_contra none
  push Not at none
  refine several (won.mono fun voter yes => ?_)
  by_contra other
  exact none voter other yes

/-- A vote of another node is counted only for a reported candidacy. -/
theorem Act.prudent_counted (heeds : c.Heeds reported inp) (prudent : c.Prudent reported id)
    (act : Act inp c c') (runs : c'.state = .candidate) {voter : Nat} (other : voter ≠ id)
    (yes : c'.votes voter = some true) :
    reported c'.term := by
  obtain ⟨-, -, turns⟩ := act.turns
  cases turns with
  | keep state term vote votes =>
      rw [term]
      exact prudent.counted (state ▸ runs) voter other (votes ▸ yes)
  | follow state => cases state.symm.trans runs
  | grant stepped kind free state term vote votes =>
      rw [term]
      exact prudent.counted (state ▸ runs) voter other (votes ▸ yes)
  | preCampaign may eligible state term vote votes => cases state.symm.trans runs
  | campaign may cause state term vote votes =>
      rw [votes] at yes
      cases yes
  | @count counted answer state term vote votes source =>
      have ran : c.state = .candidate := state ▸ runs
      have earlier := prudent.counted ran voter other
      rw [term]
      rw [votes] at yes
      unfold Core.count at yes
      simp only at yes
      split at yes
      · exact earlier yes
      by_cases same : voter = counted
      · subst same
        rw [Function.update_self] at yes
        rcases source with self | ⟨m, stepped, sender, answered, ⟨role, -⟩ | ⟨-, kind, hears⟩⟩
        · exact absurd (self.trans prudent.named) other
        · cases ran.symm.trans role
        · have accepted : m.reject = false := by simpa [answered] using yes
          have foreign : m.fromId ≠ c.id := by
            rw [sender, prudent.named]
            exact other
          obtain ⟨termed, -, current⟩ := heeds.granted m stepped kind accepted foreign
          exact current ran (hears.resolve_right termed)
      · rw [Function.update_of_ne same] at yes
        exact earlier yes
  | lead may candidate won state term vote => cases state.symm.trans runs

/-- A vote request asks in the term of its sender, which has voted for itself. -/
theorem Core.Emits.request (prudent : c.Prudent reported id) (emits : c.Emits inp c' m)
    (kind : m.msgType = .msgRequestVote) : m.term = c'.term ∧ c'.vote = id := by
  cases emits with
  | sends sends same =>
      cases sends with
      | voteRequest role other info last => exact ⟨same.1.symm, same.2.trans (prudent.own (.inl role))⟩
      | voteReject stepped other nonzero info =>
          rcases other with other | other <;> simp [Raft.voteRespMsgType, other] at kind
      | forward stepped role other =>
          rcases other with ⟨other, -⟩ | ⟨other, -⟩ | ⟨other, -⟩ <;> simp [other] at kind
      | _ => cases kind
  | batched role queued other same enabled => cases other.symm.trans kind
  | _ => cases kind

/-- A node that does not lead stays unelected: a candidacy is stored before another vote for it is
counted. -/
theorem Act.unelected (heeds : c.Heeds reported inp) (prudent : c.Prudent reported id)
    (act : Act inp c c') (unelected : c.Unelected) : c'.Unelected := by
  have store : c'.log.store.ballot = c.log.store.ballot := act.store_same.ballot
  obtain ⟨unled, unstored⟩ := unelected
  unfold Core.Unelected
  rw [store]
  obtain ⟨-, -, turns⟩ := act.turns
  cases turns with
  | keep state term vote votes => exact state ▸ term ▸ ⟨unled, unstored⟩
  | follow state => simp [state]
  | grant voted other free state term vote votes => exact state ▸ term ▸ ⟨unled, unstored⟩
  | preCampaign may eligible state term vote votes => simp [state]
  | campaign may cause state term vote votes =>
      have stored := (heeds.stored may).1
      exact ⟨by simp [state], fun _ => by omega⟩
  | count state term vote votes source => exact state ▸ term ▸ ⟨unled, unstored⟩
  | lead may ran won state term vote =>
      obtain ⟨voter, other, yes⟩ := (heeds.several may (.inr (.inr ran))).other won
      have reported := prudent.counted ran voter (prudent.named ▸ other) yes
      exact absurd ((heeds.stored may).2 _ reported) (not_le.2 (unstored ran))

/-- A new message that is ahead of its sender asks for a pre-vote or grants one. -/
theorem Core.Emits.ahead (emits : c.Emits inp c' m) (ahead : c'.term < m.term) :
    c.state = .preCandidate ∨
    (∃ asked, inp (.message asked) ∧ asked.msgType = .msgRequestPreVote ∧ asked.term = m.term ∧
      c'.term = c.term) ∨ ∃ old ∈ c.msgs, old.term = m.term := by
  cases emits with
  | sends sends same =>
      cases sends with
      | preVoteRequest role => exact .inl role
      | preVoteGrant stepped kind => exact .inr (.inl ⟨_, stepped, kind, rfl, same.1⟩)
      | forward stepped role kind =>
          rcases kind with ⟨-, rfl⟩ | ⟨-, rfl⟩ | ⟨-, rfl⟩
          · exact absurd ahead (Nat.not_lt_zero _)
          · exact absurd ahead (Nat.not_lt_zero _)
          · exact absurd ahead (not_lt.2 same.1.ge)
      | _ => exact absurd ahead (not_lt.2 same.1.ge)
  | grant stepped kind term nonzero free cast =>
      exact absurd ahead (not_lt.2 (term.trans cast.1.symm).le)
  | ack stepped kind heard role same => exact absurd ahead (not_lt.2 same.ge)
  | snapshot role same taken => exact absurd ahead (not_lt.2 same.ge)
  | @batched msg ents commit role queued kind same enabled => exact .inr (.inr ⟨msg, queued, rfl⟩)
  | read role same => exact absurd ahead (not_lt.2 same.ge)

/-- Only an unelected node has messages ahead of its term in its queue. -/
theorem Act.prudent_bounded (heeds : c.Heeds reported inp) (prudent : c.Prudent reported id)
    (act : Act inp c c') (inside : m ∈ c'.msgs) (ahead : c'.term < m.term) : c'.Unelected := by
  have forward := act.forward.term
  have old : ∀ m' ∈ c.msgs, m'.term = m.term → c'.Unelected := fun m' queued same =>
    act.unelected heeds prudent (prudent.bounded m' queued (by omega))
  rcases act.emits inside with before | new
  · exact old m before rfl
  rcases new.ahead ahead with role | ⟨asked, stepped, kind, same, kept⟩ | ⟨m', queued, same⟩
  · exact act.unelected heeds prudent ⟨by simp [role], by simp [role]⟩
  · have other : ¬ (c.state = .candidate ∨ c.state = .leader) := fun role => by
      have := heeds.invited asked stepped kind role
      omega
    push Not at other
    exact act.unelected heeds prudent ⟨other.2, fun runs => absurd runs other.1⟩
  · exact old m' queued same

/-- Every atomic change keeps a node prudent. -/
theorem Act.prudent (heeds : c.Heeds reported inp) (prudent : c.Prudent reported id)
    (act : Act inp c c') :
    c'.Prudent reported id where
  named := act.turns.1.trans prudent.named
  positive := prudent.positive
  own := act.own_vote prudent.named prudent.positive prudent.own
  queued m inside kind := by
    rcases act.emits inside with old | new
    · exact (prudent.queued m old kind).trans act.forward.ballot
    · obtain ⟨term, vote⟩ := new.request prudent kind
      exact .inr ⟨term, .inl vote.symm⟩
  bounded m inside ahead := act.prudent_bounded heeds prudent inside ahead
  snapshot s pending := by
    have forward := act.forward.term
    rcases act.snapshot_cases with same | ⟨m, stepped, kind, heard, restored⟩
    · exact (prudent.snapshot s (same ▸ pending)).trans forward
    · obtain rfl := Option.some.inj ((RaftLog.restore_rest restored).2.symm.trans pending)
      have grounded := heeds.grounded m stepped kind
      rcases heard with same | zero <;> omega
  counted runs _ other yes := act.prudent_counted heeds prudent runs other yes
  leads leads := by
    obtain ⟨term, led | ⟨may, ran, won⟩⟩ := act.leader_turns leads
    · rw [term]
      exact prudent.leads led
    · obtain ⟨voter, other, yes⟩ := (heeds.several may (.inr (.inr ran))).other won
      rw [term]
      exact prudent.counted ran voter (prudent.named ▸ other) yes

theorem Acts.prudent (heeds : c.Heeds reported inp) (prudent : c.Prudent reported id)
    (acts : Acts inp c c') :
    c'.Prudent reported id := by
  have both : c'.Heeds reported inp ∧ c'.Prudent reported id := by
    induction acts with
    | refl => exact ⟨heeds, prudent⟩
    | tail _ act ih => exact ⟨act.heeds ih.1, act.prudent ih.1 ih.2⟩
  exact both.2

/-- A prudent node stays so with more reports, a log without a new snapshot, and fewer messages, or
none after a write. -/
theorem Core.Prudent.keep {reported' : Nat → Prop} {log : RaftLog} {msgs : List Message}
    {readStates : List ReadState} (prudent : c.Prudent reported id)
    (more : ∀ term, reported term → reported' term)
    (fewer : msgs = [] ∨ msgs = c.msgs ∧ log.store.ballot = c.log.store.ballot)
    (pending : ∀ s, log.unstable.snapshot = some s → c.log.unstable.snapshot = some s) :
    Core.Prudent reported' id { c with log, msgs, readStates } where
  named := prudent.named
  positive := prudent.positive
  own := prudent.own
  queued m inside := by
    rcases fewer with rfl | ⟨rfl, -⟩
    · cases inside
    · exact prudent.queued m inside
  bounded m inside ahead := by
    rcases fewer with rfl | ⟨rfl, same⟩
    · cases inside
    · obtain ⟨unled, unstored⟩ := prudent.bounded m inside ahead
      exact ⟨unled, fun runs => same ▸ unstored runs⟩
  snapshot s known := prudent.snapshot s (pending s known)
  counted runs voter other yes := more _ (prudent.counted runs voter other yes)
  leads leads := more _ (prudent.leads leads)

theorem Core.heeds_of_quiet (quiet : ¬ inp .election) (none : ∀ m, ¬ inp (.message m)) :
    c.Heeds reported inp :=
  ⟨fun may => absurd may quiet, fun may => absurd may quiet, fun m stepped => absurd stepped (none m),
    fun m stepped => absurd stepped (none m), fun m stepped => absurd stepped (none m),
      fun may => absurd may quiet⟩

/-- A snapshot of no later term leaves the ballot of a storage alone. -/
theorem MemStorage.ballot_applySnapshot_of_le {store store' : MemStorage} {snapshot : Snapshot}
    (done : store.applySnapshot snapshot = .ok store')
    (below : snapshot.metadata.term ≤ store.ballot.term) :
    store'.ballot = store.ballot := by
  unfold applySnapshot at done
  simp only at done
  split_ifs at done
  obtain rfl := Except.ok.inj done
  have same : max store.raftState.hardState.term snapshot.metadata.term =
      store.raftState.hardState.term :=
    max_eq_left below
  simp only [MemStorage.ballot, HardState.ballot, same]

namespace Host

/-- A write of this run of the node that was reported as persisted holds the own vote of a term or a
later ballot. -/
def Reported (host : Host) (term : Nat) : Prop :=
  ∃ write ∈ host.past ++ [host.durable], 0 < write.number ∧ write.number ≤ host.reported ∧
    Ballot.Before ⟨term, host.id⟩ write.store.ballot

/-- The machine stores ballots in their order and leads only terms whose own vote was reported as
persisted. -/
structure Prudent (host : Host) : Prop where
  tidy : host.Tidy
  saved : host.Saved
  ordered : (host.past ++ host.durable :: host.pending).Pairwise fun write later =>
    write.store.ballot.Before later.store.ballot
  requests : ∀ write ∈ host.past ++ host.durable :: host.pending, ∀ m ∈ write.msgs, m.msgType =
    .msgRequestVote → 0 < write.number ∧ Ballot.Before ⟨m.term, host.id⟩ write.store.ballot
  stopped : host.raw = none → host.pending = []
  latest : ∀ rn, host.raw = some rn → (∀ write ∈ host.past ++ host.durable :: host.pending,
    write.store.ballot.Before rn.raft.raftLog.store.ballot) ∧
      rn.raft.raftLog.store.ballot.Before rn.raft.core.ballot
  running : ∀ rn, host.raw = some rn → rn.raft.core.Prudent host.Reported host.id

variable {permitted : Config → Prop} {host host' : Host} {sent : List Message}

theorem Reported.mono {term : Nat} (reported : host.Reported term) (same : host'.id = host.id)
    (writes : host.past ++ [host.durable] ⊆ host'.past ++ [host'.durable])
    (later : host.reported ≤ host'.reported) :
    host'.Reported term := by
  obtain ⟨write, member, positive, below, ballot⟩ := reported
  exact ⟨write, writes member, positive, below.trans later, same.symm ▸ ballot⟩

/-- A written Ready leaves a ballot between that of the storage and that of the node. -/
theorem writeReady_between {rn rn' : RawNode} {rd : Ready} {store : MemStorage}
    (readies : rn.Readies rn' rd) (stored : rn.prevHs.ballot.Before rn.raft.raftLog.store.ballot)
    (reached : rn.raft.raftLog.store.ballot.Before rn.raft.core.ballot)
    (below : ∀ s, rn.raft.raftLog.unstable.snapshot = some s → s.metadata.term ≤ rn.raft.term)
    (done : writeReady rn.raft.raftLog.store rd = .ok store) :
    rn.raft.raftLog.store.ballot.Before store.ballot ∧ store.ballot.Before rn.raft.core.ballot := by
  obtain ⟨middle, last, unapplied, applied, appended, same⟩ := writeReady_ok done
  by_cases changed : rn.raft.hardState ≠ rn.prevHs
  · have hs : rd.hs = some rn.raft.hardState := by rw [readies.hs, if_pos changed]
    rw [hs] at same
    have ballot : store.ballot = rn.raft.core.ballot := by
      rw [same]
      rfl
    rw [ballot]
    exact ⟨reached, .refl _⟩
  · -- Without a new hard state the storage has the ballot of the node already.
    have hs : rd.hs = none := by rw [readies.hs, if_neg changed]
    have current : rn.raft.core.ballot = rn.prevHs.ballot := by
      rw [← not_not.1 changed]
      rfl
    have term : rn.raft.term ≤ rn.raft.raftLog.store.ballot.term := by
      have := stored.term_le
      rwa [← current] at this
    have installed : middle.ballot = rn.raft.raftLog.store.ballot := by
      cases empty : rd.snapshot.isEmpty with
      | true => rw [unapplied empty]
      | false =>
          refine MemStorage.ballot_applySnapshot_of_le (applied empty) ?_
          cases pending : rn.raft.raftLog.unstable.snapshot with
          | none =>
              rw [readies.snapshot, pending] at empty
              cases empty
          | some s =>
              rw [readies.snapshot, pending]
              exact (below s pending).trans term
    have ballot : store.ballot = rn.raft.raftLog.store.ballot := by
      rw [hs] at same
      rw [same, ← installed]
      exact congrArg (fun state => state.hardState.ballot) (MemStorage.raftState_append appended)
    rw [ballot]
    exact ⟨.refl _, reached⟩

/-- A further write of a later ballot. -/
theorem Prudent.issue (prudent : host.Prudent) {rn : RawNode} (raw : host.raw = some rn) (write : Write)
    (later : rn.raft.raftLog.store.ballot.Before write.store.ballot)
    (requests : ∀ m ∈ write.msgs, m.msgType = .msgRequestVote → 0 < write.number ∧
      Ballot.Before ⟨m.term, host.id⟩ write.store.ballot) :
    (host.past ++ host.durable :: (host.pending ++ [write])).Pairwise (fun write later =>
        write.store.ballot.Before later.store.ballot) ∧
      (∀ other ∈ host.past ++ host.durable :: (host.pending ++ [write]), other.store.ballot.Before
        write.store.ballot) ∧
      ∀ other ∈ host.past ++ host.durable :: (host.pending ++ [write]), ∀ m ∈ other.msgs,
        m.msgType = .msgRequestVote → 0 < other.number ∧
          Ballot.Before ⟨m.term, host.id⟩ other.store.ballot := by
  have split : host.past ++ host.durable :: (host.pending ++ [write]) =
      (host.past ++ host.durable :: host.pending) ++ [write] := by simp
  have latest := (prudent.latest rn raw).1
  rw [split]
  refine ⟨List.pairwise_append.2 ⟨prudent.ordered, List.pairwise_singleton _ _, ?_⟩, ?_, ?_⟩
  · intro old member other new
    rw [List.mem_singleton.1 new]
    exact (latest old member).trans later
  · intro other member
    rcases List.mem_append.1 member with old | new
    · exact (latest other old).trans later
    · rw [List.mem_singleton.1 new]
      exact .refl _
  · intro other member
    rcases List.mem_append.1 member with old | new
    · exact prudent.requests other old
    · rw [List.mem_singleton.1 new]
      exact requests

/-- A rewritten storage of the same ballot leaves a machine prudent. -/
theorem Prudent.rewrite (prudent : host.Prudent) {rn : RawNode} {store : MemStorage} {number : Nat}
    (raw : host.raw = some rn) (ballot : store.ballot = rn.raft.raftLog.store.ballot)
    (tidy : Host.Tidy { host with
      raw := some (withStore rn store), pending := host.pending ++ [{ number, store }] })
    (saved : Host.Saved { host with
      raw := some (withStore rn store), pending := host.pending ++ [{ number, store }] }) :
    Prudent { host with
      raw := some (withStore rn store), pending := host.pending ++ [{ number, store }] } := by
  have later : rn.raft.raftLog.store.ballot.Before store.ballot := by
    rw [ballot]
    exact .refl _
  obtain ⟨ordered, latest, requests⟩ := prudent.issue raw { number, store } later (List.forall_mem_nil _)
  refine ⟨tidy, saved, ordered, requests, fun none => (by cases none), ?_, ?_⟩
  · rintro _ running
    cases running
    refine ⟨latest, ?_⟩
    show store.ballot.Before rn.raft.core.ballot
    rw [ballot]
    exact (prudent.latest rn raw).2
  · rintro _ running
    cases running
    exact (prudent.running rn raw).keep (fun _ reported => reported) (.inr ⟨rfl, ballot⟩)
      fun _ pending => pending

/-- A call of a prudent node. -/
theorem Prudent.acts (prudent : host.Prudent) {rn : RawNode} {raft : Raft} (raw : host.raw = some rn)
    (heeds : rn.raft.core.Heeds host.Reported inp) (acts : Acts inp rn.raft.core raft.core) :
    ((∀ write ∈ host.past ++ host.durable :: host.pending, write.store.ballot.Before
      raft.raftLog.store.ballot) ∧
      raft.raftLog.store.ballot.Before raft.core.ballot) ∧ raft.core.Prudent host.Reported host.id := by
  have kept : raft.raftLog.store.ballot = rn.raft.raftLog.store.ballot := (Acts.store_same acts).ballot
  obtain ⟨latest, reached⟩ := prudent.latest rn raw
  rw [kept]
  exact ⟨⟨latest, reached.trans (Acts.forward acts).ballot⟩,
    Acts.prudent heeds (prudent.running rn raw) acts⟩

/-- A machine that has just started is prudent. -/
theorem Prudent.starts (prudent : host.Prudent) {config : Config} {rn : RawNode}
    (stopped : host.raw = none) (same : config.id = host.id)
    (starts : rn.Starts config host.durable.store) :
    ((∀ write ∈ host.past ++ host.durable :: host.pending, write.store.ballot.Before
      rn.raft.raftLog.store.ballot) ∧
      rn.raft.raftLog.store.ballot.Before rn.raft.core.ballot) ∧
        rn.raft.core.Prudent host.Reported host.id := by
  have store : rn.raft.raftLog.store = host.durable.store := by
    rw [starts.log]
    rfl
  have ballot : rn.raft.core.ballot = host.durable.store.ballot := by
    rw [starts.core]
    rfl
  have named : rn.raft.core.id = config.id := congrArg Core.id starts.core
  have follows : rn.raft.core.state = .follower := congrArg Core.state starts.core
  have msgs : rn.raft.core.msgs = [] := congrArg Core.msgs starts.core
  have settled : rn.raft.core.log.unstable.snapshot = none := by
    show rn.raft.raftLog.unstable.snapshot = none
    rw [starts.log]
    rfl
  rw [store, ballot]
  refine ⟨⟨fun write member => ?_, .refl _⟩, ?_⟩
  · rw [prudent.stopped stopped] at member
    rcases List.mem_append.1 member with past | last
    · exact (List.pairwise_append.1 prudent.ordered).2.2 write past _ List.mem_cons_self
    · rw [List.mem_singleton.1 last]
      exact .refl _
  · refine ⟨named.trans same, same ▸ starts.named, ?_, ?_, ?_, ?_, ?_, ?_⟩
    · simp [follows]
    · simp [msgs]
    · simp [msgs]
    · simp [settled]
    · simp [follows]
    · simp [follows]

/-- A machine whose writes stay is prudent when its node is. -/
theorem Prudent.resume (prudent : host.Prudent) {rn : RawNode} {outstanding : Option Ready}
    {reported : Nat} {delivered : List Delivery} (more : host.reported ≤ reported)
    (tidy : Host.Tidy { host with raw := some rn, outstanding, reported, delivered })
    (saved : Host.Saved { host with raw := some rn, outstanding, reported, delivered })
    (latest : (∀ write ∈ host.past ++ host.durable :: host.pending,
      write.store.ballot.Before rn.raft.raftLog.store.ballot) ∧
        rn.raft.raftLog.store.ballot.Before rn.raft.core.ballot)
    (running : rn.raft.core.Prudent host.Reported host.id) :
    Prudent { host with raw := some rn, outstanding, reported, delivered } := by
  refine ⟨tidy, saved, prudent.ordered, prudent.requests, fun none => (by cases none), ?_, ?_⟩
  · rintro _ same
    cases same
    exact latest
  · rintro _ same
    cases same
    refine running.keep (fun term known => ?_) (.inr ⟨rfl, rfl⟩) fun _ known => known
    exact known.mono rfl (List.Subset.refl _) more

/-- A Ready is written with the ballot of its node, for which its vote requests wait. -/
theorem Prudent.write (prudent : host.Prudent) {rn rn' : RawNode} {rd : Ready} {store : MemStorage}
    {delivered : List Delivery} {reads : List ReadState} (raw : host.raw = some rn)
    (idle : host.outstanding = none) (done : rn.ready = .ok (rn', rd))
    (written : writeReady rn'.raft.raftLog.store rd = .ok store) (tidy : Host.Tidy { host with
      raw := some (withStore rn' store), outstanding := some rd, delivered, reads
      pending := host.pending ++ [{ number := rd.number, store, msgs := rd.persistedMessages }] })
    (saved : Host.Saved { host with
      raw := some (withStore rn' store), outstanding := some rd, delivered, reads
      pending := host.pending ++ [{ number := rd.number, store, msgs := rd.persistedMessages }] }) :
    Prudent { host with
      raw := some (withStore rn' store), outstanding := some rd, delivered, reads
      pending := host.pending ++ [{ number := rd.number, store, msgs := rd.persistedMessages }] } := by
  have readies := RawNode.ready_readies done
  have log : rn'.raft.raftLog = rn.raft.raftLog := congrArg Core.log readies.core
  have core := readies.core_withStore store
  rw [log] at written
  have node := prudent.running rn raw
  obtain ⟨stored, -⟩ := prudent.saved.idle rn raw idle
  obtain ⟨later, reached⟩ :=
    writeReady_between readies stored (prudent.latest rn raw).2 node.snapshot written
  have covers : rn.raft.core.ballot.Before store.ballot := by
    have busy := (saved.busy _ rd rfl rfl).1
    rw [core] at busy
    exact busy
  have waits : ∀ m ∈ rd.persistedMessages, m.msgType = .msgRequestVote →
      0 < rd.number ∧ Ballot.Before ⟨m.term, host.id⟩ store.ballot := by
    intro m inside kind
    rw [readies.persistedMessages] at inside
    split_ifs at inside
    · cases inside
    · rw [readies.number]
      exact ⟨Nat.succ_pos _, (node.queued m inside kind).trans covers⟩
  obtain ⟨ordered, latest, requests⟩ := prudent.issue raw
    { number := rd.number, store, msgs := rd.persistedMessages } later waits
  refine ⟨tidy, saved, ordered, requests, fun none => (by cases none), ?_, ?_⟩
  · rintro _ same
    cases same
    rw [core]
    exact ⟨latest, reached⟩
  · rintro _ same
    cases same
    rw [core]
    exact node.keep (fun _ reported => reported) (.inl rfl) fun _ pending => pending

/-- The next pending write becomes durable. -/
theorem Prudent.flushed (prudent : host.Prudent) {write : Write} {rest : List Write}
    (pending : host.pending = write :: rest)
    (tidy : Host.Tidy { host with
      past := host.past ++ [host.durable], durable := write, pending := rest })
    (saved : Host.Saved { host with
      past := host.past ++ [host.durable], durable := write, pending := rest }) :
    Prudent { host with past := host.past ++ [host.durable], durable := write, pending := rest } := by
  have split : host.past ++ [host.durable] ++ write :: rest = host.past ++ host.durable ::
      host.pending := by
    simp [pending]
  refine ⟨tidy, saved, ?_, ?_, ?_, ?_, ?_⟩
  · simp only [split]
    exact prudent.ordered
  · simp only [split]
    exact prudent.requests
  · intro none
    cases pending.symm.trans (prudent.stopped none)
  · simp only [split]
    exact prudent.latest
  · intro rn raw
    refine (prudent.running rn raw).keep (fun term reported => ?_) (.inr ⟨rfl, rfl⟩) fun _ known => known
    exact reported.mono rfl (List.subset_append_left _ _) le_rfl

/-- A Ready that becomes stable leaves the storage and the queue of its node. -/
theorem Prudent.settled (prudent : host.Prudent) {rn rn' : RawNode} {rd : Ready}
    (raw : host.raw = some rn) (outstanding : host.outstanding = some rd)
    (done : rn.commitReady rd = .ok rn') :
    ((∀ write ∈ host.past ++ host.durable :: host.pending, write.store.ballot.Before
      rn'.raft.raftLog.store.ballot) ∧
      rn'.raft.raftLog.store.ballot.Before rn'.raft.core.ballot) ∧
        rn'.raft.core.Prudent host.Reported host.id := by
  obtain ⟨log, busy⟩ := prudent.tidy.busy rn rd raw outstanding
  obtain ⟨-, none, -, -, store, same⟩ := busy.settle done
  have core : rn'.raft.core = { rn.raft.core with log := rn'.raft.raftLog } := by
    rw [same]
    rfl
  rw [store, core]
  refine ⟨prudent.latest rn raw, (prudent.running rn raw).keep (fun _ reported => reported)
    (.inr ⟨rfl, ?_⟩) ?_⟩
  · exact congrArg MemStorage.ballot store
  · intro s known
    cases none.symm.trans known

theorem Prudent.crashed (tidy : host.crash.Tidy) (saved : host.crash.Saved) : host.crash.Prudent := by
  refine ⟨tidy, saved, List.pairwise_singleton _ _, ?_, fun _ => rfl, ?_, ?_⟩
  · intro write member
    rw [List.mem_singleton.1 member]
    exact List.forall_mem_nil _
  · intro _ running
    cases running
  · intro _ running
    cases running

/-- Every phase keeps a machine prudent whose node heeds its inputs. -/
theorem Phase.prudent (heard : ∀ m, inp (.message m) → m.Tidy)
    (heeds : ∀ rn, host.raw = some rn → rn.raft.core.Heeds host.Reported (rn.inputs inp))
    (prudent : host.Prudent) (phase : Phase inp permitted host host' sent) : host'.Prudent := by
  have tidy := (phase.tidy heard prudent.tidy).1
  have saved := phase.saved prudent.tidy prudent.saved
  cases phase with
  | @call rn raft raw idle acts =>
      obtain ⟨latest, running⟩ := prudent.acts raw (heeds rn raw) acts
      exact prudent.resume le_rfl tidy saved latest running
  | ready raw idle done written => exact prudent.write raw idle done written tidy saved
  | flush pending => exact prudent.flushed pending tidy saved
  | send ahead durable =>
      exact ⟨tidy, saved, prudent.ordered, prudent.requests, prudent.stopped, prudent.latest,
        prudent.running⟩
  | stable raw outstanding done =>
      obtain ⟨latest, running⟩ := prudent.settled raw outstanding done
      exact prudent.resume le_rfl tidy saved latest running
  | report raw idle durable position acts =>
      obtain ⟨latest, running⟩ :=
        prudent.acts raw (Core.heeds_of_quiet not_false fun _ => not_false) acts
      exact prudent.resume (le_max_left _ _) tidy saved latest running
  | @light rn rn' light raw idle done withheld current =>
      have lights := RawNode.genLightReady_lights done
      have log : rn'.raft.raftLog = rn.raft.raftLog := congrArg Core.log lights.core
      have ballot : rn'.raft.core.ballot = rn.raft.core.ballot := by
        rw [lights.core]
        rfl
      have latest := prudent.latest rn raw
      rw [← log, ← ballot] at latest
      refine prudent.resume le_rfl tidy saved latest ?_
      show rn'.raft.core.Prudent host.Reported host.id
      rw [lights.core]
      exact (prudent.running rn raw).keep (fun _ reported => reported) (.inl rfl) fun _ known => known
  | @saveCommit rn store raw idle done =>
      subst done
      exact prudent.rewrite raw rfl tidy saved
  | @compact rn compactIndex store raw idle may done =>
      have sound : rn.raft.raftLog.Sound := (prudent.tidy.idle rn raw idle).log
      obtain ⟨-, -, -, raftState⟩ := compacted_store sound.wf may done
      exact prudent.rewrite raw (congrArg (fun state => state.hardState.ballot) raftState) tidy saved
  | crash => exact Prudent.crashed tidy saved
  | @restart config rng rn stopped same allowed done =>
      obtain ⟨latest, running⟩ :=
        prudent.starts stopped same (RawNode.new_starts prudent.tidy.durable done)
      exact prudent.resume le_rfl tidy saved latest running

end Host

end RaftRs

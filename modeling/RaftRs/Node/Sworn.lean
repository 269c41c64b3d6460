import RaftRs.Act.Turn
import RaftRs.Node.Termed
import RaftRs.Node.Uniform

namespace RaftRs

open Library

/-- A message that casts a vote: a request for the own vote or a granted vote. -/
def Message.Votes (m : Message) : Prop :=
  m.msgType = .msgRequestVote ∨ (m.msgType = .msgRequestVoteResponse ∧ m.reject = false)

/-- The candidate that a cast vote is for. -/
def Message.candidate (m : Message) : Nat := if m.msgType = .msgRequestVote then m.fromId else m.toId

/-- A ballot stands by a message: it has cast the same vote or its term is over. -/
structure Message.Pledged (b : Ballot) (m : Message) : Prop where
  vote : m.Votes → m.term < b.term ∨ (m.term = b.term ∧ b.vote = m.candidate)
  preVote : m.msgType = .msgRequestPreVote → m.term ≤ b.term + 1

/-- Granted votes and pre-votes answer requests that were sent, and votes have a candidate. -/
structure Message.Asked (net : List Message) (m : Message) : Prop where
  vote : m.msgType = .msgRequestVoteResponse → m.reject = false →
    ∃ request ∈ net, request.msgType = .msgRequestVote ∧ request.fromId = m.toId ∧ request.term = m.term
  preVote : m.msgType = .msgRequestPreVoteResponse → m.reject = false →
    ∃ request ∈ net, request.msgType = .msgRequestPreVote ∧ request.fromId = m.toId ∧
      request.term = m.term
  cast : m.Votes → m.candidate ≠ invalidId

/-- The sent messages show that a node has voted for a candidate in a term. -/
def Voted (net : List Message) (candidate term voter : Nat) : Prop :=
  ∃ m ∈ net, m.Votes ∧ m.fromId = voter ∧ m.candidate = candidate ∧ m.term = term

/-- The votes of a node in one term are for one candidate. -/
def Single (id : Nat) (ms : List Message) : Prop :=
  ∀ m ∈ ms, ∀ m' ∈ ms, m.fromId = id → m'.fromId = id → m.Votes → m'.Votes → m.term = m'.term →
    m.candidate = m'.candidate

variable {cs : ConfState} {net : List Message} {m : Message} {b b' : Ballot} {id term : Nat}

theorem Message.Pledged.mono (pledged : m.Pledged b) (asked : m.Asked net) (before : b.Before b') :
    m.Pledged b' := by
  refine ⟨fun votes => ?_, fun kind => ?_⟩
  · rcases pledged.vote votes with past | ⟨same, voted⟩
    · exact .inl (past.trans_le before.term_le)
    · rcases before with lower | ⟨term, kept | unset⟩
      · exact .inl (same ▸ lower)
      · exact .inr ⟨same.trans term, kept.symm.trans voted⟩
      · exact absurd (voted.symm.trans unset) (asked.cast votes)
  · have := pledged.preVote kind
    have := before.term_le
    omega

theorem Message.Asked.mono (asked : m.Asked net) {net' : List Message} (more : net ⊆ net') :
    m.Asked net' where
  vote kind granted := (asked.vote kind granted).imp fun _ found => ⟨more found.1, found.2⟩
  preVote kind granted := (asked.preVote kind granted).imp fun _ found => ⟨more found.1, found.2⟩
  cast := asked.cast

theorem Voted.mono {candidate voter : Nat} (voted : Voted net candidate term voter) {net' : List Message}
    (more : net ⊆ net') : Voted net' candidate term voter :=
  voted.imp fun _ found => ⟨more found.1, found.2⟩

/-- A vote of another node answers a request of the candidate. -/
theorem Voted.requested {voter : Nat} (voted : Voted net id term voter) (other : voter ≠ id)
    (asked : ∀ m ∈ net, m.Asked net) : Voted net id term id := by
  obtain ⟨m, inside, votes, sender, candidate, same⟩ := voted
  rcases votes with request | ⟨response, granted⟩
  · rw [Message.candidate, if_pos request] at candidate
    exact absurd (sender.symm.trans candidate) other
  · have notRequest : m.msgType ≠ .msgRequestVote := by simp [response]
    rw [Message.candidate, if_neg notRequest] at candidate
    obtain ⟨request, found, kind, asker, termed⟩ := (asked m inside).vote response granted
    have asker : request.fromId = id := asker.trans candidate
    refine ⟨request, found, .inl kind, asker, ?_, termed.trans same⟩
    rw [Message.candidate, if_pos kind, asker]

/-- A new message of a node and the vote and the term behind it. -/
structure Message.Fresh (net : List Message) (c : Core) (m : Message) : Prop where
  asked : m.Asked net
  mine : m.Votes ∨ m.msgType = .msgRequestPreVote → m.fromId = c.id
  vote : m.Votes → m.term = c.term ∧ c.vote = m.candidate
  preVote : m.msgType = .msgRequestPreVote → m.term ≤ c.term + 1

theorem Message.Fresh.pledged {c : Core} (fresh : m.Fresh net c) : m.Pledged c.ballot :=
  ⟨fun votes => .inr (fresh.vote votes), fresh.preVote⟩

theorem Message.fresh_of {c : Core} (request : ¬ m.IsVoteRequest)
    (response : m.IsVoteResponse → m.reject = true) :
    m.Fresh net c := by
  have votes : ¬ m.Votes := by
    rintro (kind | ⟨kind, granted⟩)
    · exact request (.inl kind)
    · simp [response (.inl kind)] at granted
  have preVote : m.msgType ≠ .msgRequestPreVote := fun kind => request (.inr kind)
  refine ⟨⟨fun kind granted => ?_, fun kind granted => ?_, fun cast => absurd cast votes⟩, ?_, ?_, ?_⟩
  · simp [response (.inl kind)] at granted
  · simp [response (.inr kind)] at granted
  · exact fun sworn => (sworn.elim votes preVote).elim
  · exact fun cast => absurd cast votes
  · exact fun kind => absurd kind preVote

/-- A node stands by its queued and its issued messages, and its role by the votes that were
sent. -/
structure Core.Sworn (cs : ConfState) (net : List Message) (id : Nat) (issued : List Message)
    (c : Core) : Prop where
  named : c.id = id
  positive : id ≠ invalidId
  own : c.state = .candidate ∨ c.state = .leader → c.vote = id
  asked : ∀ m ∈ issued ++ c.msgs, m.Asked net
  mine : ∀ m ∈ c.msgs, m.Votes ∨ m.msgType = .msgRequestPreVote → m.fromId = id
  pledged : ∀ m ∈ issued ++ c.msgs, m.fromId = id → m.Pledged c.ballot
  single : Single id (issued ++ c.msgs)
  counted : c.state = .candidate → ∀ voter, c.votes voter = some true → voter = id ∨
    Voted net id c.term voter
  leads : c.state = .leader → Voted net id c.term id ∧ cs.jointConfig.Agrees (Voted net id c.term)

/-- A message that a node hears was sent to it and carries a term where it needs one, or comes from
its application. -/
def Heard (net : List Message) (id : Nat) (m : Message) : Prop :=
  m.Own ∨ (m ∈ net ∧ m.toId = id ∧ m.Termed)

theorem Heard.sent (heard : Heard net id m) (kind : m.IsVoteRequest ∨ m.IsVoteResponse) :
    m ∈ net ∧ m.toId = id ∧ m.Termed := by
  refine heard.resolve_left ?_
  rintro ⟨other | other | other, -⟩ <;>
    rcases kind with (kind | kind) | (kind | kind) <;> exact absurd (kind.symm.trans other) nofun

variable {inp : Input → Prop} {c c' : Core} {issued : List Message}

/-- The messages that a node queues are fresh. -/
theorem Core.Emits.fresh (heard : ∀ m, inp (.message m) → Heard net id m)
    (all : ∀ m ∈ net, m.Asked net) (sworn : c.Sworn cs net id issued) (same : c'.id = c.id)
    (emits : c.Emits inp c' m) : m.Fresh net c' := by
  have named := sworn.named
  cases emits with
  | sends sends kept =>
      cases sends with
      | voteRequest role other info last =>
          have vote := sworn.own (.inl role)
          refine ⟨⟨by simp, by simp, fun _ => named.trans_ne sworn.positive⟩, fun _ => same.symm,
            fun _ => ⟨kept.1.symm, ?_⟩, by simp⟩
          exact kept.2.trans (vote.trans named.symm)
      | preVoteRequest role other info =>
          refine ⟨⟨by simp, by simp, ?_⟩, fun _ => same.symm, ?_, fun _ => ?_⟩
          · rintro (kind | ⟨kind, -⟩) <;> cases kind
          · rintro (kind | ⟨kind, -⟩) <;> cases kind
          · exact Nat.add_le_add_right kept.1.ge 1
      | preVoteGrant stepped kind =>
          have sent := (heard _ stepped).sent (.inl (.inr kind))
          refine ⟨⟨by simp, fun _ _ => ⟨_, sent.1, kind, rfl, rfl⟩, ?_⟩, ?_, ?_, by simp⟩
          · rintro (kind | ⟨kind, -⟩) <;> cases kind
          · rintro ((kind | ⟨kind, -⟩) | kind) <;> cases kind
          · rintro (kind | ⟨kind, -⟩) <;> cases kind
      | voteReject stepped kind nonzero info =>
          refine Message.fresh_of ?_ fun _ => rfl
          rcases kind with kind | kind <;> simp [Message.IsVoteRequest, Raft.voteRespMsgType, kind]
      | stalePreVote stepped kind stale =>
          exact Message.fresh_of (by simp [Message.IsVoteRequest]) fun _ => rfl
      | forward stepped role kind =>
          rcases kind with ⟨kind, -⟩ | ⟨kind, -⟩ | ⟨kind, -⟩ <;>
            exact Message.fresh_of (by simp [Message.IsVoteRequest, kind])
              (by simp [Message.IsVoteResponse, kind])
      | _ =>
          refine Message.fresh_of ?_ ?_
          · rintro (kind | kind) <;> cases kind
          · rintro (kind | kind) <;> cases kind
  | grant stepped kind term nonzero free cast =>
      have sent := (heard _ stepped).sent (.inl (.inl kind))
      have candidate := (all _ sent.1).cast (.inl kind)
      rw [Message.candidate, if_pos kind] at candidate
      refine ⟨⟨fun _ _ => ⟨_, sent.1, kind, rfl, rfl⟩, by simp, fun _ => candidate⟩,
        fun _ => same.symm, fun _ => ?_, by simp⟩
      exact ⟨term.trans cast.1.symm, cast.2⟩
  | batched role queued kind kept =>
      exact Message.fresh_of (by simp [Message.IsVoteRequest, kind])
        (by simp [Message.IsVoteResponse, kind])
  | _ =>
      refine Message.fresh_of ?_ ?_
      · rintro (kind | kind) <;> cases kind
      · rintro (kind | kind) <;> cases kind

/-- A configuration in which no node is a quorum has a further voter in every quorum. -/
theorem ConfState.NoSingleton.other {p : Nat → Prop} (several : cs.NoSingleton)
    (agrees : cs.jointConfig.Agrees p) (id : Nat) : ∃ voter, voter ≠ id ∧ p voter := by
  by_contra none
  push Not at none
  apply several id
  rw [JointConfig.voteResult_won]
  refine agrees.mono fun voter chosen => ?_
  rw [if_pos]
  by_contra other
  exact none voter other chosen

/-- The votes of a campaigning node answer its requests. -/
theorem Act.counted (heard : ∀ m, inp (.message m) → Heard net id m) (sworn : c.Sworn cs net id issued)
    (act : Act inp c c') (role : c'.state = .candidate) (voter : Nat)
    (yes : c'.votes voter = some true) :
    voter = id ∨ Voted net id c'.term voter := by
  obtain ⟨-, -, turns⟩ := act.turns
  cases turns with
  | keep state term vote votes =>
      rw [term]
      exact sworn.counted (state ▸ role) voter (votes ▸ yes)
  | follow state => exact absurd (state.symm.trans role) nofun
  | grant stepped kind free state term vote votes =>
      rw [term]
      exact sworn.counted (state ▸ role) voter (votes ▸ yes)
  | preCampaign may eligible state term vote votes => exact absurd (state.symm.trans role) nofun
  | campaign may cause state term vote votes =>
      rw [votes] at yes
      cases yes
  | @count counted answer state term vote votes source =>
      have role : c.state = .candidate := state ▸ role
      have earlier := sworn.counted role voter
      rw [term]
      rw [votes] at yes
      unfold Core.count at yes
      simp only at yes
      split at yes
      · exact earlier yes
      · by_cases same : voter = counted
        · subst same
          rw [Function.update_self] at yes
          rcases source with self | ⟨m, stepped, sender, answered, ⟨other, -⟩ | ⟨-, kind, hears⟩⟩
          · exact .inl (self.trans sworn.named)
          · exact absurd (role.symm.trans other) nofun
          · obtain ⟨inside, receiver, termed⟩ := (heard m stepped).sent (.inr (.inl kind))
            have granted : m.reject = false := by simpa [answered] using yes
            have notRequest : m.msgType ≠ .msgRequestVote := by simp [kind]
            refine .inr ⟨m, inside, .inr ⟨kind, granted⟩, sender, ?_, ?_⟩
            · rw [Message.candidate, if_neg notRequest, receiver]
            · exact hears.resolve_right (termed.termed (.inr (.inl (.inl kind))))
        · rw [Function.update_of_ne same] at yes
          exact earlier yes
  | lead may candidate won state => exact absurd (state.symm.trans role) nofun

/-- A leader has the sent votes of a quorum and its own. -/
theorem Act.leads (several : cs.NoSingleton) (uniform : c.Uniform cs) (all : ∀ m ∈ net, m.Asked net)
    (sworn : c.Sworn cs net id issued) (act : Act inp c c') (role : c'.state = .leader) :
    Voted net id c'.term id ∧ cs.jointConfig.Agrees (Voted net id c'.term) := by
  obtain ⟨-, -, turns⟩ := act.turns
  cases turns with
  | keep state term vote votes =>
      rw [term]
      exact sworn.leads (state ▸ role)
  | follow state => exact absurd (state.symm.trans role) nofun
  | grant stepped kind free state term vote votes =>
      rw [term]
      exact sworn.leads (state ▸ role)
  | preCampaign may eligible state term vote votes => exact absurd (state.symm.trans role) nofun
  | campaign may cause state term vote votes => exact absurd (state.symm.trans role) nofun
  | count state term vote votes source =>
      rw [term]
      exact sworn.leads (state ▸ role)
  | lead may candidate won state term vote =>
      rw [term]
      have agrees := (uniform.conf.agrees won).mono (sworn.counted candidate)
      -- The own vote was only sent if another node has answered it.
      obtain ⟨voter, other, self | voted⟩ := several.other agrees id
      · exact absurd self other
      · have own := voted.requested other all
        refine ⟨own, agrees.mono fun voter chosen => ?_⟩
        rcases chosen with rfl | voted
        · exact own
        · exact voted

/-- Every atomic change keeps a node sworn. -/
theorem Act.sworn (heard : ∀ m, inp (.message m) → Heard net id m) (several : cs.NoSingleton)
    (uniform : c.Uniform cs) (sent : net ⊆ issued) (sworn : c.Sworn cs net id issued)
    (act : Act inp c c') :
    c'.Sworn cs net id issued := by
  have named := act.turns.1
  have all : ∀ m ∈ net, m.Asked net :=
    fun m inside => sworn.asked m (List.mem_append_left _ (sent inside))
  have cases : ∀ m ∈ issued ++ c'.msgs, m ∈ issued ++ c.msgs ∨ m.Fresh net c' := by
    intro m inside
    rcases List.mem_append.1 inside with old | queued
    · exact .inl (List.mem_append_left _ old)
    · rcases act.emits queued with old | new
      · exact .inl (List.mem_append_right _ old)
      · exact .inr (new.fresh heard all sworn named)
  have pledged : ∀ m ∈ issued ++ c'.msgs, m.fromId = id → m.Pledged c'.ballot := by
    intro m inside sender
    rcases cases m inside with old | fresh
    · exact (sworn.pledged m old sender).mono (sworn.asked m old) act.forward.ballot
    · exact fresh.pledged
  -- A fresh vote is that of the ballot, which also stands by every other vote of the term.
  have agrees : ∀ {m m' : Message}, m.Fresh net c' → m' ∈ issued ++ c'.msgs → m'.fromId = id →
      m.Votes → m'.Votes → m.term = m'.term → m.candidate = m'.candidate := by
    intro m m' fresh inside sender votes votes' same
    obtain ⟨term, vote⟩ := fresh.vote votes
    rcases (pledged m' inside sender).vote votes' with past | ⟨-, vote'⟩
    · exact absurd (same.symm.trans term) (Nat.ne_of_lt past)
    · exact vote.symm.trans vote'
  refine ⟨named.trans sworn.named, sworn.positive,
    act.own_vote sworn.named sworn.positive sworn.own, ?_, ?_, pledged, ?_, act.counted heard sworn,
      act.leads several uniform all sworn⟩
  · intro m inside
    rcases cases m inside with old | fresh
    · exact sworn.asked m old
    · exact fresh.asked
  · intro m inside
    rcases act.emits inside with old | new
    · exact sworn.mine m old
    · exact fun kind => ((new.fresh heard all sworn named).mine kind).trans (named.trans sworn.named)
  · intro m inside m' inside' sender sender' votes votes' same
    rcases cases m inside with old | fresh
    · rcases cases m' inside' with old' | fresh'
      · exact sworn.single m old m' old' sender sender' votes votes' same
      · exact (agrees fresh' inside sender votes' votes same.symm).symm
    · exact agrees fresh inside' sender' votes votes' same

/-- A sequence of atomic changes keeps a node sworn. -/
theorem Acts.sworn (heard : ∀ m, inp (.message m) → Heard net id m) (several : cs.NoSingleton)
    (voters : ∀ m, inp (.message m) → m.Uniform cs) (fixed : ∀ cc, ¬ inp (.confChange cc))
    (uniform : c.Uniform cs) (sent : net ⊆ issued) (sworn : c.Sworn cs net id issued)
    (acts : Acts inp c c') :
    c'.Sworn cs net id issued := by
  induction acts with
  | refl => exact sworn
  | tail before act ih =>
      exact act.sworn heard several (Acts.uniform voters fixed uniform before) sent ih

/-- A leader stands by its queue whenever it stands by what was sent. -/
theorem Core.Sworn.release (sworn : c.Sworn cs net id issued) (role : c.state = .leader)
    (stands : ∀ m ∈ net, m.fromId = id → m.Pledged b) (inside : m ∈ c.msgs) (sender : m.fromId = id) :
    m.Pledged b := by
  obtain ⟨⟨request, sent, votes, asker, candidate, term⟩, -⟩ := sworn.leads role
  have own := sworn.own (.inr role)
  have pledged := sworn.pledged m (List.mem_append_right _ inside) sender
  have reached := (stands request sent asker).vote votes
  rw [term, candidate] at reached
  refine ⟨fun cast => ?_, fun kind => ?_⟩
  · rcases pledged.vote cast with past | ⟨same, vote⟩
    · left
      rcases reached with lower | ⟨equal, -⟩
      · exact past.trans lower
      · exact equal ▸ past
    · rcases reached with lower | ⟨equal, elected⟩
      · exact .inl (same ▸ lower)
      · exact .inr ⟨same.trans equal, elected.trans (own.symm.trans vote)⟩
  · have bound := pledged.preVote kind
    have term : c.term ≤ b.term := by
      rcases reached with lower | ⟨equal, -⟩
      · exact lower.le
      · exact equal.le
    exact bound.trans (Nat.succ_le_succ term)

end RaftRs

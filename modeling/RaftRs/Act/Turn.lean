import RaftRs.Act.Act

namespace RaftRs

open Library

/-- The ways in which an atomic change treats the role, the term and the votes of a node. -/
inductive Core.Turns (inp : Input → Prop) (c c' : Core) : Prop where
  | keep (state : c'.state = c.state) (term : c'.term = c.term) (vote : c'.vote = c.vote)
      (votes : c'.votes = c.votes)
  | follow (state : c'.state = .follower)
  | grant {m : Message} (stepped : inp (.message m)) (kind : m.msgType = .msgRequestVote)
      (free : c.vote = m.fromId ∨ c.vote = invalidId) (state : c'.state = c.state)
      (term : c'.term = c.term) (vote : c'.vote = m.fromId) (votes : c'.votes = c.votes)
  | preCampaign (may : inp .election) (eligible : c.Eligible inp) (state : c'.state = .preCandidate)
      (term : c'.term = c.term) (vote : c'.vote = c.vote) (votes : c'.votes = fun _ => none)
  | campaign (may : inp .election)
      (cause : (c.Eligible inp ∧ c.Direct inp) ∨ (c.state = .preCandidate ∧ c.Won))
      (state : c'.state = .candidate) (term : c'.term = c.term + 1) (vote : c'.vote = c.id)
      (votes : c'.votes = fun _ => none)
  | count {id : Nat} {yes : Bool} (state : c'.state = c.state) (term : c'.term = c.term)
      (vote : c'.vote = c.vote) (votes : c'.votes = (c.count id yes).votes)
      (source : id = c.id ∨ ∃ m, inp (.message m) ∧ m.fromId = id ∧ yes = (!m.reject) ∧
        ((c.state = .preCandidate ∧ m.msgType = .msgRequestPreVoteResponse ∧ inp (.started c.term) ∧
          (m.term ≠ 0 → c.term ≤ m.term)) ∨
            (c.state = .candidate ∧ m.msgType = .msgRequestVoteResponse ∧ c.Hears m)))
  | lead (may : inp .election) (role : c.state = .candidate) (won : c.Won) (state : c'.state = .leader)
      (term : c'.term = c.term) (vote : c'.vote = c.vote)

variable {inp : Input → Prop} {c c' : Core}

theorem Act.turns (act : Act inp c c') : c'.id = c.id ∧ c'.preVote = c.preVote ∧ c.Turns inp c' := by
  cases act with
  | bump stepped later => exact ⟨rfl, rfl, .follow rfl⟩
  | stepDown => exact ⟨rfl, rfl, .follow rfl⟩
  | campaign may role cause => exact ⟨rfl, rfl, .campaign may cause rfl rfl rfl rfl⟩
  | preCampaign may role eligible => exact ⟨rfl, rfl, .preCampaign may eligible rfl rfl rfl rfl⟩
  | countSelf => exact ⟨rfl, rfl, .count rfl rfl rfl rfl (.inl rfl)⟩
  | countVote stepped kind campaign =>
      exact ⟨rfl, rfl, .count rfl rfl rfl rfl (.inr ⟨_, stepped, rfl, rfl, campaign⟩)⟩
  | lead may role won settled known => exact ⟨rfl, rfl, .lead may role won rfl rfl (if_pos rfl)⟩
  | grant stepped kind term nonzero free complete =>
      exact ⟨rfl, rfl, .grant stepped kind free rfl rfl rfl rfl⟩
  | restore stepped kind heard role fresh done same rostered => exact ⟨rfl, rfl, .follow role⟩
  | persist reported done =>
      rw [Core.countOwn_rest]
      exact ⟨rfl, rfl, .keep rfl rfl rfl rfl⟩
  | @confirm ctx status readOnly confirmed role pending acked done =>
      obtain ⟨_, _, rest⟩ := Core.responds_rest { c with readOnly } confirmed
      rw [rest]
      exact ⟨rfl, rfl, .keep rfl rfl rfl rfl⟩
  | @respondNow m stepped kind role immediate =>
      obtain ⟨_, _, rest⟩ := c.respond_rest m c.log.committed
      rw [rest]
      exact ⟨rfl, rfl, .keep rfl rfl rfl rfl⟩
  | _ => exact ⟨rfl, rfl, .keep rfl rfl rfl rfl⟩

/-- A candidate was one before in its term or has just entered the term. -/
theorem Act.candidate_cases (act : Act inp c c') (runs : c'.state = .candidate) :
    (c.state = .candidate ∧ c'.term = c.term) ∨ c'.term = c.term + 1 := by
  obtain ⟨-, -, turns⟩ := act.turns
  cases turns with
  | keep state term vote votes => exact .inl ⟨state ▸ runs, term⟩
  | follow state => cases state.symm.trans runs
  | grant stepped kind free state term vote votes => exact .inl ⟨state ▸ runs, term⟩
  | preCampaign may eligible state term vote votes => cases state.symm.trans runs
  | campaign may cause state term vote votes => exact .inr term
  | count state term vote votes source => exact .inl ⟨state ▸ runs, term⟩
  | lead may role won state term vote => cases state.symm.trans runs

/-- A leader has led before in its term or has just won the election of its term. -/
theorem Act.leader_turns (act : Act inp c c') (leads : c'.state = .leader) :
    c'.term = c.term ∧ (c.state = .leader ∨ (inp .election ∧ c.state = .candidate ∧ c.Won)) := by
  obtain ⟨-, -, turns⟩ := act.turns
  cases turns with
  | keep state term vote votes => exact ⟨term, .inl (state ▸ leads)⟩
  | follow state => cases state.symm.trans leads
  | grant stepped kind free state term vote votes => exact ⟨term, .inl (state ▸ leads)⟩
  | preCampaign may eligible state term vote votes => cases state.symm.trans leads
  | campaign may cause state term vote votes => cases state.symm.trans leads
  | count state term vote votes source => exact ⟨term, .inl (state ▸ leads)⟩
  | lead may role won state term vote => exact ⟨term, .inr ⟨may, role, won⟩⟩

/-- A candidate or leader keeps the vote for itself. -/
theorem Act.own_vote {id : Nat} (named : c.id = id) (positive : id ≠ invalidId)
    (own : c.state = .candidate ∨ c.state = .leader → c.vote = id) (act : Act inp c c')
    (role : c'.state = .candidate ∨ c'.state = .leader) : c'.vote = id := by
  obtain ⟨-, -, turns⟩ := act.turns
  cases turns with
  | keep state term vote votes => exact vote.trans (own (state ▸ role))
  | follow state => simp [state] at role
  | grant stepped kind free state term vote votes =>
      have own := own (state ▸ role)
      rcases free with same | unset
      · exact vote.trans (same.symm.trans own)
      · exact absurd (own.symm.trans unset) positive
  | preCampaign may eligible state term vote votes => simp [state] at role
  | campaign may cause state term vote votes => exact vote.trans named
  | count state term vote votes source => exact vote.trans (own (state ▸ role))
  | lead may candidate won state term vote => exact vote.trans (own (.inl candidate))

/-- An atomic change without a configuration change and a snapshot keeps the configuration and the
right to campaign. -/
theorem Act.standing (fixed : ∀ cc, ¬ inp (.confChange cc))
    (plain : ∀ m, inp (.message m) → m.msgType ≠ .msgSnapshot) (act : Act inp c c') :
    c'.conf = c.conf ∧ c'.promotable = c.promotable := by
  cases act with
  | restore stepped kind => exact absurd kind (plain _ stepped)
  | reconfigure changed => exact absurd changed (fixed _)
  | persist reported done =>
      rw [Core.countOwn_rest]
      exact ⟨rfl, rfl⟩
  | @confirm ctx status readOnly confirmed role pending acked done =>
      obtain ⟨_, _, rest⟩ := Core.responds_rest { c with readOnly } confirmed
      rw [rest]
      exact ⟨rfl, rfl⟩
  | @respondNow req stepped kind role immediate =>
      obtain ⟨_, _, rest⟩ := c.respond_rest req c.log.committed
      rw [rest]
      exact ⟨rfl, rfl⟩
  | _ => exact ⟨rfl, rfl⟩

end RaftRs

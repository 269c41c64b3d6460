import RaftRs.Node.Unique

namespace RaftRs

open Library

/-- The operations without a transfer of the leadership. -/
def HostOp.Untransferred : HostOp → Prop
  | .transferLeader _ => False
  | .deliver m => m.msgType ≠ .msgTransferLeader ∧ m.msgType ≠ .msgTimeoutNow
  | _ => True

instance (op : HostOp) : Decidable op.Untransferred := by
  unfold HostOp.Untransferred
  split <;> infer_instance

/-- The operations that start nodes with pre-votes. -/
def HostOp.PreVoting : HostOp → Prop
  | .restart config _ => config.preVote = true
  | _ => True

instance (op : HostOp) : Decidable op.PreVoting := by
  unfold HostOp.PreVoting
  split <;> infer_instance

/-- A node that asks for pre-votes gets no granted pre-vote for the term that it is in. -/
def Host.Prompt (host : Host) (op : HostOp) : Prop :=
  match op, host.raw with
  | .deliver m, some rn =>
      rn.raft.state = .preCandidate → m.msgType = .msgRequestPreVoteResponse → m.reject = false →
      m.term ≠ rn.raft.term
  | _, _ => True

instance (host : Host) (op : HostOp) : Decidable (host.Prompt op) := by
  unfold Host.Prompt
  split <;> infer_instance

/-- The sent messages show that a node has granted a pre-vote that the candidate has asked for in a
term. -/
def PreVoted (net : List Message) (candidate term voter : Nat) : Prop :=
  (∃ m ∈ net, m.msgType = .msgRequestPreVoteResponse ∧ m.reject = false ∧ m.fromId = voter ∧
    m.toId = candidate ∧ m.term = term) ∧
  ∃ request ∈ net, request.msgType = .msgRequestPreVote ∧ request.fromId = candidate ∧
    request.term = term

/-- A node counts the pre-votes for its next term and campaigns only with a quorum of them. -/
structure Core.Invited (cs : ConfState) (net : List Message) (id : Nat) (c : Core) : Prop where
  preVote : c.preVote = true
  named : c.id = id
  counted : c.state = .preCandidate → ∀ voter, c.votes voter = some true →
    voter = id ∨ PreVoted net id (c.term + 1) voter
  backed : c.state = .candidate → cs.jointConfig.Agrees fun voter => voter = id ∨
    PreVoted net id c.term voter

variable {cs : ConfState} {net : List Message} {id : Nat} {inp : Input → Prop} {c c' : Core}

theorem PreVoted.mono {candidate term voter : Nat} (voted : PreVoted net candidate term voter)
    {net' : List Message} (more : net ⊆ net') : PreVoted net' candidate term voter :=
  ⟨voted.1.imp fun _ found => ⟨more found.1, found.2⟩,
    voted.2.imp fun _ found => ⟨more found.1, found.2⟩⟩

/-- The pre-votes that a message lets a node count are for its next term. -/
def Message.Timely (net : List Message) (id : Nat) (inp : Input → Prop) (m : Message) : Prop :=
  m.msgType ≠ .msgTimeoutNow ∧ (m.msgType = .msgRequestPreVoteResponse → m.reject = false → ∀ term,
    inp (.started term) → (m.term ≠ 0 → term ≤ m.term) → PreVoted net id (term + 1) m.fromId)

/-- Every atomic change keeps a node invited. -/
theorem Act.invited (heard : ∀ m, inp (.message m) → m.Timely net id inp)
    (voters : inp .election → cs.Alike c.conf.toConfState) (invited : c.Invited cs net id)
    (act : Act inp c c') :
    c'.Invited cs net id := by
  obtain ⟨named, preVote, turns⟩ := act.turns
  refine ⟨preVote.trans invited.preVote, named.trans invited.named, ?_, ?_⟩
  · intro role voter yes
    cases turns with
    | keep state term vote votes =>
        rw [term]
        exact invited.counted (state ▸ role) voter (votes ▸ yes)
    | follow state => exact absurd (state.symm.trans role) nofun
    | grant stepped kind free state term vote votes =>
        rw [term]
        exact invited.counted (state ▸ role) voter (votes ▸ yes)
    | preCampaign may eligible state term vote votes =>
        rw [votes] at yes
        cases yes
    | campaign may cause state term vote votes => exact absurd (state.symm.trans role) nofun
    | @count counted answer state term vote votes source =>
        have role : c.state = .preCandidate := state ▸ role
        have earlier := invited.counted role voter
        rw [term]
        rw [votes] at yes
        unfold Core.count at yes
        simp only at yes
        split at yes
        · exact earlier yes
        · by_cases same : voter = counted
          · subst same
            rw [Function.update_self] at yes
            rcases source with self
              | ⟨m, stepped, sender, answered, ⟨-, kind, started, recent⟩ | ⟨other, -⟩⟩
            · exact .inl (self.trans invited.named)
            · have granted : m.reject = false := by simpa [answered] using yes
              exact .inr (sender ▸ (heard m stepped).2 kind granted c.term started recent)
            · exact absurd (role.symm.trans other) nofun
          · rw [Function.update_of_ne same] at yes
            exact earlier yes
    | lead may candidate won state => exact absurd (state.symm.trans role) nofun
  · intro role
    cases turns with
    | keep state term vote votes =>
        rw [term]
        exact invited.backed (state ▸ role)
    | follow state => exact absurd (state.symm.trans role) nofun
    | grant stepped kind free state term vote votes =>
        rw [term]
        exact invited.backed (state ▸ role)
    | preCampaign may eligible state term vote votes => exact absurd (state.symm.trans role) nofun
    | campaign may cause state term vote votes =>
        rw [term]
        rcases cause with ⟨-, direct⟩ | ⟨asks, won⟩
        · rcases direct with without | ⟨m, stepped, kind⟩
          · exact absurd (without.symm.trans invited.preVote) nofun
          · exact absurd kind (heard m stepped).1
        · exact ((voters may).agrees won).mono (invited.counted asks)
    | count state term vote votes source =>
        rw [term]
        exact invited.backed (state ▸ role)
    | lead may candidate won state => exact absurd (state.symm.trans role) nofun

/-- A sequence of atomic changes keeps a node invited. -/
theorem Acts.invited (heard : ∀ m, inp (.message m) → m.Timely net id inp ∧ m.Uniform cs)
    (fixed : ∀ cc, ¬ inp (.confChange cc)) (uniform : inp .election → c.Uniform cs)
    (invited : c.Invited cs net id) (acts : Acts inp c c') : c'.Invited cs net id := by
  induction acts with
  | refl => exact invited
  | tail before act ih =>
      refine act.invited (fun m input => (heard m input).1) (fun may => ?_) ih
      exact (Acts.uniform (fun m input => (heard m input).2) fixed (uniform may) before).conf

namespace Cluster

variable [ConfChangeCodec] {cluster : Cluster}

/-- The steps of a cluster with pre-votes, one fixed configuration and no transfer of the
leadership, in which no node gets a granted pre-vote for the term in which it asks for pre-votes. -/
def PreVotes (host : Host) (op : HostOp) : Prop :=
  (op.Fixed ∧ op.Untransferred ∧ op.PreVoting) ∧ host.Prompt op
deriving Decidable

/-- A delivered pre-vote that a node counts answers its request for the next term. -/
theorem Reachable.timely (several : cs.NoSingleton) (reachable : Reachable PreVotes cs cluster)
    {id : Nat} {op : HostOp} {rn : RawNode} {m : Message}
    (permitted : PreVotes (cluster.hosts id) op) (deliverable : cluster.Deliverable id op)
    (raw : (cluster.hosts id).raw = some rn) (input : op.inputs (.message m))
    (inside : m ∈ cluster.network) (receiver : m.toId = id) :
    m.Timely cluster.network id (rn.inputs op.inputs) := by
  obtain ⟨⟨fixed, untransferred, -⟩, prompt⟩ := permitted
  rcases HostOp.inputs_message input with rfl | ⟨other, -⟩
  · refine ⟨untransferred.2, ?_⟩
    rintro kind granted _ ⟨rfl, role⟩ recent
    have sworn := reachable.sworn (fun _ _ voting => voting.1.1) several id
    have nonzero : m.term ≠ 0 :=
      (reachable.inputs_termed deliverable input).termed (.inr (.inl (.inr kind)))
    obtain ⟨request, sent, asks, asker, term⟩ :=
      (sworn.asked m (List.mem_append_left _ inside)).preVote kind granted
    -- The request of a pre-vote was for the next term or an earlier one, and responses of earlier
    -- terms are dropped.
    have asker : request.fromId = id := asker.trans receiver
    have pledged := (sworn.running rn raw).1.pledged request
      (List.mem_append_left _ (List.mem_append_left _ sent)) asker
    have bound : request.term ≤ rn.raft.term + 1 := pledged.preVote asks
    have low := recent nonzero
    unfold Host.Prompt at prompt
    rw [raw] at prompt
    have fresh := prompt role kind granted
    have next : m.term = rn.raft.term + 1 := by omega
    exact ⟨⟨m, inside, kind, granted, rfl, receiver, next⟩, request, sent, asks, asker, term.trans next⟩
  · refine ⟨?_, fun kind => ?_⟩
    · rcases other with other | other | other <;> simp [other]
    · rcases other with other | other | other <;> exact absurd (kind.symm.trans other) nofun

/-- Every node of such a run counts only pre-votes for its next term. -/
theorem Reachable.invited (several : cs.NoSingleton) (reachable : Reachable PreVotes cs cluster)
    (id : Nat) (rn : RawNode) (running : (cluster.hosts id).raw = some rn) :
    rn.raft.core.Invited cs cluster.network id := by
  have fixed : ∀ host op, PreVotes host op → op.Fixed := fun _ _ voting => voting.1.1
  refine reachable.keepsCore (P := fun id network c => c.Invited cs network id) ?_ ?_ ?_ ?_ ?_ id rn
    running
  · intro id network more c invited
    refine ⟨invited.preVote, invited.named, fun role voter yes => ?_, fun role => ?_⟩
    · exact (invited.counted role voter yes).imp_right
        fun voted => voted.mono (List.subset_append_left _ _)
    · exact (invited.backed role).mono fun _ chosen =>
        chosen.imp_right fun voted => voted.mono (List.subset_append_left _ _)
  · intro id network c log msgs readStates _ invited
    exact ⟨invited.preVote, invited.named, invited.counted, invited.backed⟩
  · rintro host config rng store rn network ⟨⟨-, -, preVoting⟩, -⟩ starts
    rw [starts.core]
    exact ⟨preVoting, rfl, nofun, nofun⟩
  · intro id network inp c c' internal invited acts
    exact Acts.invited (fun m input => (internal _ input).elim) (fun cc input => internal _ input)
      (fun may => (internal _ may).elim) invited acts
  · intro cluster id op rn c before permitted deliverable raw invited acts
    have uniform := before.uniform fixed
    have fixed' : ∀ cc, ¬ rn.inputs op.inputs (.confChange cc) := (fixed _ op permitted).no_confChange
    refine Acts.invited (fun m input => ?_) fixed' (fun _ => (uniform.1 id).running rn raw) invited acts
    have input : op.inputs (.message m) := input
    rcases inputs_cases deliverable input with ⟨inside, receiver⟩ | ofOwn
    · refine ⟨before.timely several permitted deliverable raw input inside receiver, uniform.2 m inside⟩
    · refine ⟨⟨?_, fun kind => ?_⟩, ofOwn.uniform⟩
      · obtain ⟨kind | kind | kind, -⟩ := ofOwn <;> simp [kind]
      · obtain ⟨other | other | other, -⟩ := ofOwn <;> exact absurd (kind.symm.trans other) nofun

end Cluster

end RaftRs

import RaftRs.Node.Ledger

namespace RaftRs

open Library

variable {cs : ConfState}

theorem ConfState.noSingleton_of_majority (two : 2 ≤ majority cs.jointConfig.incoming.voters.len) :
    cs.NoSingleton := by
  intro id won
  rcases (JointConfig.voteResult_won.1 won).1 with empty | ⟨members, nodup, all, enough⟩
  · have none : cs.jointConfig.incoming.voters.elems = [] := by
      simpa [MajorityConfig.isEmpty, KeySet.isEmpty] using empty
    simp [majority, KeySet.len, none] at two
  · have only : members ⊆ [id] := by
      intro voter inside
      have voted : (if voter = id then some true else none) = some true := (all voter inside).2
      by_contra other
      rw [if_neg (by simpa using other)] at voted
      cases voted
    have short := (List.subperm_of_subset nodup only).length_le
    rw [List.length_singleton] at short
    omega

/-- A configuration without a quorum of one node has a voter. -/
theorem ConfState.NoSingleton.voted (several : cs.NoSingleton) :
    cs.jointConfig.incoming.isEmpty = false ∨ cs.jointConfig.outgoing.isEmpty = false := by
  by_contra none
  push Not at none
  refine several 0 (JointConfig.voteResult_won.2 ⟨.inl ?_, .inl ?_⟩)
  · exact Bool.of_not_eq_false none.1
  · exact Bool.of_not_eq_false none.2

namespace Cluster

variable [ConfChangeCodec] {allowed : Host → HostOp → Prop} {cluster cluster' : Cluster}

/-- Every message that was sent stays sent. -/
theorem Steps.network_subset (run : Steps allowed cluster cluster') :
    cluster.network ⊆ cluster'.network := by
  induction run with
  | refl => exact List.Subset.refl _
  | tail _ step ih =>
      cases step with
      | host permitted deliverable stepped => exact List.subset_append_of_subset_left _ ih

/-- Quorums of sent votes in one term are for one candidate. -/
theorem Reachable.candidate_unique (fixed : ∀ host op, allowed host op → op.Fixed)
    (several : cs.NoSingleton) (reachable : Reachable allowed cs cluster) {first second term : Nat}
    (left : cs.jointConfig.Agrees (Voted cluster.network first term))
    (right : cs.jointConfig.Agrees (Voted cluster.network second term)) : first = second := by
  obtain ⟨voter, ⟨m, inside, votes, sender, candidate, same⟩,
    ⟨m', inside', votes', sender', candidate', same'⟩⟩ :=
    left.intersect several.voted right
  have single := (reachable.sworn fixed several voter).single
  have equal :=
    single m (List.mem_append_left _ inside) m' (List.mem_append_left _ inside') sender sender'
      votes votes'
    (same.trans same'.symm)
  exact candidate.symm.trans (equal.trans candidate')

/-- In every run with one fixed configuration in which no node is a quorum by itself, each term has
at most one leader. -/
theorem election_safety (several : cs.NoSingleton)
    (reachable : Reachable (fun _ op => op.Fixed) cs cluster)
    (run : Steps (fun _ op => op.Fixed) cluster cluster') {first second : Nat} {rn rn' : RawNode}
    (running : (cluster.hosts first).raw = some rn)
    (running' : (cluster'.hosts second).raw = some rn') (leads : rn.raft.state = .leader)
    (leads' : rn'.raft.state = .leader) (same : rn.raft.term = rn'.raft.term) :
    first = second := by
  have fixed : ∀ (_ : Host) (op : HostOp), op.Fixed → op.Fixed := fun _ _ fixed => fixed
  have later : Reachable (fun _ op => op.Fixed) cs cluster' := reachable.trans run
  have elected := (((reachable.sworn fixed several first).running rn running).1.leads leads).2
  have elected' := (((later.sworn fixed several second).running rn' running').1.leads leads').2
  have term : rn'.raft.core.term = rn.raft.core.term := same.symm
  rw [term] at elected'
  exact later.candidate_unique fixed several
    (elected.mono fun _ voted => voted.mono (Steps.network_subset run)) elected'

omit [ConfChangeCodec] in
/-- A node that two voters have elected is the only leader of its term. -/
theorem election_safety_pair : let _ := ConfChangeCodec.sample
    ∃ cluster rn, ConfState.NoSingleton { voters := [1, 2] } ∧
      Reachable (fun _ op => op.Fixed) { voters := [1, 2] } cluster ∧ (cluster.hosts 1).raw = some rn ∧
      rn.raft.state = .leader ∧ ∀ id rn', (cluster.hosts id).raw = some rn' → rn'.raft.state = .leader →
        rn.raft.term = rn'.raft.term → 1 = id := by
  intro _
  have several : ConfState.NoSingleton { voters := [1, 2] } :=
    ConfState.noSingleton_of_majority (by decide)
  have played : ends { voters := [1, 2] }
      [.operate 1 (.restart { id := 1 } fun _ => 0), .operate 2 (.restart { id := 2 } fun _ => 0),
        .operate 1 .campaign, .operate 1 .ready, .operate 1 .flush, .operate 1 (.send 1),
          .operate 1 .advance,
        .deliver 0, .operate 2 .ready, .operate 2 .flush, .operate 2 (.send 1), .deliver 1] 1
      (fun rn => rn.raft.state == .leader) = true := by decide +kernel
  obtain ⟨cluster, rn, reachable, running, leads⟩ :
      ∃ cluster rn, Reachable (fun _ op => op.Fixed) { voters := [1, 2] } cluster ∧
        (cluster.hosts 1).raw = some rn ∧ _ :=
    reachable_ends (by simp [Event.Allowed, HostOp.Fixed]) played
  have leads : rn.raft.state = .leader := by simpa using leads
  exact ⟨cluster, rn, several, reachable, running, leads, fun id rn' running' leads' same =>
    election_safety several reachable .refl running running' leads leads' same⟩

end Cluster

end RaftRs

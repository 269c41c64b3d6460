import RaftRs.Act.Agreement
import RaftRs.Conf.Reconfigure

namespace RaftRs

open Library

namespace MajorityConfig

variable {small large first second : MajorityConfig} {p q : Nat → Prop}

/-- Majorities of two nested voter sets that differ by at most one voter share a voter. -/
theorem Agrees.intersect_nested (inside : ∀ id ∈ small.voters.elems, id ∈ large.voters.elems)
    (close : large.voters.len ≤ small.voters.len + 1) (voted : small.isEmpty = false)
    (wide : large.isEmpty = false) (left : small.Agrees p) (right : large.Agrees q) :
    ∃ voter, p voter ∧ q voter := by
  rcases left with empty | ⟨members, nodup, all, enough⟩
  · exact absurd empty (Bool.eq_false_iff.1 voted)
  rcases right with empty | ⟨others, nodup', all', enough'⟩
  · exact absurd empty (Bool.eq_false_iff.1 wide)
  by_contra none
  have disjoint : (members ++ others).Nodup := by
    refine List.nodup_append.2 ⟨nodup, nodup', ?_⟩
    rintro a chosen b chosen' rfl
    exact none ⟨a, (all a chosen).2, (all' a chosen').2⟩
  have bounded : (members ++ others).length ≤ large.voters.elems.length := by
    apply List.Subperm.length_le
    apply List.subperm_of_subset disjoint
    intro voter chosen
    rcases List.mem_append.1 chosen with chosen | chosen
    · exact inside voter (all voter chosen).1
    · exact (all' voter chosen).1
  rw [List.length_append] at bounded
  unfold majority at enough enough'
  unfold KeySet.len at close enough enough'
  omega

/-- A voter set that is covered by another one and a further voter has at most one voter more. -/
theorem len_le_of_cover (extra : Nat)
    (cover : ∀ id ∈ first.voters.elems, id = extra ∨ id ∈ second.voters.elems) :
    first.voters.len ≤ second.voters.len + 1 := by
  have bounded : first.voters.elems.length ≤ (extra :: second.voters.elems).length := by
    apply List.Subperm.length_le
    apply List.subperm_of_subset first.voters.nodup
    exact fun id inside => List.mem_cons.2 (cover id inside)
  exact bounded

/-- Majorities of two voter sets that differ in at most one voter share a voter. -/
theorem Agrees.intersect_close (extra : Nat)
    (close : ∀ id, id ≠ extra → (id ∈ first.voters.elems ↔ id ∈ second.voters.elems))
    (voted : first.isEmpty = false) (voted' : second.isEmpty = false) (left : first.Agrees p)
    (right : second.Agrees q) :
    ∃ voter, p voter ∧ q voter := by
  have cover : ∀ id ∈ first.voters.elems, id = extra ∨ id ∈ second.voters.elems := fun id inside =>
    or_iff_not_imp_left.2 fun other => (close id other).1 inside
  have cover' : ∀ id ∈ second.voters.elems, id = extra ∨ id ∈ first.voters.elems := fun id inside =>
    or_iff_not_imp_left.2 fun other => (close id other).2 inside
  by_cases present : extra ∈ first.voters.elems
  · have nested : ∀ id ∈ second.voters.elems, id ∈ first.voters.elems := fun id inside => by
      rcases cover' id inside with rfl | inside
      · exact present
      · exact inside
    obtain ⟨voter, chosen, chosen'⟩ :=
      Agrees.intersect_nested nested (len_le_of_cover extra cover) voted' voted right left
    exact ⟨voter, chosen', chosen⟩
  · have nested : ∀ id ∈ first.voters.elems, id ∈ second.voters.elems := fun id inside => by
      rcases cover id inside with rfl | inside'
      · exact absurd inside present
      · exact inside'
    exact Agrees.intersect_nested nested (len_le_of_cover extra cover') voted voted' left right

end MajorityConfig

namespace ProgressTracker

variable {start tracker tracker' : ProgressTracker}

theorem hasQuorum_iff (tracker : ProgressTracker) (nodes : KeySet Nat) :
    tracker.hasQuorum nodes = true ↔ tracker.conf.voters.Agrees fun id => id ∈ nodes.elems := by
  unfold hasQuorum
  rw [beq_iff_eq, JointConfig.voteResult_won]
  have test : ∀ id, (if nodes.contains id then some true else none) = some true ↔ id ∈ nodes.elems := by
    intro id
    rw [← KeySet.contains_iff]
    split <;> simp_all
  simp only [test]

/-- A voter set whose nodes are listed is not empty when there is one. -/
theorem isEmpty_false {config : MajorityConfig} {voters : Set Nat}
    (lists : ∀ id, id ∈ config.voters.elems ↔ id ∈ voters) (voted : voters.Nonempty) :
    config.isEmpty = false := by
  rw [Bool.eq_false_iff, Ne, Changer.isEmpty_voters lists]
  exact voted.ne_empty

/-- Agreeing sets of consecutive configurations have a common member. -/
theorem agrees_step {roster roster' : Roster} (step : roster.Step roster')
    (represents : tracker.Represents roster) (represents' : tracker'.Represents roster')
    (voted : roster.incoming.Nonempty) {p q : Nat → Prop} (left : tracker.conf.voters.Agrees p)
    (right : tracker'.conf.voters.Agrees q) : ∃ id, p id ∧ q id := by
  have listed := represents.lists.incoming
  have some := isEmpty_false listed voted
  cases step with
  | simple settled ccs voted' few =>
      have listed' := represents'.lists.incoming
      have some' := isEmpty_false listed' voted'
      -- All differing voters are one voter; without any, every voter may play its part.
      obtain ⟨extra, only⟩ : ∃ extra, ∀ id, id ≠ extra →
        (id ∈ tracker.conf.voters.incoming.voters.elems ↔
          id ∈ tracker'.conf.voters.incoming.voters.elems) := by
        simp only [listed, listed']
        rcases few.eq_empty_or_singleton with none | ⟨extra, single⟩
        · refine ⟨0, fun id _ => ?_⟩
          by_contra differs
          exact Set.eq_empty_iff_forall_notMem.1 none id fun same => differs same.symm
        · refine ⟨extra, fun id other => ?_⟩
          by_contra differs
          have inside : id ∈ ({extra} : Set Nat) := single ▸ fun same => differs same.symm
          exact other inside
      exact left.1.intersect_close extra only some some' right.1
  | enter settled voted autoLeave ccs stays =>
      have copied : ∀ id, id ∈ tracker'.conf.voters.outgoing.voters.elems ↔ id ∈ roster.incoming := by
        intro id
        have kept := (roster.fork.changes_outgoing ccs).1
        rw [represents'.lists.outgoing, Changer.enteredRoster, Roster.leaving_outgoing, kept,
          Roster.fork_outgoing, settled, Set.empty_union]
      exact left.1.intersect_close 0 (fun id _ => (listed id).trans (copied id).symm) some
        (isEmpty_false copied voted) right.2
  | leave double =>
      have listed' := represents'.lists.incoming
      exact left.1.intersect_close 0 (fun id _ => (listed id).trans (listed' id).symm) some
        (isEmpty_false listed' voted) right.1

/-- Quorums of a configuration that the changer reached and of the next one have a common member. -/
theorem quorums_intersect (blank : start.Blank) (run : Relation.ReflTransGen Reconfigures start tracker)
    (voted : tracker.conf.voters.incoming.isEmpty = false)
    (next : tracker' = tracker ∨ tracker.Reconfigures tracker') (nodes nodes' : KeySet Nat)
    (quorum : tracker.hasQuorum nodes = true) (quorum' : tracker'.hasQuorum nodes' = true) :
    ∃ id, id ∈ nodes.elems ∧ id ∈ nodes'.elems := by
  rw [hasQuorum_iff] at quorum quorum'
  rcases next with rfl | changed
  · exact quorum.intersect (Or.inl voted) quorum'
  · obtain ⟨roster, -, represents⟩ := represents_run blank run
    obtain ⟨roster', step, represents'⟩ := changed.step represents
    have some := nonempty_voters represents.lists.incoming (Bool.eq_false_iff.1 voted)
    exact agrees_step step represents represents' some quorum quorum'

/-- From the only voter 1 to the joint configuration with voters 2 and 3. -/
theorem quorums_intersect_handover :
    let tracker := (ProgressTracker.new 256).applyConf
      { voters := { incoming := ⟨KeySet.ofList [1]⟩ } } [(1, .add)] 5
    let tracker' := tracker.applyConf
      { voters := { incoming := ⟨KeySet.ofList [2, 3]⟩, outgoing := ⟨KeySet.ofList [1]⟩ } }
        [(2, .add), (3, .add)] 5
    tracker.Reconfigures tracker' ∧ tracker.hasQuorum (KeySet.ofList [1]) = true ∧
      tracker'.hasQuorum (KeySet.ofList [1, 2, 3]) = true ∧
      ∃ id, id ∈ (KeySet.ofList [1]).elems ∧ id ∈ (KeySet.ofList [1, 2, 3]).elems := by
  intro tracker tracker'
  have first : Reconfigures (ProgressTracker.new 256) tracker := .install (.simple [⟨.addNode, 1⟩]) 5 rfl
  have second : Reconfigures tracker tracker' :=
    .install (.enterJoint false [⟨.addNode, 2⟩, ⟨.addNode, 3⟩, ⟨.removeNode, 1⟩]) 5 rfl
  exact ⟨second, by decide, by decide, quorums_intersect ⟨rfl, rfl⟩ (.single first) (by decide)
    (Or.inr second) _ _
    (by decide : tracker.hasQuorum _ = true) (by decide : tracker'.hasQuorum _ = true)⟩

end ProgressTracker

end RaftRs

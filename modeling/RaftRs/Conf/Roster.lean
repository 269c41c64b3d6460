import RaftRs.Model.ConfChange
import Mathlib.Data.Set.Lattice
import Mathlib.Logic.Relation

namespace RaftRs

/-- The node sets of a configuration, without an order and without their progress. -/
@[ext] structure Roster where
  incoming : Set Nat
  outgoing : Set Nat
  learners : Set Nat
  staged : Set Nat
  autoLeave : Bool
  learners_incoming : ∀ id ∈ learners, id ∉ incoming
  learners_outgoing : ∀ id ∈ learners, id ∉ outgoing
  staged_incoming : ∀ id ∈ staged, id ∉ incoming
  staged_outgoing : staged ⊆ outgoing
  autoLeave_joint : autoLeave = true → outgoing.Nonempty
  zero_incoming : 0 ∉ incoming
  zero_outgoing : 0 ∉ outgoing
  zero_learners : 0 ∉ learners

namespace Roster

variable (roster : Roster)

/-- The nodes that hold a replica. -/
def members : Set Nat := {id | id ∈ roster.incoming ∨ id ∈ roster.outgoing ∨ id ∈ roster.learners}

/-- The roster of a tracker that knows no node. -/
def empty : Roster := by
  refine ⟨∅, ∅, ∅, ∅, false, ?_, ?_, ?_, ?_, ?_, ?_, ?_, ?_⟩ <;> simp

/-- A node votes in the incoming set and is no learner. -/
@[simps] def addVoter (id : Nat) (named : id ≠ 0) : Roster where
  incoming := insert id roster.incoming
  outgoing := roster.outgoing
  learners := roster.learners \ {id}
  staged := roster.staged \ {id}
  autoLeave := roster.autoLeave
  learners_incoming other learner := by
    rintro (same | voter)
    · exact learner.2 same
    · exact roster.learners_incoming other learner.1 voter
  learners_outgoing other learner := roster.learners_outgoing other learner.1
  staged_incoming other staged := by
    rintro (same | voter)
    · exact staged.2 same
    · exact roster.staged_incoming other staged.1 voter
  staged_outgoing := Set.sdiff_subset.trans roster.staged_outgoing
  autoLeave_joint := roster.autoLeave_joint
  zero_incoming := by
    rintro (same | voter)
    · exact named same.symm
    · exact roster.zero_incoming voter
  zero_outgoing := roster.zero_outgoing
  zero_learners learner := roster.zero_learners learner.1

/-- A node leaves the incoming voters and the learners; it may still vote in the outgoing set. -/
@[simps] def remove (id : Nat) : Roster where
  incoming := roster.incoming \ {id}
  outgoing := roster.outgoing
  learners := roster.learners \ {id}
  staged := roster.staged \ {id}
  autoLeave := roster.autoLeave
  learners_incoming other learner voter := roster.learners_incoming other learner.1 voter.1
  learners_outgoing other learner := roster.learners_outgoing other learner.1
  staged_incoming other staged voter := roster.staged_incoming other staged.1 voter.1
  staged_outgoing := Set.sdiff_subset.trans roster.staged_outgoing
  autoLeave_joint := roster.autoLeave_joint
  zero_incoming voter := roster.zero_incoming voter.1
  zero_outgoing := roster.zero_outgoing
  zero_learners learner := roster.zero_learners learner.1

/-- A node stops to vote in the incoming set and learns, at once unless it still votes in the
outgoing set. -/
@[simps] def addLearner (id : Nat) (named : id ≠ 0) : Roster where
  incoming := roster.incoming \ {id}
  outgoing := roster.outgoing
  learners := {other | other ∈ roster.learners ∨ other = id ∧ id ∉ roster.outgoing}
  staged := {other | other ∈ roster.staged ∨ other = id ∧ id ∈ roster.outgoing}
  autoLeave := roster.autoLeave
  learners_incoming other learner voter := by
    rcases learner with learner | ⟨same, -⟩
    · exact roster.learners_incoming other learner voter.1
    · exact voter.2 same
  learners_outgoing other learner := by
    rcases learner with learner | ⟨rfl, absent⟩
    · exact roster.learners_outgoing other learner
    · exact absent
  staged_incoming other staged voter := by
    rcases staged with staged | ⟨same, -⟩
    · exact roster.staged_incoming other staged voter.1
    · exact voter.2 same
  staged_outgoing other staged := by
    rcases staged with staged | ⟨rfl, present⟩
    · exact roster.staged_outgoing staged
    · exact present
  autoLeave_joint := roster.autoLeave_joint
  zero_incoming voter := roster.zero_incoming voter.1
  zero_outgoing := roster.zero_outgoing
  zero_learners learner := by
    rcases learner with learner | ⟨same, -⟩
    · exact roster.zero_learners learner
    · exact named same.symm

/-- What a single change does to the node sets. -/
def change (cc : ConfChangeSingle) : Roster :=
  if unnamed : cc.nodeId = 0 then roster
  else match cc.changeType with
    | .addNode => roster.addVoter cc.nodeId unnamed
    | .addLearnerNode => roster.addLearner cc.nodeId unnamed
    | .removeNode => roster.remove cc.nodeId

/-- The incoming voters also vote in the outgoing set. -/
@[simps] def fork : Roster where
  incoming := roster.incoming
  outgoing := roster.outgoing ∪ roster.incoming
  learners := roster.learners
  staged := roster.staged
  autoLeave := roster.autoLeave
  learners_incoming := roster.learners_incoming
  learners_outgoing other learner := by
    rintro (voter | voter)
    · exact roster.learners_outgoing other learner voter
    · exact roster.learners_incoming other learner voter
  staged_incoming := roster.staged_incoming
  staged_outgoing := roster.staged_outgoing.trans Set.subset_union_left
  autoLeave_joint auto := (roster.autoLeave_joint auto).mono Set.subset_union_left
  zero_incoming := roster.zero_incoming
  zero_outgoing := by
    rintro (voter | voter)
    · exact roster.zero_outgoing voter
    · exact roster.zero_incoming voter
  zero_learners := roster.zero_learners

/-- A joint roster is left automatically or not. -/
@[simps] def leaving (flag : Bool) (isJoint : roster.outgoing.Nonempty) : Roster :=
  { roster with autoLeave := flag, autoLeave_joint := fun _ => isJoint }

/-- The outgoing voters are dropped and the staged nodes learn. -/
@[simps] def settle : Roster where
  incoming := roster.incoming
  outgoing := ∅
  learners := roster.learners ∪ roster.staged
  staged := ∅
  autoLeave := false
  learners_incoming other learner := by
    rcases learner with learner | staged
    · exact roster.learners_incoming other learner
    · exact roster.staged_incoming other staged
  learners_outgoing _ _ := Set.notMem_empty _
  staged_incoming _ staged := absurd staged (Set.notMem_empty _)
  staged_outgoing := Set.empty_subset _
  autoLeave_joint auto := absurd auto Bool.false_ne_true
  zero_incoming := roster.zero_incoming
  zero_outgoing := Set.notMem_empty _
  zero_learners learner := by
    rcases learner with learner | staged
    · exact roster.zero_learners learner
    · exact roster.zero_outgoing (roster.staged_outgoing staged)

@[simp] theorem mem_members {id : Nat} :
    id ∈ roster.members ↔ id ∈ roster.incoming ∨ id ∈ roster.outgoing ∨ id ∈ roster.learners := Iff.rfl

theorem staged_members {id : Nat} (staged : id ∈ roster.staged) : id ∈ roster.members :=
  Or.inr (Or.inl (roster.staged_outgoing staged))

/-- A single change keeps the outgoing voters and the leaving mode. -/
theorem change_outgoing (cc : ConfChangeSingle) :
    (roster.change cc).outgoing = roster.outgoing ∧ (roster.change cc).autoLeave = roster.autoLeave := by
  unfold change
  split
  · exact ⟨rfl, rfl⟩
  · split <;> exact ⟨rfl, rfl⟩

/-- A list of changes keeps the outgoing voters and the leaving mode. -/
theorem changes_outgoing (ccs : List ConfChangeSingle) :
    (ccs.foldl change roster).outgoing = roster.outgoing ∧
      (ccs.foldl change roster).autoLeave = roster.autoLeave := by
  induction ccs generalizing roster with
  | nil => exact ⟨rfl, rfl⟩
  | cons cc rest ih =>
      have head := roster.change_outgoing cc
      have tail := ih (roster.change cc)
      exact ⟨tail.1.trans head.1, tail.2.trans head.2⟩

end Roster

end RaftRs

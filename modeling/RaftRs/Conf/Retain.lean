import RaftRs.Conf.Reconfigure

namespace RaftRs

open Library

/-- The call of the changer that applies a configuration change. -/
def ConfChangeV2.membershipChange (cc : ConfChangeV2) : MembershipChange :=
  if cc.leaveJoint then .leaveJoint
  else match cc.enterJoint with
    | some autoLeave => .enterJoint autoLeave cc.changes
    | none => .simple cc.changes

/-- A change does not take the vote of a node away. -/
def MembershipChange.Retains (conf : Configuration) (id : Nat) : MembershipChange → Prop
  | .simple ccs => ∀ cc ∈ ccs, cc.nodeId = id → cc.changeType = .addNode
  | .enterJoint _ _ => True
  | .leaveJoint => id ∈ conf.voters.incoming.voters.elems

/-- A node votes or learns in a configuration. -/
def Configuration.Member (conf : Configuration) (id : Nat) : Prop :=
  conf.voters.contains id = true ∨ id ∈ conf.learners.elems

/-- A change does not remove a node: no step removes it, or it still votes in the outgoing set of a
joint configuration, and a left joint configuration has it in its incoming set or among its
learners. -/
def MembershipChange.Keeps (conf : Configuration) (id : Nat) : MembershipChange → Prop
  | .simple ccs => ∀ cc ∈ ccs, cc.nodeId = id → cc.changeType ≠ .removeNode
  | .enterJoint _ ccs => id ∈ conf.voters.incoming.voters.elems ∨
      ∀ cc ∈ ccs, cc.nodeId = id → cc.changeType ≠ .removeNode
  | .leaveJoint =>
      id ∈ conf.voters.incoming.voters.elems ∨ id ∈ conf.learners.elems ∨ id ∈ conf.learnersNext.elems

namespace Roster

variable {id : Nat}

/-- A change that does not demote a voter keeps its vote. -/
theorem change_keeps (roster : Roster) {cc : ConfChangeSingle} (voter : id ∈ roster.incoming)
    (kept : cc.nodeId = id → cc.changeType = .addNode) : id ∈ (roster.change cc).incoming := by
  unfold change
  split
  · exact voter
  · by_cases same : cc.nodeId = id
    · simp [kept same, voter]
    · have other : id ≠ cc.nodeId := Ne.symm same
      split <;> simp [voter, other]

theorem changes_keep (roster : Roster) {ccs : List ConfChangeSingle} (voter : id ∈ roster.incoming)
    (kept : ∀ cc ∈ ccs, cc.nodeId = id → cc.changeType = .addNode) :
    id ∈ (ccs.foldl change roster).incoming := by
  induction ccs generalizing roster with
  | nil => exact voter
  | cons cc rest ih =>
      have head := roster.change_keeps voter (kept cc List.mem_cons_self)
      exact ih (roster.change cc) head fun cc member => kept cc (List.mem_cons_of_mem _ member)

/-- A change that does not remove a member keeps it. -/
theorem change_member (roster : Roster) {cc : ConfChangeSingle} (member : id ∈ roster.members)
    (kept : cc.nodeId = id → cc.changeType ≠ .removeNode) : id ∈ (roster.change cc).members := by
  unfold change
  split
  · exact member
  · by_cases same : cc.nodeId = id
    · have stays := kept same
      cases kind : cc.changeType with
      | addNode => exact .inl (by simp [same])
      | addLearnerNode =>
          by_cases outgoing : id ∈ roster.outgoing
          · exact .inr (.inl outgoing)
          · exact .inr (.inr (by simp [same, outgoing]))
      | removeNode => exact absurd kind stays
    · have other : id ≠ cc.nodeId := Ne.symm same
      split <;> simpa [other] using member

/-- Changes that do not remove a member keep it. -/
theorem changes_member (roster : Roster) {ccs : List ConfChangeSingle} (member : id ∈ roster.members)
    (kept : ∀ cc ∈ ccs, cc.nodeId = id → cc.changeType ≠ .removeNode) :
    id ∈ (ccs.foldl change roster).members := by
  induction ccs generalizing roster with
  | nil => exact member
  | cons cc rest ih =>
      have head := roster.change_member member (kept cc List.mem_cons_self)
      exact ih (roster.change cc) head fun cc inside => kept cc (List.mem_cons_of_mem _ inside)

end Roster

/-- An entered joint configuration keeps the former voters as outgoing ones. -/
theorem Changer.enteredRoster_outgoing {roster : Roster} {autoLeave : Bool} {ccs : List ConfChangeSingle}
    (voted : roster.incoming.Nonempty) :
    (enteredRoster roster autoLeave ccs voted).outgoing = roster.outgoing ∪ roster.incoming := by
  rw [enteredRoster, Roster.leaving_outgoing, (roster.fork.changes_outgoing ccs).1, Roster.fork_outgoing]

theorem Configuration.Lists.contains {cfg : Configuration} {roster : Roster}
    (lists : cfg.Lists roster) (id : Nat) :
    cfg.voters.contains id = true ↔ id ∈ roster.incoming ∨ id ∈ roster.outgoing := by
  rw [JointConfig.contains, Bool.or_eq_true, Changer.contains_voters lists.incoming,
    Changer.contains_voters lists.outgoing]

theorem Configuration.Lists.member {cfg : Configuration} {roster : Roster}
    (lists : cfg.Lists roster) (id : Nat) :
    cfg.Member id ↔ id ∈ roster.members := by
  unfold Configuration.Member
  rw [lists.contains, lists.learners, Roster.mem_members, or_assoc]

namespace ProgressTracker

variable {tracker start restored : ProgressTracker} {roster : Roster} {cfg : Configuration}
  {changes : MapChange}

/-- A retained voter votes in the new configuration. -/
theorem retains_run {change : MembershipChange} (represents : tracker.Represents roster)
    (done : change.run tracker = .ok (cfg, changes)) {id : Nat}
    (voter : tracker.conf.voters.contains id = true) (retains : change.Retains tracker.conf id) :
    cfg.voters.contains id = true := by
  obtain ⟨roster', -, leads, lists, -⟩ := run_step represents done
  have voter := (represents.lists.contains id).1 voter
  rw [lists.contains]
  cases leads with
  | simple settled =>
      rw [settled] at voter
      exact .inl (roster.changes_keep (voter.resolve_right (Set.notMem_empty _)) retains)
  | @enterJoint autoLeave ccs settled voted =>
      rw [settled] at voter
      rw [Changer.enteredRoster_outgoing]
      exact .inr (.inr (voter.resolve_right (Set.notMem_empty _)))
  | leaveJoint => exact .inl ((represents.lists.incoming id).1 retains)

/-- A kept member stays a member of the new configuration. -/
theorem keeps_run {change : MembershipChange} (represents : tracker.Represents roster)
    (done : change.run tracker = .ok (cfg, changes)) {id : Nat} (member : tracker.conf.Member id)
    (keeps : change.Keeps tracker.conf id) : cfg.Member id := by
  obtain ⟨roster', -, leads, lists, -⟩ := run_step represents done
  have member := (represents.lists.member id).1 member
  rw [lists.member]
  cases leads with
  | simple settled => exact roster.changes_member member keeps
  | @enterJoint autoLeave ccs settled voted =>
      rcases keeps with voter | kept
      · refine .inr (.inl ?_)
        rw [Changer.enteredRoster_outgoing]
        exact .inr ((represents.lists.incoming id).1 voter)
      · refine roster.fork.changes_member ?_ kept
        exact member.imp_right fun rest => rest.imp_left Or.inl
  | leaveJoint =>
      rcases keeps with incoming | learner | staged
      · exact .inl ((represents.lists.incoming id).1 incoming)
      · exact .inr (.inr (.inl ((represents.lists.learners id).1 learner)))
      · exact .inr (.inr (.inr ((represents.lists.learnersNext id).1 staged)))

/-- One simple change is a call of the changer. -/
theorem applySimple_reconfigures {nextIdx : Nat} {cc : ConfChangeSingle}
    (done : applySimple nextIdx tracker cc = .ok restored) : tracker.Reconfigures restored := by
  obtain ⟨⟨cfg, changes⟩, simple, same⟩ := bind_eq_ok.1 done
  obtain rfl := Except.ok.inj same
  exact .install (.simple [cc]) nextIdx simple

/-- Simple changes are calls of the changer. -/
theorem applySimples_run {nextIdx : Nat} {ccs : List ConfChangeSingle}
    (done : ccs.foldlM (applySimple nextIdx) tracker = .ok restored) :
    Relation.ReflTransGen Reconfigures tracker restored := by
  induction ccs generalizing tracker with
  | nil =>
      obtain rfl := Except.ok.inj done
      exact .refl
  | cons cc rest ih =>
      rw [List.foldlM_cons] at done
      obtain ⟨next, first, later⟩ := bind_eq_ok.1 done
      exact .head (applySimple_reconfigures first) (ih later)

/-- A configuration is restored by calls of the changer. -/
theorem restoreConf_run {nextIdx : Nat} {cs : ConfState}
    (done : restoreConf tracker nextIdx cs = .ok restored) :
    Relation.ReflTransGen Reconfigures tracker restored := by
  unfold restoreConf at done
  split at done
  · exact applySimples_run done
  · obtain ⟨mid, first, later⟩ := bind_eq_ok.1 done
    obtain ⟨⟨cfg, changes⟩, entered, same⟩ := bind_eq_ok.1 later
    obtain rfl := Except.ok.inj same
    exact .tail (applySimples_run first) (.install (.enterJoint cs.autoLeave _) nextIdx entered)

/-- A tracker that follows a roster of the membership protocol. -/
def Rostered (tracker : ProgressTracker) : Prop :=
  ∃ roster, Relation.ReflTransGen Roster.Step Roster.empty roster ∧ tracker.Represents roster

theorem rostered_restoreConf {nextIdx : Nat} {cs : ConfState} (blank : tracker.Blank)
    (done : restoreConf tracker nextIdx cs = .ok restored) : restored.Rostered :=
  represents_run blank (restoreConf_run done)

/-- A reconfigured tracker follows a roster. -/
theorem Rostered.reconfigure {next : ProgressTracker} (rostered : tracker.Rostered)
    (changed : tracker.Reconfigures next) : next.Rostered := by
  obtain ⟨roster, steps, represents⟩ := rostered
  obtain ⟨after, step, represented⟩ := changed.step represents
  exact ⟨after, steps.tail step, represented⟩

end ProgressTracker

end RaftRs

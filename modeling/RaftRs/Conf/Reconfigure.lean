import RaftRs.Conf.Membership

namespace RaftRs

open Library

/-- The configuration of a tracker lists a roster and exactly its members have a progress. -/
structure ProgressTracker.Represents (tracker : ProgressTracker) (roster : Roster) : Prop where
  lists : tracker.conf.Lists roster
  tracks : ∀ id, tracker.progress.contains id = true ↔ id ∈ roster.members

namespace ProgressTracker

/-- An installed configuration replaces the old one. -/
@[simp] theorem applyConf_conf (tracker : ProgressTracker) (cfg : Configuration)
    (changes : MapChange) (nextIdx : Nat) :
    (tracker.applyConf cfg changes nextIdx).conf = cfg := by
  unfold applyConf
  induction changes using List.reverseRecOn with
  | nil => rfl
  | append_singleton changes change ih =>
      rw [List.foldl_append]
      cases kind : change.2 <;> simpa [kind] using ih

/-- The progress changes are installed as the changer counts them. -/
theorem applyConf_contains (tracker : ProgressTracker) (cfg : Configuration) (changes : MapChange)
    (nextIdx id : Nat) :
    (tracker.applyConf cfg changes nextIdx).progress.contains id =
      IncrChangeMap.contains { changes, base := tracker.progress } id := by
  induction changes using List.reverseRecOn with
  | nil => rfl
  | append_singleton changes change ih =>
      have pushed :=
        IncrChangeMap.contains_push { changes, base := tracker.progress } change.1 id change.2
      unfold IncrChangeMap.push at pushed
      rw [pushed, ← ih]
      unfold applyConf
      rw [List.foldl_append]
      by_cases same : id = change.1
      · cases kind : change.2 <;> simp [kind, same, KeyMap.contains]
      · cases kind : change.2 <;> simp [kind, same, KeyMap.contains]

/-- A tracker represents the roster that the changer computed for it. -/
theorem represents_applyConf {tracker : ProgressTracker} {cfg : Configuration} {prs : IncrChangeMap}
    {roster : Roster} (lists : cfg.Lists roster) (tracks : prs.Tracks roster)
    (base : prs.base = tracker.progress) (nextIdx : Nat) :
    (tracker.applyConf cfg prs.changes nextIdx).Represents roster := by
  refine ⟨by rw [applyConf_conf]; exact lists, fun id => ?_⟩
  rw [applyConf_contains, ← base]
  exact tracks id

theorem represents_empty {tracker : ProgressTracker} (unknown : tracker.progress = KeyMap.empty)
    (blank : tracker.conf = {}) : tracker.Represents Roster.empty := by
  refine ⟨?_, fun id => ?_⟩
  · rw [blank]
    constructor <;> simp [Roster.empty]
  · rw [unknown]
    simp [Roster.empty, KeyMap.contains]

end ProgressTracker

namespace Changer

variable {tracker : ProgressTracker} {roster : Roster}

theorem checkAndCopy_ok (represents : tracker.Represents roster) :
    checkAndCopy tracker = .ok (tracker.conf, { base := tracker.progress }) := by
  have tracks : IncrChangeMap.Tracks { base := tracker.progress } roster := represents.tracks
  simp only [checkAndCopy, checkInvariants_ok represents.lists tracks, ok_bind]
  rfl

theorem represents_start (represents : tracker.Represents roster) :
    ChangerState.Represents (tracker.conf, { base := tracker.progress }) roster :=
  ⟨represents.lists, represents.tracks⟩

theorem simple_eq (represents : tracker.Represents roster) (settled : joint tracker.conf = false)
    (ccs : List ConfChangeSingle) :
    let final := ccs.foldl applyOne (tracker.conf, { base := tracker.progress })
    simple tracker ccs =
      if final.1.voters.incoming.isEmpty then .error (.confChangeError "removed all voters")
      else if symmetricDifferenceCount final.1.voters.incoming.voters
        tracker.conf.voters.incoming.voters > 1 then
        .error (.confChangeError "more than one voter changed without entering joint config")
      else .ok (final.1, final.2.changes) := by
  intro final
  have after : ChangerState.Represents final _ := represents_foldl (represents_start represents) ccs
  unfold simple
  rw [settled, checkAndCopy_ok represents]
  simp only [Bool.false_eq_true, if_false, ok_bind, apply]
  split
  · rfl
  · simp only [ok_bind]
    split
    · rfl
    · rw [checkInvariants_ok after.lists after.tracks]
      rfl

/-- The start of the changer with the incoming voters copied to the outgoing set. -/
def forked (tracker : ProgressTracker) : ChangerState :=
  let voters := tracker.conf.voters
  ({ tracker.conf with
      voters := { voters with
        outgoing := ⟨voters.outgoing.voters.extend voters.incoming.voters.elems⟩ } },
    { base := tracker.progress })

theorem represents_forked (represents : tracker.Represents roster) :
    ChangerState.Represents (forked tracker) roster.fork := by
  obtain ⟨lists, tracks⟩ := represents
  refine ⟨⟨lists.incoming, fun id => ?_, lists.learners, lists.learnersNext, lists.autoLeave⟩,
    fun id => ?_⟩
  · simp [forked, lists.incoming, lists.outgoing]
  · have known : IncrChangeMap.contains { base := tracker.progress } id = true ↔ _ := tracks id
    simp only [Roster.mem_members, Roster.fork_incoming, Roster.fork_outgoing, Roster.fork_learners,
      Set.mem_union] at known ⊢
    unfold forked
    rw [known]
    tauto

/-- The roster after a joint change. -/
def enteredRoster (roster : Roster) (autoLeave : Bool) (ccs : List ConfChangeSingle)
    (voted : roster.incoming.Nonempty) : Roster :=
  (ccs.foldl Roster.change roster.fork).leaving autoLeave (by
    rw [(roster.fork.changes_outgoing ccs).1]
    exact voted.mono Set.subset_union_right)

/-- A joint change does to the changer what it does to the roster. -/
theorem represents_entered (represents : tracker.Represents roster) (autoLeave : Bool)
    (ccs : List ConfChangeSingle) (voted : roster.incoming.Nonempty) :
    let final := ccs.foldl applyOne (forked tracker)
    ChangerState.Represents ({ final.1 with autoLeave }, final.2)
      (enteredRoster roster autoLeave ccs voted) := by
  have after := represents_foldl (represents_forked represents) ccs
  exact ⟨⟨after.lists.incoming, after.lists.outgoing, after.lists.learners,
    after.lists.learnersNext, rfl⟩, after.tracks⟩

/-- A settled tracker with voters enters a joint configuration unless the changes remove all
voters. -/
theorem enterJoint_eq (represents : tracker.Represents roster) (settled : joint tracker.conf = false)
    (voted : roster.incoming.Nonempty) (autoLeave : Bool) (ccs : List ConfChangeSingle) :
    let final := ccs.foldl applyOne (forked tracker)
    enterJoint tracker autoLeave ccs =
      if final.1.voters.incoming.isEmpty then .error (.confChangeError "removed all voters")
      else .ok ({ final.1 with autoLeave }, final.2.changes) := by
  intro final
  have after := represents_entered represents autoLeave ccs voted
  have some : tracker.conf.voters.incoming.isEmpty = false := by
    rw [Bool.eq_false_iff, Ne, isEmpty_voters represents.lists.incoming]
    exact voted.ne_empty
  unfold enterJoint
  rw [settled, checkAndCopy_ok represents]
  simp only [Bool.false_eq_true, if_false, ok_bind, apply, some]
  change (if final.1.voters.incoming.isEmpty then _ else _) >>= _ = _
  split
  · rfl
  · simp only [ok_bind]
    change (checkInvariants { final.1 with autoLeave } final.2 >>= fun _ =>
      pure ({ final.1 with autoLeave }, final.2.changes)) = _
    rw [checkInvariants_ok after.lists after.tracks]
    rfl

/-- The configuration after a joint one was left. -/
def settled (cfg : Configuration) : Configuration :=
  { cfg with
    voters := { cfg.voters with outgoing := {} }
    learners := cfg.learners.extend cfg.learnersNext.elems
    learnersNext := KeySet.empty
    autoLeave := false }

/-- The progress changes when a joint configuration is left. -/
def dropOutgoing (cfg : Configuration) (prs : IncrChangeMap) : IncrChangeMap :=
  cfg.voters.outgoing.voters.elems.foldl (fun prs id =>
    if !cfg.voters.incoming.contains id && !(settled cfg).learners.contains id then
      prs.push id .remove else prs) prs

/-- A loop of removals removes exactly the chosen nodes. -/
theorem contains_dropped (chosen : Nat → Bool) (ids : List Nat) (prs : IncrChangeMap) (other : Nat) :
    (ids.foldl (fun prs id => if chosen id then prs.push id .remove else prs) prs).contains other =
      (prs.contains other && !(ids.contains other && chosen other)) := by
  induction ids generalizing prs with
  | nil => simp
  | cons id rest ih =>
      rw [List.foldl_cons, ih]
      by_cases drop : chosen id = true
      · rw [if_pos drop, IncrChangeMap.contains_push]
        by_cases same : other = id
        · subst same
          simp [drop]
        · simp [same]
      · rw [if_neg drop]
        by_cases same : other = id
        · subst same
          simp [drop]
        · simp [same]

/-- A loop of removals leaves the progress below it alone. -/
theorem dropped_base (chosen : Nat → Bool) (ids : List Nat) (prs : IncrChangeMap) :
    (ids.foldl (fun prs id => if chosen id then prs.push id .remove else prs) prs).base = prs.base := by
  induction ids generalizing prs with
  | nil => rfl
  | cons id rest ih =>
      rw [List.foldl_cons, ih]
      split <;> rfl

/-- Leaving drops the outgoing voters that have no other role. -/
theorem represents_settled (represents : tracker.Represents roster) :
    ChangerState.Represents (settled tracker.conf,
      dropOutgoing tracker.conf { base := tracker.progress })
      roster.settle := by
  obtain ⟨lists, tracks⟩ := represents
  have learners : ∀ id, id ∈ (settled tracker.conf).learners.elems ↔ id ∈ roster.settle.learners := by
    intro id
    simp [settled, lists.learners, lists.learnersNext]
  refine ⟨⟨lists.incoming, ?_, learners, ?_, rfl⟩, fun id => ?_⟩
  · simp [settled]
  · simp [settled]
  · have known : IncrChangeMap.contains { base := tracker.progress } id = true ↔ _ := tracks id
    have voter := contains_voters lists.incoming id
    have learner : (settled tracker.conf).learners.contains id = true ↔ id ∈ roster.settle.learners := by
      rw [KeySet.contains_iff, learners]
    have old : tracker.conf.voters.outgoing.voters.elems.contains id = true ↔ id ∈ roster.outgoing := by
      rw [List.contains_iff_mem, lists.outgoing]
    have staged : id ∈ roster.staged → id ∈ roster.outgoing :=
      fun staged => roster.staged_outgoing staged
    simp only [dropOutgoing, contains_dropped]
    simp only [Roster.mem_members, Roster.settle_incoming, Roster.settle_outgoing,
      Roster.settle_learners, Set.mem_union, Set.mem_empty_iff_false] at known learner ⊢
    grind

theorem leaveJoint_eq (represents : tracker.Represents roster) (double : joint tracker.conf = true) :
    leaveJoint tracker =
      .ok (settled tracker.conf, (dropOutgoing tracker.conf { base := tracker.progress }).changes) := by
  have after := represents_settled represents
  unfold leaveJoint
  rw [double, checkAndCopy_ok represents]
  simp only [Bool.not_true, Bool.false_eq_true, if_false, ok_bind]
  change (checkInvariants (settled tracker.conf)
    (dropOutgoing tracker.conf { base := tracker.progress }) >>= fun _ =>
    pure (settled tracker.conf, (dropOutgoing tracker.conf { base := tracker.progress }).changes)) = _
  rw [checkInvariants_ok after.lists after.tracks]
  rfl

/-- At most one voter differs when the count is at most one. -/
theorem symmetricDifference_subsingleton {a b : KeySet Nat} (few : ¬ symmetricDifferenceCount a b > 1) :
    {id | ¬ (id ∈ a.elems ↔ id ∈ b.elems)}.Subsingleton := by
  have counted :
      ((a.elems.filter fun id => !b.contains id) ++ b.elems.filter fun id => !a.contains
        id).length ≤ 1 := by
    rw [List.length_append, ← List.countP_eq_length_filter, ← List.countP_eq_length_filter]
    exact Nat.le_of_not_gt few
  have listed : ∀ id, ¬ (id ∈ a.elems ↔ id ∈ b.elems) →
      id ∈ (a.elems.filter fun id => !b.contains id) ++ b.elems.filter fun id => !a.contains id := by
    intro id different
    simp only [List.mem_append, List.mem_filter, KeySet.contains, Bool.not_eq_true',
      decide_eq_false_iff_not]
    tauto
  intro first firstDiffers second secondDiffers
  have firstListed := listed first firstDiffers
  have secondListed := listed second secondDiffers
  generalize (a.elems.filter _ ++ b.elems.filter _) = differing at counted firstListed secondListed
  cases differing with
  | nil => exact absurd firstListed List.not_mem_nil
  | cons only rest =>
      obtain rfl : rest = [] :=
        List.length_eq_zero_iff.1 (Nat.le_zero.1 (Nat.le_of_succ_le_succ counted))
      rw [List.mem_singleton] at firstListed secondListed
      rw [firstListed, secondListed]

end Changer

/-- A call of the changer. -/
inductive MembershipChange where
  | simple (ccs : List ConfChangeSingle)
  | enterJoint (autoLeave : Bool) (ccs : List ConfChangeSingle)
  | leaveJoint

/-- The new configuration and the progress changes of a call. -/
def MembershipChange.run (tracker : ProgressTracker) :
    MembershipChange → Except RaftError (Configuration × MapChange)
  | .simple ccs => Changer.simple tracker ccs
  | .enterJoint autoLeave ccs => Changer.enterJoint tracker autoLeave ccs
  | .leaveJoint => Changer.leaveJoint tracker

/-- The roster that a change leads to. -/
inductive MembershipChange.Leads (roster : Roster) : MembershipChange → Roster → Prop where
  | simple {ccs : List ConfChangeSingle} (settled : roster.outgoing = ∅) :
      Leads roster (.simple ccs) (ccs.foldl Roster.change roster)
  | enterJoint {autoLeave : Bool} {ccs : List ConfChangeSingle} (settled : roster.outgoing = ∅)
      (voted : roster.incoming.Nonempty) :
      Leads roster (.enterJoint autoLeave ccs) (Changer.enteredRoster roster autoLeave ccs voted)
  | leaveJoint : Leads roster .leaveJoint roster.settle

/-- A call of the changer succeeds and its result is installed. -/
inductive ProgressTracker.Reconfigures (tracker : ProgressTracker) : ProgressTracker → Prop where
  | install {cfg : Configuration} {changes : MapChange} (change : MembershipChange) (nextIdx : Nat)
      (done : change.run tracker = .ok (cfg, changes)) :
      Reconfigures tracker (tracker.applyConf cfg changes nextIdx)

/-- The tracker knows no node. -/
def ProgressTracker.Blank (tracker : ProgressTracker) : Prop :=
  tracker.progress = KeyMap.empty ∧ tracker.conf = {}

/-- What the membership protocol permits: one voter at a time, or two voter sets in between. -/
inductive Roster.Step (roster : Roster) : Roster → Prop where
  | simple (settled : roster.outgoing = ∅) (ccs : List ConfChangeSingle)
      (voted : (ccs.foldl change roster).incoming.Nonempty)
      (few : {id | ¬ (id ∈ (ccs.foldl change roster).incoming ↔ id ∈ roster.incoming)}.Subsingleton) :
      Step roster (ccs.foldl change roster)
  | enter (settled : roster.outgoing = ∅) (voted : roster.incoming.Nonempty) (autoLeave : Bool)
      (ccs : List ConfChangeSingle)
      (stays : (Changer.enteredRoster roster autoLeave ccs voted).incoming.Nonempty) :
      Step roster (Changer.enteredRoster roster autoLeave ccs voted)
  | leave (double : roster.outgoing.Nonempty) : Step roster roster.settle

namespace ProgressTracker

variable {tracker tracker' : ProgressTracker} {roster : Roster}

theorem nonempty_voters {config : MajorityConfig} {voters : Set Nat}
    (lists : ∀ id, id ∈ config.voters.elems ↔ id ∈ voters) (voted : ¬ config.isEmpty = true) :
    voters.Nonempty := by
  rw [Changer.isEmpty_voters lists] at voted
  exact Set.nonempty_iff_ne_empty.2 voted

theorem outgoing_settled (represents : tracker.Represents roster)
    (settled : joint tracker.conf = false) :
    roster.outgoing = ∅ := by
  rw [← Set.not_nonempty_iff_eq_empty, ← Changer.joint_iff represents.lists, settled]
  exact Bool.false_ne_true

section Calls

variable {cfg : Configuration} {changes : MapChange}

theorem run_simple (represents : tracker.Represents roster) {ccs : List ConfChangeSingle}
    (done : Changer.simple tracker ccs = .ok (cfg, changes)) :
    ∃ roster', roster.Step roster' ∧ (MembershipChange.simple ccs).Leads roster roster' ∧
      cfg.Lists roster' ∧
      ∀ nextIdx, (tracker.applyConf cfg changes nextIdx).Represents roster' := by
  have settled : joint tracker.conf = false := by
    rw [Bool.eq_false_iff]
    intro double
    simp [Changer.simple, double] at done
  have none := outgoing_settled represents settled
  have after := Changer.represents_foldl (Changer.represents_start represents) ccs
  have base := Changer.foldl_base (tracker.conf, { base := tracker.progress }) ccs
  rw [Changer.simple_eq represents settled] at done
  split_ifs at done with gone many
  obtain ⟨rfl, rfl⟩ := ok_pair_inj done
  refine ⟨_, .simple none ccs (nonempty_voters after.lists.incoming gone) ?_, .simple none, after.lists,
    represents_applyConf after.lists after.tracks base⟩
  have few := Changer.symmetricDifference_subsingleton many
  simp only [after.lists.incoming, represents.lists.incoming] at few
  exact few

theorem run_enterJoint (represents : tracker.Represents roster) {autoLeave : Bool}
    {ccs : List ConfChangeSingle}
    (done : Changer.enterJoint tracker autoLeave ccs = .ok (cfg, changes)) :
    ∃ roster', roster.Step roster' ∧ (MembershipChange.enterJoint autoLeave ccs).Leads roster roster' ∧
      cfg.Lists roster' ∧ ∀ nextIdx, (tracker.applyConf cfg changes nextIdx).Represents roster' := by
  have settled : joint tracker.conf = false := by
    rw [Bool.eq_false_iff]
    intro double
    simp [Changer.enterJoint, double] at done
  have voted : roster.incoming.Nonempty := by
    apply nonempty_voters represents.lists.incoming
    intro empty
    simp [Changer.enterJoint, settled, Changer.checkAndCopy_ok represents, ok_bind, empty] at done
  have none := outgoing_settled represents settled
  have after := Changer.represents_entered represents autoLeave ccs voted
  have base := Changer.foldl_base (Changer.forked tracker) ccs
  rw [Changer.enterJoint_eq represents settled voted] at done
  split_ifs at done with gone
  obtain ⟨rfl, rfl⟩ := ok_pair_inj done
  have stays := nonempty_voters after.lists.incoming gone
  exact ⟨_, .enter none voted autoLeave ccs stays, .enterJoint none voted, after.lists,
    represents_applyConf after.lists after.tracks base⟩

theorem run_leaveJoint (represents : tracker.Represents roster)
    (done : Changer.leaveJoint tracker = .ok (cfg, changes)) :
    ∃ roster', roster.Step roster' ∧ MembershipChange.leaveJoint.Leads roster roster' ∧
      cfg.Lists roster' ∧
      ∀ nextIdx, (tracker.applyConf cfg changes nextIdx).Represents roster' := by
  have double : joint tracker.conf = true := by
    by_contra settled
    simp [Changer.leaveJoint, Bool.eq_false_iff.2 settled] at done
  have after := Changer.represents_settled represents
  rw [Changer.leaveJoint_eq represents double] at done
  obtain ⟨rfl, rfl⟩ := ok_pair_inj done
  exact ⟨_, .leave ((Changer.joint_iff represents.lists).1 double), .leaveJoint, after.lists,
    represents_applyConf after.lists after.tracks (Changer.dropped_base _ _ _)⟩

/-- Every successful call of the changer is a step of the membership protocol to the roster that it
leads to. -/
theorem run_step {change : MembershipChange} (represents : tracker.Represents roster)
    (done : change.run tracker = .ok (cfg, changes)) :
    ∃ roster', roster.Step roster' ∧ change.Leads roster roster' ∧ cfg.Lists roster' ∧
      ∀ nextIdx, (tracker.applyConf cfg changes nextIdx).Represents roster' := by
  cases change with
  | simple ccs => exact run_simple represents done
  | enterJoint autoLeave ccs => exact run_enterJoint represents done
  | leaveJoint => exact run_leaveJoint represents done

end Calls

theorem Reconfigures.step (represents : tracker.Represents roster)
    (changed : tracker.Reconfigures tracker') :
    ∃ roster', roster.Step roster' ∧ tracker'.Represents roster' := by
  cases changed with
  | install change nextIdx done =>
      obtain ⟨roster', step, -, -, after⟩ := run_step represents done
      exact ⟨roster', step, after nextIdx⟩

end ProgressTracker

namespace Roster

variable {roster roster' : Roster}

/-- Every step leaves a voter in the incoming set, provided a joint roster had one. -/
theorem Step.voted (step : roster.Step roster')
    (kept : roster.outgoing.Nonempty → roster.incoming.Nonempty) :
    roster'.incoming.Nonempty := by
  cases step with
  | simple settled ccs voted few => exact voted
  | enter settled voted autoLeave ccs stays => exact stays
  | leave double => exact kept double

theorem voted_of_joint (run : Relation.ReflTransGen Step empty roster)
    (double : roster.outgoing.Nonempty) :
    roster.incoming.Nonempty := by
  induction run with
  | refl => exact absurd rfl double.ne_empty
  | tail run step ih => exact step.voted ih

end Roster

namespace ProgressTracker

variable {start tracker tracker' : ProgressTracker}

/-- A run of the changer from a blank tracker is a run of the membership protocol. -/
theorem represents_run (blank : start.Blank) (run : Relation.ReflTransGen Reconfigures start tracker) :
    ∃ roster, Relation.ReflTransGen Roster.Step Roster.empty roster ∧ tracker.Represents roster := by
  induction run with
  | refl => exact ⟨_, .refl, represents_empty blank.1 blank.2⟩
  | tail run changed ih =>
      obtain ⟨roster, steps, represents⟩ := ih
      obtain ⟨next, step, after⟩ := changed.step represents
      exact ⟨next, steps.tail step, after⟩

/-- The incoming set has a voter after every successful change. -/
theorem voted_run (blank : start.Blank) (run : Relation.TransGen Reconfigures start tracker) :
    tracker.conf.voters.incoming.isEmpty = false := by
  obtain ⟨before, earlier, changed⟩ := Relation.TransGen.tail'_iff.1 run
  obtain ⟨roster, steps, represents⟩ := represents_run blank earlier
  obtain ⟨next, step, after⟩ := changed.step represents
  rw [Bool.eq_false_iff, Ne, Changer.isEmpty_voters after.lists.incoming]
  exact (step.voted (Roster.voted_of_joint steps)).ne_empty

/-- Every tracker that the changer builds from a blank one keeps the progress of exactly its
members, separates learners from voters, stages only outgoing voters and can leave a joint
configuration. -/
theorem reconfigured_invariant (blank : start.Blank)
    (run : Relation.ReflTransGen Reconfigures start tracker) :
    (∀ id, id ∈ tracker.progress.keys ↔ id ∈ tracker.conf.voters.incoming.voters.elems ∨
      id ∈ tracker.conf.voters.outgoing.voters.elems ∨ id ∈ tracker.conf.learners.elems) ∧
    (∀ id ∈ tracker.conf.learners.elems, id ∉ tracker.conf.voters.incoming.voters.elems ∧
      id ∉ tracker.conf.voters.outgoing.voters.elems) ∧
    (∀ id ∈ tracker.conf.learnersNext.elems, id ∈ tracker.conf.voters.outgoing.voters.elems ∧
      id ∉ tracker.conf.voters.incoming.voters.elems) ∧
    (tracker.conf.voters.outgoing.isEmpty = true →
      tracker.conf.learnersNext.isEmpty = true ∧ tracker.conf.autoLeave = false) ∧
    (Relation.TransGen Reconfigures start tracker → tracker.conf.voters.incoming.isEmpty = false) ∧
    (joint tracker.conf = true → ∃ result, Changer.leaveJoint tracker = .ok result) := by
  obtain ⟨roster, -, represents⟩ := represents_run blank run
  have lists := represents.lists
  refine ⟨fun id => ?_, fun id learner => ?_, fun id staged => ?_, fun settled => ?_, voted_run blank,
    fun double => ⟨_, Changer.leaveJoint_eq represents double⟩⟩
  · rw [KeyMap.mem_keys, lists.incoming, lists.outgoing, lists.learners]
    exact represents.tracks id
  · rw [lists.learners] at learner
    rw [lists.incoming, lists.outgoing]
    exact ⟨roster.learners_incoming id learner, roster.learners_outgoing id learner⟩
  · rw [lists.learnersNext] at staged
    rw [lists.incoming, lists.outgoing]
    exact ⟨roster.staged_outgoing staged, roster.staged_incoming id staged⟩
  · have single : roster.outgoing = ∅ := (Changer.isEmpty_voters lists.outgoing).1 settled
    constructor
    · rw [KeySet.isEmpty, List.isEmpty_iff, List.eq_nil_iff_forall_not_mem]
      intro id staged
      have voter := roster.staged_outgoing ((lists.learnersNext id).1 staged)
      rw [single] at voter
      exact voter
    · rw [lists.autoLeave, Bool.eq_false_iff]
      intro auto
      exact (roster.autoLeave_joint auto).ne_empty single

/-- The first voter joins, then a joint change with contradictory entries demotes it; the result can
be left. -/
theorem reconfigured_invariant_demotion :
    ∃ tracker, Relation.ReflTransGen Reconfigures (ProgressTracker.new 256) tracker ∧
      tracker.conf.learnersNext.elems = [1] ∧ tracker.progress.keys = [1, 2] ∧
      ∃ result, Changer.leaveJoint tracker = .ok result := by
  have first : Reconfigures (ProgressTracker.new 256) _ :=
    .install (.simple [⟨.addNode, 1⟩, ⟨.addNode, 0⟩]) 5 rfl
  have run := (Relation.ReflTransGen.single first).tail (.install (.enterJoint true
    [⟨.addNode, 2⟩, ⟨.removeNode, 1⟩, ⟨.removeNode, 1⟩, ⟨.addLearnerNode, 1⟩]) 5 rfl)
  exact ⟨_, run, by decide, by decide, (reconfigured_invariant ⟨rfl, rfl⟩ run).2.2.2.2.2 (by decide)⟩

end ProgressTracker

end RaftRs

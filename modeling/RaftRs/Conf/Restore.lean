import RaftRs.Act.Follow
import RaftRs.Conf.Reconfigure

namespace RaftRs

open Library

namespace Roster

/-- A change of a named node is the operation of its type. -/
theorem change_named (roster : Roster) {kind : ConfChangeType} {id : Nat} (named : id ≠ 0) :
    roster.change ⟨kind, id⟩ = match kind with
      | .addNode => roster.addVoter id named
      | .addLearnerNode => roster.addLearner id named
      | .removeNode => roster.remove id := by
  cases kind <;> exact dif_neg named

theorem addVoters (roster : Roster) (ids : List Nat) (named : ∀ id ∈ ids, id ≠ 0) :
    let final := (ids.map fun id => ConfChangeSingle.mk .addNode id).foldl change roster
    ∀ id, (id ∈ final.incoming ↔ id ∈ roster.incoming ∨ id ∈ ids) ∧
      (id ∈ final.learners ↔ id ∈ roster.learners ∧ id ∉ ids) ∧
        (id ∈ final.staged ↔ id ∈ roster.staged ∧ id ∉ ids) := by
  induction ids generalizing roster with
  | nil => simp
  | cons head rest ih =>
      intro final id
      have tail :=
        ih (roster.change ⟨.addNode, head⟩)
          (fun id inside => named id (List.mem_cons_of_mem head inside)) id
      rw [change_named roster (named head List.mem_cons_self)] at tail
      simp only [addVoter_incoming, addVoter_learners, addVoter_staged, Set.mem_insert_iff,
        Set.mem_sdiff, Set.mem_singleton_iff] at tail
      simp only [final, List.map_cons, List.foldl_cons,
        change_named roster (named head List.mem_cons_self), List.mem_cons]
      grind

theorem removes (roster : Roster) (ids : List Nat) (named : ∀ id ∈ ids, id ≠ 0) :
    let final := (ids.map fun id => ConfChangeSingle.mk .removeNode id).foldl change roster
    ∀ id, (id ∈ final.incoming ↔ id ∈ roster.incoming ∧ id ∉ ids) ∧
      (id ∈ final.learners ↔ id ∈ roster.learners ∧ id ∉ ids) ∧
        (id ∈ final.staged ↔ id ∈ roster.staged ∧ id ∉ ids) := by
  induction ids generalizing roster with
  | nil => simp
  | cons head rest ih =>
      intro final id
      have tail :=
        ih (roster.change ⟨.removeNode, head⟩)
          (fun id inside => named id (List.mem_cons_of_mem head inside)) id
      rw [change_named roster (named head List.mem_cons_self)] at tail
      simp only [remove_incoming, remove_learners, remove_staged, Set.mem_sdiff,
        Set.mem_singleton_iff] at tail
      simp only [final, List.map_cons, List.foldl_cons,
        change_named roster (named head List.mem_cons_self), List.mem_cons]
      grind

theorem addLearners (roster : Roster) (ids : List Nat) (named : ∀ id ∈ ids, id ≠ 0) :
    let final := (ids.map fun id => ConfChangeSingle.mk .addLearnerNode id).foldl change roster
    ∀ id, (id ∈ final.incoming ↔ id ∈ roster.incoming ∧ id ∉ ids) ∧
      (id ∈ final.learners ↔ id ∈ roster.learners ∨ id ∈ ids ∧ id ∉ roster.outgoing) ∧
      (id ∈ final.staged ↔ id ∈ roster.staged ∨ id ∈ ids ∧ id ∈ roster.outgoing) := by
  induction ids generalizing roster with
  | nil => simp
  | cons head rest ih =>
      intro final id
      have tail := ih (roster.change ⟨.addLearnerNode, head⟩)
        (fun id inside => named id (List.mem_cons_of_mem head inside)) id
      rw [change_named roster (named head List.mem_cons_self)] at tail
      simp only [addLearner_incoming, addLearner_learners, addLearner_staged, addLearner_outgoing,
        Set.mem_sdiff, Set.mem_singleton_iff, Set.mem_ofPred_eq] at tail
      simp only [final, List.map_cons, List.foldl_cons,
        change_named roster (named head List.mem_cons_self), List.mem_cons]
      grind

/-- A single change leaves every other node's vote alone. -/
theorem change_incoming (roster : Roster) (cc : ConfChangeSingle) {id : Nat} (other : id ≠ cc.nodeId) :
    id ∈ (roster.change cc).incoming ↔ id ∈ roster.incoming := by
  unfold change
  split
  · exact Iff.rfl
  · split <;> simp [other]

end Roster

namespace Changer

/-- Voter sets that agree on all but one node differ in at most one voter. -/
theorem symmetricDifferenceCount_le {a b : KeySet Nat} (extra : Nat)
    (close : ∀ id, id ≠ extra → (id ∈ a.elems ↔ id ∈ b.elems)) : symmetricDifferenceCount a b ≤ 1 := by
  have only : ∀ id, ¬ (id ∈ a.elems ↔ id ∈ b.elems) → id ∈ [extra] := fun id differs => by
    rw [List.mem_singleton]
    by_contra other
    exact differs (close id other)
  have distinct :
      ((a.elems.filter fun id => !b.contains id) ++ b.elems.filter fun id => !a.contains id).Nodup := by
    refine List.nodup_append.2 ⟨a.nodup.filter _, b.nodup.filter _, ?_⟩
    rintro id inside other inside' rfl
    have absent := (List.mem_filter.1 inside).2
    have present := (List.mem_filter.1 inside').1
    simp [KeySet.contains, present] at absent
  have covered : (a.elems.filter fun id => !b.contains id) ++ b.elems.filter
      (fun id => !a.contains id) ⊆ [extra] := by
    intro id inside
    apply only
    rcases List.mem_append.1 inside with inside | inside
    · obtain ⟨present, absent⟩ := List.mem_filter.1 inside
      have absent : id ∉ b.elems := by simpa [KeySet.contains] using absent
      exact fun same => absent (same.1 present)
    · obtain ⟨present, absent⟩ := List.mem_filter.1 inside
      have absent : id ∉ a.elems := by simpa [KeySet.contains] using absent
      exact fun same => absent (same.2 present)
  have bounded := (List.subperm_of_subset distinct covered).length_le
  rw [List.length_append, ← List.countP_eq_length_filter, ← List.countP_eq_length_filter] at bounded
  exact bounded

variable {tracker : ProgressTracker} {roster : Roster}

theorem applySimple_ok (represents : tracker.Represents roster) (settled : roster.outgoing = ∅)
    (nextIdx : Nat) (cc : ConfChangeSingle) (voted : (roster.change cc).incoming.Nonempty) :
    ∃ tracker', applySimple nextIdx tracker cc = .ok tracker' ∧
      tracker'.Represents (roster.change cc) := by
  have single : joint tracker.conf = false := by
    rw [Bool.eq_false_iff, Ne, joint_iff represents.lists, settled]
    exact Set.not_nonempty_empty
  have after := represents_applyOne (represents_start represents) cc
  have base := applyOne_base (tracker.conf, { base := tracker.progress }) cc
  have some : ¬ (applyOne (tracker.conf, { base := tracker.progress })
      cc).1.voters.incoming.isEmpty = true := by
    rw [isEmpty_voters after.lists.incoming]
    exact voted.ne_empty
  have few : ¬ symmetricDifferenceCount
      (applyOne (tracker.conf, { base := tracker.progress }) cc).1.voters.incoming.voters
      tracker.conf.voters.incoming.voters > 1 := by
    refine Nat.not_lt.2 (symmetricDifferenceCount_le cc.nodeId fun id other => ?_)
    rw [after.lists.incoming, represents.lists.incoming, Roster.change_incoming roster cc other]
  refine ⟨_, ?_, ProgressTracker.represents_applyConf after.lists after.tracks base nextIdx⟩
  have changed := (simple_eq represents single [cc]).trans ((if_neg some).trans (if_neg few))
  unfold applySimple
  rw [changed]
  rfl

/-- A list of single changes succeeds when each of them keeps what makes the next one succeed. -/
theorem applySimple_run {ccs : List ConfChangeSingle} (ready : Roster → Prop) (nextIdx : Nat)
    (keeps : ∀ roster, ready roster → ∀ cc ∈ ccs, ready (roster.change cc) ∧
      (roster.change cc).incoming.Nonempty)
    (represents : tracker.Represents roster) (settled : roster.outgoing = ∅) (start : ready roster) :
    ∃ tracker', ccs.foldlM (applySimple nextIdx) tracker = .ok tracker' ∧
      tracker'.Represents (ccs.foldl Roster.change roster) := by
  induction ccs generalizing tracker roster with
  | nil => exact ⟨tracker, rfl, represents⟩
  | cons cc rest ih =>
      obtain ⟨next, voted⟩ := keeps roster start cc List.mem_cons_self
      obtain ⟨middle, done, between⟩ := applySimple_ok represents settled nextIdx cc voted
      have still : (roster.change cc).outgoing = ∅ := (roster.change_outgoing cc).1.trans settled
      obtain ⟨final, finished, after⟩ :=
        ih (fun roster ready other inside => keeps roster ready other
          (List.mem_cons_of_mem cc inside)) between still next
      refine ⟨final, ?_, after⟩
      rw [List.foldlM_cons, done, ok_bind]
      exact finished

end Changer

/-- The lists of a stored configuration hold the node sets of a roster. -/
structure ConfState.Lists (cs : ConfState) (roster : Roster) : Prop where
  voters : ∀ id, id ∈ cs.voters ↔ id ∈ roster.incoming
  votersOutgoing : ∀ id, id ∈ cs.votersOutgoing ↔ id ∈ roster.outgoing
  learners : ∀ id, id ∈ cs.learners ↔ id ∈ roster.learners
  learnersNext : ∀ id, id ∈ cs.learnersNext ↔ id ∈ roster.staged
  autoLeave : cs.autoLeave = roster.autoLeave

section Restore

variable {tracker : ProgressTracker} {roster : Roster} {cs : ConfState}

/-- The replayed changes of a configuration without outgoing voters build its roster. -/
theorem settledChanges_roster (lists : cs.Lists roster) (settled : roster.outgoing = ∅) :
    ((cs.voters.map fun id => ConfChangeSingle.mk .addNode id) ++
      cs.learners.map fun id => ConfChangeSingle.mk .addLearnerNode id).foldl Roster.change
        Roster.empty = roster := by
  have manual : roster.autoLeave = false := by
    rw [Bool.eq_false_iff]
    intro auto
    exact (roster.autoLeave_joint auto).ne_empty settled
  have unstaged : roster.staged = ∅ := Set.subset_empty_iff.1 (settled ▸ roster.staged_outgoing)
  rw [List.foldl_append]
  have voted := Roster.empty.addVoters cs.voters fun id voter zero =>
    roster.zero_incoming (zero ▸ (lists.voters id).1 voter)
  have kept := (Roster.empty.changes_outgoing (cs.voters.map fun id => ConfChangeSingle.mk .addNode id))
  generalize (cs.voters.map fun id => ConfChangeSingle.mk .addNode id).foldl Roster.change
    Roster.empty = middle at *
  have learned := middle.addLearners cs.learners fun id learner zero =>
    roster.zero_learners (zero ▸ (lists.learners id).1 learner)
  have kept' :=
    middle.changes_outgoing (cs.learners.map fun id => ConfChangeSingle.mk .addLearnerNode id)
  generalize (cs.learners.map fun id => ConfChangeSingle.mk .addLearnerNode id).foldl Roster.change
    middle = final at *
  have apart := roster.learners_incoming
  simp only [Roster.empty, Set.mem_empty_iff_false, false_or, false_and, lists.voters,
    lists.learners] at *
  ext id
  · rw [(learned id).1, (voted id).1]
    grind
  · rw [kept'.1, kept.1, settled]
  · rw [(learned id).2.1, (voted id).2.1, kept.1]
    simp
  · rw [(learned id).2.2, (voted id).2.2, kept.1, unstaged]
    simp
  · rw [kept'.2, kept.2, manual]

/-- The replayed changes of a joint configuration build its node sets on top of its outgoing
voters. -/
theorem jointChanges_sets (lists : cs.Lists roster) {old : Roster}
    (voters : old.incoming = roster.outgoing) (fresh : old.outgoing = ∅) (bare : old.learners = ∅)
    (id : Nat) :
    let final := (toConfChangeSingle cs).2.foldl Roster.change old.fork
    (id ∈ final.incoming ↔ id ∈ roster.incoming) ∧ (id ∈ final.learners ↔ id ∈ roster.learners) ∧
      (id ∈ final.staged ↔ id ∈ roster.staged) := by
  have unstaged : old.staged = ∅ := Set.subset_empty_iff.1 (fresh ▸ old.staged_outgoing)
  have named : ∀ id, id ∈ roster.members → id ≠ 0 := by
    rintro id member rfl
    rcases member with voter | voter | learner
    · exact roster.zero_incoming voter
    · exact roster.zero_outgoing voter
    · exact roster.zero_learners learner
  simp only [toConfChangeSingle, List.foldl_append]
  -- The four loops of the replay, in order; each keeps the outgoing voters.
  have removed := old.fork.removes cs.votersOutgoing (fun id voter =>
    named id (Or.inr (Or.inl ((lists.votersOutgoing id).1 voter)))) id
  have kept :=
    (old.fork.changes_outgoing (cs.votersOutgoing.map fun id => ConfChangeSingle.mk .removeNode id)).1
  generalize (cs.votersOutgoing.map fun id => ConfChangeSingle.mk .removeNode id).foldl
    Roster.change old.fork = first
    at *
  have added :=
    first.addVoters cs.voters (fun id voter => named id (Or.inl ((lists.voters id).1 voter))) id
  have kept₁ := (first.changes_outgoing (cs.voters.map fun id => ConfChangeSingle.mk .addNode id)).1
  generalize (cs.voters.map fun id => ConfChangeSingle.mk .addNode id).foldl Roster.change first =
    second at *
  have learned := second.addLearners cs.learners (fun id learner =>
    named id (Or.inr (Or.inr ((lists.learners id).1 learner)))) id
  have kept₂ :=
    (second.changes_outgoing (cs.learners.map fun id => ConfChangeSingle.mk .addLearnerNode id)).1
  generalize (cs.learners.map fun id => ConfChangeSingle.mk .addLearnerNode id).foldl Roster.change
    second = third
    at *
  have staged := third.addLearners cs.learnersNext (fun id later =>
    named id (roster.staged_members ((lists.learnersNext id).1 later))) id
  generalize (cs.learnersNext.map fun id => ConfChangeSingle.mk .addLearnerNode id).foldl
    Roster.change third = final
    at *
  have apart := roster.learners_incoming id
  have apart' := roster.learners_outgoing id
  have later := roster.staged_incoming id
  have later' := @roster.staged_outgoing id
  rw [Roster.fork_outgoing, fresh, voters, Set.empty_union] at kept
  simp only [lists.voters, lists.learners, lists.learnersNext, lists.votersOutgoing,
    Roster.fork_incoming, Roster.fork_learners, Roster.fork_staged, voters, bare, unstaged,
      Set.mem_empty_iff_false, kept₂, kept₁,
    kept] at removed added learned staged
  grind

/-- The replayed changes of a joint configuration build its roster. -/
theorem jointChanges_roster (lists : cs.Lists roster) {old : Roster}
    (voters : old.incoming = roster.outgoing) (fresh : old.outgoing = ∅) (bare : old.learners = ∅)
    (double : old.incoming.Nonempty) :
    Changer.enteredRoster old cs.autoLeave (toConfChangeSingle cs).2 double = roster := by
  have sets := jointChanges_sets lists voters fresh bare
  have outgoing := (old.fork.changes_outgoing (toConfChangeSingle cs).2).1
  rw [Roster.fork_outgoing, fresh, voters, Set.empty_union] at outgoing
  unfold Changer.enteredRoster
  ext id
  · exact (sets id).1
  · rw [Roster.leaving_outgoing, outgoing]
  · exact (sets id).2.1
  · exact (sets id).2.2
  · exact lists.autoLeave

/-- Voters are added to a settled tracker one by one. -/
theorem applySimple_voters {start : Roster} (represents : tracker.Represents start)
    (settled : start.outgoing = ∅) {ids : List Nat} (named : ∀ id ∈ ids, id ≠ 0) (nextIdx : Nat) :
    ∃ restored, (ids.map fun id => ConfChangeSingle.mk .addNode id).foldlM (applySimple nextIdx)
      tracker = .ok restored ∧
      restored.Represents
        ((ids.map fun id => ConfChangeSingle.mk .addNode id).foldl Roster.change start) := by
  refine Changer.applySimple_run (fun _ => True) nextIdx (fun roster _ cc inside => ⟨trivial, ?_⟩)
    represents settled trivial
  obtain ⟨id, listed, rfl⟩ := List.mem_map.1 inside
  rw [Roster.change_named roster (named id listed)]
  exact ⟨id, Set.mem_insert id _⟩

/-- Learners are added to a settled tracker with voters one by one. -/
theorem applySimple_learners {start : Roster} (represents : tracker.Represents start)
    (settled : start.outgoing = ∅) (ids : List Nat) (named : ∀ id ∈ ids, id ≠ 0)
    (apart : ∀ id ∈ ids, id ∉ start.incoming) (voted : ids ≠ [] → start.incoming.Nonempty)
    (nextIdx : Nat) :
    ∃ restored,
      (ids.map fun id => ConfChangeSingle.mk .addLearnerNode id).foldlM (applySimple nextIdx)
        tracker = .ok restored ∧
      restored.Represents
        ((ids.map fun id => ConfChangeSingle.mk .addLearnerNode id).foldl Roster.change start) := by
  refine Changer.applySimple_run (fun roster => roster.incoming = start.incoming) nextIdx
    (fun roster same cc inside => ?_) represents settled rfl
  obtain ⟨id, listed, rfl⟩ := List.mem_map.1 inside
  have kept : (roster.change ⟨.addLearnerNode, id⟩).incoming = start.incoming := by
    rw [Roster.change_named roster (named id listed)]
    simp only [Roster.addLearner_incoming, same]
    exact Set.sdiff_singleton_eq_self (apart id listed)
  exact ⟨kept, kept ▸ voted (List.ne_nil_of_mem listed)⟩

/-- A configuration without outgoing voters is restored by single changes. -/
theorem restoreConf_settled (blank : tracker.Blank) (lists : cs.Lists roster)
    (settled : roster.outgoing = ∅) (voted : roster.incoming.Nonempty ∨ roster = Roster.empty)
    (nextIdx : Nat) :
    ∃ restored, restoreConf tracker nextIdx cs = .ok restored ∧ restored.Represents roster := by
  have none : cs.votersOutgoing = [] := by
    rw [List.eq_nil_iff_forall_not_mem]
    intro id voter
    rw [lists.votersOutgoing, settled] at voter
    exact voter
  have later : cs.learnersNext = [] := by
    rw [List.eq_nil_iff_forall_not_mem]
    intro id staged
    have voter := roster.staged_outgoing ((lists.learnersNext id).1 staged)
    rw [settled] at voter
    exact voter
  have built := settledChanges_roster lists settled
  rw [List.foldl_append] at built
  have named : ∀ id ∈ cs.voters, id ≠ 0 := fun id voter zero =>
    roster.zero_incoming (zero ▸ (lists.voters id).1 voter)
  obtain ⟨middle, added, between⟩ :=
    applySimple_voters (ProgressTracker.represents_empty blank.1 blank.2) rfl named nextIdx
  have voters := Roster.empty.addVoters cs.voters named
  have kept :=
    (Roster.empty.changes_outgoing (cs.voters.map fun id => ConfChangeSingle.mk .addNode id)).1
  generalize (cs.voters.map fun id => ConfChangeSingle.mk .addNode id).foldl Roster.change
    Roster.empty = start at *
  have incoming : ∀ id, id ∈ start.incoming ↔ id ∈ roster.incoming := fun id => by
    rw [(voters id).1, lists.voters]
    simp [Roster.empty]
  obtain ⟨restored, learned, after⟩ := applySimple_learners between kept cs.learners
    (fun id learner zero => roster.zero_learners (zero ▸ (lists.learners id).1 learner))
    (fun id learner voter => roster.learners_incoming id ((lists.learners id).1 learner)
      ((incoming id).1 voter))
    (fun some => by
      rcases voted with ⟨id, voter⟩ | rfl
      · exact ⟨id, (incoming id).2 voter⟩
      · obtain ⟨id, learner⟩ := List.exists_mem_of_ne_nil cs.learners some
        exact absurd ((lists.learners id).1 learner) (Set.notMem_empty id)) nextIdx
  refine ⟨restored, ?_, built ▸ after⟩
  simp only [restoreConf, toConfChangeSingle, none, later, List.map_nil, List.nil_append,
    List.append_nil, List.foldlM_append, added, ok_bind]
  exact learned

/-- A configuration with outgoing voters is replayed through a joint change. -/
theorem restoreConf_outgoing (tracker : ProgressTracker) (nextIdx : Nat) (cs : ConfState)
    (some : cs.votersOutgoing ≠ []) :
    restoreConf tracker nextIdx cs =
      (cs.votersOutgoing.map fun id => ConfChangeSingle.mk .addNode id).foldlM (applySimple nextIdx)
        tracker >>=
        fun tracker => Changer.enterJoint tracker cs.autoLeave (toConfChangeSingle cs).2 >>=
          fun changed =>
          pure (tracker.applyConf changed.1 changed.2 nextIdx) := by
  have outgoing : (toConfChangeSingle cs).1 = cs.votersOutgoing.map
      fun id => ConfChangeSingle.mk .addNode id := rfl
  unfold restoreConf
  split
  next incoming both =>
    rw [both] at outgoing
    exact absurd (List.map_eq_nil_iff.1 outgoing.symm) some
  next both =>
    rw [both] at outgoing ⊢
    rw [← outgoing]

theorem restoreConf_joint (blank : tracker.Blank) (lists : cs.Lists roster)
    (double : roster.outgoing.Nonempty) (voted : roster.incoming.Nonempty) (nextIdx : Nat) :
    ∃ restored, restoreConf tracker nextIdx cs = .ok restored ∧ restored.Represents roster := by
  have named : ∀ id ∈ cs.votersOutgoing, id ≠ 0 := fun id voter zero =>
    roster.zero_outgoing (zero ▸ (lists.votersOutgoing id).1 voter)
  obtain ⟨middle, added, between⟩ :=
    applySimple_voters (ProgressTracker.represents_empty blank.1 blank.2) rfl named nextIdx
  have voters := Roster.empty.addVoters cs.votersOutgoing named
  have fresh :=
    (Roster.empty.changes_outgoing (cs.votersOutgoing.map fun id => ConfChangeSingle.mk .addNode id)).1
  generalize (cs.votersOutgoing.map fun id => ConfChangeSingle.mk .addNode id).foldl Roster.change
    Roster.empty = start
    at *
  have incoming : start.incoming = roster.outgoing := by
    ext id
    rw [(voters id).1, lists.votersOutgoing]
    simp [Roster.empty]
  have bare : start.learners = ∅ := by
    ext id
    rw [(voters id).2.1]
    simp [Roster.empty]
  have some : start.incoming.Nonempty := incoming ▸ double
  have single : joint middle.conf = false := by
    rw [Bool.eq_false_iff, Ne, Changer.joint_iff between.lists, fresh]
    exact Set.not_nonempty_empty
  have entered := Changer.enterJoint_eq between single some cs.autoLeave (toConfChangeSingle cs).2
  have after := Changer.represents_entered between cs.autoLeave (toConfChangeSingle cs).2 some
  rw [jointChanges_roster lists incoming fresh bare some] at after
  have base := Changer.foldl_base (Changer.forked middle) (toConfChangeSingle cs).2
  refine ⟨_, ?_, ProgressTracker.represents_applyConf after.lists after.tracks base nextIdx⟩
  have present :
      ¬ (((toConfChangeSingle cs).2.foldl Changer.applyOne
        (Changer.forked middle)).1.voters.incoming.isEmpty
      = true) := by
    rw [Changer.isEmpty_voters after.lists.incoming]
    exact voted.ne_empty
  have finished := entered.trans (if_neg present)
  have replayed := restoreConf_outgoing tracker nextIdx cs fun none => by
    obtain ⟨id, voter⟩ := double
    exact List.not_mem_nil (none ▸ (lists.votersOutgoing id).2 voter)
  rw [replayed, added, ok_bind, finished]
  rfl

theorem eqWithoutOrder_of_mem {lhs rhs : List Nat} (same : ∀ id, id ∈ lhs ↔ id ∈ rhs) :
    eqWithoutOrder lhs rhs = true := by
  simp only [eqWithoutOrder, Bool.and_eq_true, List.all_eq_true, List.contains_iff_mem]
  exact ⟨fun id => (same id).1, fun id => (same id).2⟩

theorem confStateEq_of_lists {cs' : ConfState} (lists : cs.Lists roster) (lists' : cs'.Lists roster) :
    confStateEq cs cs' = true := by
  unfold confStateEq
  split
  · rfl
  · rw [eqWithoutOrder_of_mem fun id => (lists.voters id).trans (lists'.voters id).symm,
      eqWithoutOrder_of_mem fun id => (lists.learners id).trans (lists'.learners id).symm,
      eqWithoutOrder_of_mem fun id => (lists.votersOutgoing id).trans (lists'.votersOutgoing id).symm,
      eqWithoutOrder_of_mem fun id => (lists.learnersNext id).trans (lists'.learnersNext id).symm]
    simp [lists.autoLeave, lists'.autoLeave]

theorem toConfState_lists {cfg : Configuration} (lists : cfg.Lists roster) :
    cfg.toConfState.Lists roster :=
  ⟨lists.incoming, lists.outgoing, lists.learners, lists.learnersNext, lists.autoLeave⟩

theorem Roster.voted_or_empty (run : Relation.ReflTransGen Roster.Step Roster.empty roster) :
    roster.incoming.Nonempty ∨ roster = Roster.empty := by
  cases run with
  | refl => exact Or.inr rfl
  | tail run step => exact Or.inl (step.voted (Roster.voted_of_joint run))

theorem restoreConf_ok (blank : tracker.Blank)
    (run : Relation.ReflTransGen Roster.Step Roster.empty roster) (lists : cs.Lists roster)
    (nextIdx : Nat) :
    ∃ restored, restoreConf tracker nextIdx cs = .ok restored ∧ restored.Represents roster := by
  by_cases double : roster.outgoing.Nonempty
  · exact restoreConf_joint blank lists double (Roster.voted_of_joint run double) nextIdx
  · exact restoreConf_settled blank lists (Set.not_nonempty_iff_eq_empty.1 double)
      (Roster.voted_or_empty run) nextIdx

/-- The failure of a restored configuration that differs from the stored one. -/
def Fatal.IsInvalidRestore (failure : Fatal) : Prop := failure = .invalidConfiguration

/-- A node that does not lead installs every listing of a reached roster. -/
theorem restoreConfState_valid (run : Relation.ReflTransGen Roster.Step Roster.empty roster)
    (lists : cs.Lists roster) (r : Raft) (role : r.state ≠ .leader) :
    Meets Fatal.IsInvalidRestore (r.restoreConfState cs) fun _ => True := by
  have blank : r.prs.clear.Blank := ⟨rfl, rfl⟩
  obtain ⟨restored, done, represents⟩ := restoreConf_ok blank run lists r.raftLog.lastIndex
  unfold Raft.restoreConfState
  simp only [done]
  rw [Raft.postConfChange_follower (r := { r with prs := restored }) role]
  simp only [ok_bind]
  have same : confStateEq cs restored.conf.toConfState = true :=
    confStateEq_of_lists lists (toConfState_lists represents.lists)
  rw [same]
  simp only [Bool.not_true, Bool.false_eq_true, if_false]
  split
  · rw [meets_throw]
    exact Fatal.noConfusion
  next pr known =>
    exact (meets_checkedSub Fatal.noConfusion ..).bind fun _ _ =>
      (pr.meets_maybeUpdate Fatal.noConfusion _).bind fun _ _ => trivial

/-- A node accepts the configuration of a snapshot that lists a reached roster. -/
theorem restore_valid (run : Relation.ReflTransGen Roster.Step Roster.empty roster) (r : Raft)
    (snap : Snapshot) (lists : snap.metadata.confState.Lists roster) :
    Meets Fatal.IsInvalidRestore (r.restore snap) fun _ => True := by
  unfold Raft.restore
  simp only
  split_ifs with old role member held
  · exact trivial
  · exact (meets_checkedAdd Fatal.noConfusion ..).bind fun _ _ => trivial
  · exact trivial
  · have committed : Meets Fatal.IsInvalidRestore (r.raftLog.commitTo snap.metadata.index)
        fun _ => True := by
      unfold RaftLog.commitTo
      split_ifs
      · exact trivial
      · exact Fatal.noConfusion
      · exact trivial
    exact committed.bind fun _ _ => trivial
  · have replaced : Meets Fatal.IsInvalidRestore (r.raftLog.restore snap) fun _ => True := by
      unfold RaftLog.restore
      simp only [if_neg old]
      exact trivial
    refine replaced.bind fun raftLog _ => ?_
    have waiting : r.state ≠ .leader := by
      rw [not_not.1 role]
      exact StateRole.noConfusion
    exact (restoreConfState_valid run lists { r with raftLog } waiting).bind fun _ _ => trivial

/-- A node starts from a store whose configuration lists a reached roster. -/
theorem new_valid (run : Relation.ReflTransGen Roster.Step Roster.empty roster) (c : Config)
    (store : MemStorage) (rng : Nat → Nat) (lists : store.raftState.confState.Lists roster) :
    Meets Fatal.IsInvalidRestore (Raft.new c store rng) fun _ => True := by
  have blank : (Raft.blank c store rng).prs.Blank := ⟨rfl, rfl⟩
  obtain ⟨restored, done, represents⟩ :=
    restoreConf_ok blank run lists (Raft.blank c store rng).raftLog.lastIndex
  have same : confStateEq restored.conf.toConfState store.raftState.confState = true :=
    confStateEq_of_lists (toConfState_lists represents.lists) lists
  have loaded : ∀ r : Raft, r.state ≠ .leader → Meets Fatal.IsInvalidRestore
      (if store.raftState.hardState ≠ {} then r.loadState store.raftState.hardState else pure r)
      fun r => r.state ≠ .leader := by
    intro r role
    split
    · unfold Raft.loadState
      split
      · exact Fatal.noConfusion
      · exact role
    · exact role
  have applied : ∀ r : Raft, r.state ≠ .leader → Meets Fatal.IsInvalidRestore
      (if c.applied > 0 then r.commitApplyInternal c.applied true else pure r) fun _ => True := by
    intro r role
    split
    · unfold Raft.commitApplyInternal Raft.autoLeave
      simp [role]
    · exact trivial
  unfold Raft.new
  split
  · exact trivial
  · simp only [done]
    rw [Raft.postConfChange_follower (r := { Raft.blank c store rng with prs := restored })
      StateRole.noConfusion]
    simp only [ok_bind, same, Bool.not_true, Bool.false_eq_true, if_false]
    exact (loaded _ StateRole.noConfusion).bind fun r role => (applied r role).bind fun _ _ => trivial

end Restore

/-- A stored configuration lists the nodes of another one in any order. -/
structure ConfState.Reorders (cs cs' : ConfState) : Prop where
  voters : cs.voters.Perm cs'.voters
  votersOutgoing : cs.votersOutgoing.Perm cs'.votersOutgoing
  learners : cs.learners.Perm cs'.learners
  learnersNext : cs.learnersNext.Perm cs'.learnersNext
  autoLeave : cs.autoLeave = cs'.autoLeave

/-- Two configurations are equal as sets of nodes. -/
structure Configuration.Same (cfg cfg' : Configuration) : Prop where
  incoming : ∀ id, id ∈ cfg.voters.incoming.voters.elems ↔ id ∈ cfg'.voters.incoming.voters.elems
  outgoing : ∀ id, id ∈ cfg.voters.outgoing.voters.elems ↔ id ∈ cfg'.voters.outgoing.voters.elems
  learners : ∀ id, id ∈ cfg.learners.elems ↔ id ∈ cfg'.learners.elems
  learnersNext : ∀ id, id ∈ cfg.learnersNext.elems ↔ id ∈ cfg'.learnersNext.elems
  autoLeave : cfg.autoLeave = cfg'.autoLeave

theorem Configuration.Lists.same {cfg cfg' : Configuration} {roster : Roster} (lists : cfg.Lists roster)
    (lists' : cfg'.Lists roster) : cfg.Same cfg' where
  incoming id := (lists.incoming id).trans (lists'.incoming id).symm
  outgoing id := (lists.outgoing id).trans (lists'.outgoing id).symm
  learners id := (lists.learners id).trans (lists'.learners id).symm
  learnersNext id := (lists.learnersNext id).trans (lists'.learnersNext id).symm
  autoLeave := lists.autoLeave.trans lists'.autoLeave.symm

/-- A reordered listing lists the same roster. -/
theorem ConfState.Reorders.lists {cs cs' : ConfState} {roster : Roster} (reorders : cs.Reorders cs')
    (lists : cs'.Lists roster) : cs.Lists roster where
  voters id := reorders.voters.mem_iff.trans (lists.voters id)
  votersOutgoing id := reorders.votersOutgoing.mem_iff.trans (lists.votersOutgoing id)
  learners id := reorders.learners.mem_iff.trans (lists.learners id)
  learnersNext id := reorders.learnersNext.mem_iff.trans (lists.learnersNext id)
  autoLeave := reorders.autoLeave.trans lists.autoLeave

/-- The stored form of every configuration that the changer reaches restores it, in whichever order
its nodes are listed; no node that starts or takes a snapshot with it finds the restored
configuration invalid. -/
theorem restoreConf_toConfState {start tracker : ProgressTracker} (blank : start.Blank)
    (run : Relation.ReflTransGen ProgressTracker.Reconfigures start tracker) (cs : ConfState)
    (reorders : cs.Reorders tracker.conf.toConfState) (unknown : ProgressTracker) (fresh : unknown.Blank)
    (nextIdx : Nat) :
    (∃ restored, restoreConf unknown nextIdx cs = .ok restored ∧ restored.conf.Same tracker.conf ∧
      (∀ id, id ∈ restored.progress.keys ↔ id ∈ tracker.conf.voters.incoming.voters.elems ∨
        id ∈ tracker.conf.voters.outgoing.voters.elems ∨ id ∈ tracker.conf.learners.elems) ∧
      confStateEq cs restored.conf.toConfState = true ∧
        confStateEq restored.conf.toConfState cs = true) ∧
    (∀ c store rng, store.raftState.confState = cs →
      Raft.new c store rng ≠ .error .invalidConfiguration) ∧
    ∀ (r : Raft) (snap : Snapshot), snap.metadata.confState = cs →
      r.restore snap ≠ .error .invalidConfiguration := by
  obtain ⟨roster, steps, represents⟩ := ProgressTracker.represents_run blank run
  have lists : cs.Lists roster := reorders.lists (toConfState_lists represents.lists)
  obtain ⟨restored, done, after⟩ := restoreConf_ok fresh steps lists nextIdx
  have stored := toConfState_lists after.lists
  refine ⟨⟨restored, done, after.lists.same represents.lists, fun id => ?_,
    confStateEq_of_lists lists stored, confStateEq_of_lists stored lists⟩,
      fun c store rng same failed => ?_, fun r snap same failed => ?_⟩
  · rw [KeyMap.mem_keys, represents.lists.incoming, represents.lists.outgoing, represents.lists.learners]
    exact after.tracks id
  · have valid := new_valid steps c store rng (same ▸ lists)
    rw [failed, meets_error] at valid
    exact valid rfl
  · have valid := restore_valid steps r snap (same ▸ lists)
    rw [failed, meets_error] at valid
    exact valid rfl

/-- A joint configuration with a staged learner, listed backwards. -/
theorem restoreConf_toConfState_joint :
    ∃ tracker : ProgressTracker, tracker.conf.toConfState =
        { voters := [2, 3], votersOutgoing := [1, 2], learners := [4], learnersNext := [1],
          autoLeave := true } ∧
      ∃ restored, restoreConf (ProgressTracker.new 8) 1
        { voters := [3, 2], votersOutgoing := [2, 1], learners := [4], learnersNext := [1],
          autoLeave := true } =
          .ok restored ∧ restored.conf.Same tracker.conf := by
  have first : ProgressTracker.Reconfigures (ProgressTracker.new 256) _ :=
    .install (.simple [⟨.addNode, 1⟩]) 5 rfl
  have run := ((Relation.ReflTransGen.single first).tail (.install (.simple [⟨.addNode, 2⟩]) 5 rfl)).tail
    (.install (.enterJoint true [⟨.addLearnerNode, 1⟩, ⟨.addNode, 3⟩, ⟨.addLearnerNode, 4⟩]) 5 rfl)
  obtain ⟨⟨restored, done, same, -⟩, -⟩ := restoreConf_toConfState ⟨rfl, rfl⟩ run
    { voters := [3, 2], votersOutgoing := [2, 1], learners := [4], learnersNext := [1],
      autoLeave := true }
    ⟨by decide, by decide, by decide, by decide, rfl⟩ (ProgressTracker.new 8) ⟨rfl, rfl⟩ 1
  exact ⟨_, by decide, restored, done, same⟩

end RaftRs

import RaftRs.Library.Fallible
import RaftRs.Conf.Roster

namespace RaftRs

open Library

/-- The lists of a configuration hold the node sets of a roster. -/
structure Configuration.Lists (cfg : Configuration) (roster : Roster) : Prop where
  incoming : ∀ id, id ∈ cfg.voters.incoming.voters.elems ↔ id ∈ roster.incoming
  outgoing : ∀ id, id ∈ cfg.voters.outgoing.voters.elems ↔ id ∈ roster.outgoing
  learners : ∀ id, id ∈ cfg.learners.elems ↔ id ∈ roster.learners
  learnersNext : ∀ id, id ∈ cfg.learnersNext.elems ↔ id ∈ roster.staged
  autoLeave : cfg.autoLeave = roster.autoLeave

/-- Exactly the members of a roster have a progress. -/
def IncrChangeMap.Tracks (prs : IncrChangeMap) (roster : Roster) : Prop :=
  ∀ id, prs.contains id = true ↔ id ∈ roster.members

/-- The changer works on a roster. -/
structure ChangerState.Represents (state : ChangerState) (roster : Roster) : Prop where
  lists : state.1.Lists roster
  tracks : state.2.Tracks roster

/-- The last pushed change decides. -/
theorem IncrChangeMap.contains_push (prs : IncrChangeMap) (id other : Nat) (change : MapChangeType) :
    (prs.push id change).contains other = if other = id then decide (change = .add)
      else prs.contains other := by
  unfold push contains
  simp only [List.reverse_append, List.reverse_cons, List.reverse_nil, List.nil_append,
    List.singleton_append, List.find?_cons]
  by_cases same : other = id
  · subst same
    cases change <;> simp
  · have different : (id == other) = false := by simp [Ne.symm same]
    simp only [different, if_neg same]

namespace Changer

variable {state : ChangerState} {roster : Roster}

theorem represents_makeVoter (represents : ChangerState.Represents state roster) (id : Nat)
    (named : id ≠ 0) :
    ChangerState.Represents (makeVoter state id) (roster.addVoter id named) := by
  obtain ⟨⟨incoming, outgoing, learners, learnersNext, autoLeave⟩, tracks⟩ := represents
  unfold makeVoter
  split
  · rename_i present
    have member := (tracks id).1 present
    refine ⟨⟨?_, outgoing, ?_, ?_, autoLeave⟩, ?_⟩
    · intro other
      simp [withIncoming, incoming, or_comm]
    · intro other
      simp [withIncoming, learners, and_comm]
    · intro other
      simp [withIncoming, learnersNext, and_comm]
    · intro other
      rw [tracks other]
      simp only [Roster.mem_members, Roster.addVoter_incoming, Roster.addVoter_outgoing,
        Roster.addVoter_learners, Set.mem_insert_iff, Set.mem_sdiff, Set.mem_singleton_iff] at member ⊢
      grind
  · rename_i absent
    have stranger : id ∉ roster.members := fun member => absent ((tracks id).2 member)
    have unstaged : id ∉ roster.staged := fun staged => stranger (roster.staged_members staged)
    rw [Roster.mem_members] at stranger
    refine ⟨⟨?_, outgoing, ?_, ?_, autoLeave⟩, ?_⟩
    · intro other
      simp [initProgress, withIncoming, incoming, or_comm]
    · intro other
      simp only [initProgress, withIncoming, Roster.addVoter_learners, Set.mem_sdiff,
        Set.mem_singleton_iff]
      grind
    · intro other
      simp only [initProgress, withIncoming, Roster.addVoter_staged, Set.mem_sdiff,
        Set.mem_singleton_iff]
      grind
    · intro other
      have known := tracks other
      simp only [initProgress, IncrChangeMap.contains_push, Roster.mem_members, Roster.addVoter_incoming,
        Roster.addVoter_outgoing, Roster.addVoter_learners, Set.mem_insert_iff, Set.mem_sdiff,
        Set.mem_singleton_iff] at known ⊢
      grind

theorem lists_dropNode {cfg : Configuration} (lists : cfg.Lists roster) (id : Nat) :
    (dropNode cfg id).Lists (roster.remove id) := by
  refine ⟨?_, lists.outgoing, ?_, ?_, lists.autoLeave⟩
  · intro other
    simp [dropNode, withIncoming, lists.incoming, and_comm]
  · intro other
    simp [dropNode, withIncoming, lists.learners, and_comm]
  · intro other
    simp [dropNode, withIncoming, lists.learnersNext, and_comm]

theorem contains_voters {config : MajorityConfig} {voters : Set Nat}
    (lists : ∀ id, id ∈ config.voters.elems ↔ id ∈ voters) (id : Nat) :
    config.contains id = true ↔ id ∈ voters := by
  rw [← lists id]
  exact KeySet.contains_iff _ _

theorem represents_remove (represents : ChangerState.Represents state roster) (id : Nat) :
    ChangerState.Represents (remove state id) (roster.remove id) := by
  have dropped := lists_dropNode represents.lists id
  have outgoing := contains_voters dropped.outgoing id
  have tracks := represents.tracks
  unfold remove
  split
  · rename_i present
    simp only
    split
    · rename_i voter
      refine ⟨dropped, fun other => ?_⟩
      have staying : id ∈ roster.outgoing := outgoing.1 voter
      rw [tracks other]
      simp only [Roster.mem_members, Roster.remove_incoming, Roster.remove_outgoing,
        Roster.remove_learners, Set.mem_sdiff, Set.mem_singleton_iff]
      grind
    · rename_i gone
      refine ⟨dropped, fun other => ?_⟩
      have absent : id ∉ roster.outgoing := fun voter => gone (outgoing.2 voter)
      have known := tracks other
      simp only [IncrChangeMap.contains_push, Roster.mem_members, Roster.remove_incoming,
        Roster.remove_outgoing, Roster.remove_learners, Set.mem_sdiff, Set.mem_singleton_iff] at known ⊢
      grind
  · rename_i absent
    have stranger : id ∉ roster.members := fun member => absent ((tracks id).2 member)
    have same : roster.remove id = roster := by
      have unstaged : id ∉ roster.staged := fun staged => stranger (roster.staged_members staged)
      rw [Roster.mem_members] at stranger
      ext1
      · exact Set.sdiff_singleton_eq_self fun voter => stranger (Or.inl voter)
      · rfl
      · exact Set.sdiff_singleton_eq_self fun learner => stranger (Or.inr (Or.inr learner))
      · exact Set.sdiff_singleton_eq_self unstaged
      · rfl
    rw [same]
    exact represents

theorem represents_makeLearner (represents : ChangerState.Represents state roster) (id : Nat)
    (named : id ≠ 0) :
    ChangerState.Represents (makeLearner state id) (roster.addLearner id named) := by
  have dropped := lists_dropNode represents.lists id
  have outgoing := contains_voters dropped.outgoing id
  obtain ⟨lists, tracks⟩ := represents
  unfold makeLearner
  split
  · rename_i present
    have member := (tracks id).1 present
    split
    · rename_i learning
      have learner : id ∈ roster.learners := (lists.learners id).1 (by simpa using learning)
      have same : roster.addLearner id named = roster := by
        have silent := roster.learners_outgoing id learner
        have waiting : id ∉ roster.incoming := roster.learners_incoming id learner
        ext1
        · exact Set.sdiff_singleton_eq_self waiting
        · rfl
        · ext other
          simp only [Roster.addLearner_learners, Set.mem_ofPred_eq]
          grind
        · ext other
          simp only [Roster.addLearner_staged, Set.mem_ofPred_eq]
          grind
        · rfl
      rw [same]
      exact ⟨lists, tracks⟩
    · rename_i unlearned
      have fresh : id ∉ roster.learners :=
        fun learner => unlearned (by simpa using (lists.learners id).2 learner)
      simp only
      split
      · rename_i voter
        have staying : id ∈ roster.outgoing := outgoing.1 voter
        refine ⟨⟨dropped.incoming, dropped.outgoing, fun other => ?_, fun other => ?_,
          dropped.autoLeave⟩, fun other => ?_⟩
        · rw [dropped.learners other]
          simp only [Roster.remove_learners, Roster.addLearner_learners, Set.mem_sdiff,
            Set.mem_singleton_iff, Set.mem_ofPred_eq]
          grind
        · simp only [KeySet.mem_insert, dropped.learnersNext other, Roster.remove_staged,
            Roster.addLearner_staged, Set.mem_sdiff, Set.mem_singleton_iff, Set.mem_ofPred_eq]
          grind
        · rw [tracks other]
          simp only [Roster.mem_members, Roster.addLearner_incoming, Roster.addLearner_outgoing,
            Roster.addLearner_learners, Set.mem_sdiff, Set.mem_singleton_iff, Set.mem_ofPred_eq]
          grind
      · rename_i gone
        have absent : id ∉ roster.outgoing := fun voter => gone (outgoing.2 voter)
        have unstaged : id ∉ roster.staged := fun staged => absent (roster.staged_outgoing staged)
        refine ⟨⟨dropped.incoming, dropped.outgoing, fun other => ?_, fun other => ?_,
          dropped.autoLeave⟩, fun other => ?_⟩
        · simp only [KeySet.mem_insert, dropped.learners other, Roster.remove_learners,
            Roster.addLearner_learners, Set.mem_sdiff, Set.mem_singleton_iff, Set.mem_ofPred_eq]
          grind
        · rw [dropped.learnersNext other]
          simp only [Roster.remove_staged, Roster.addLearner_staged, Set.mem_sdiff,
            Set.mem_singleton_iff, Set.mem_ofPred_eq]
          grind
        · rw [tracks other]
          simp only [Roster.mem_members, Roster.addLearner_incoming, Roster.addLearner_outgoing,
            Roster.addLearner_learners, Set.mem_sdiff, Set.mem_singleton_iff,
              Set.mem_ofPred_eq] at member ⊢
          grind
  · rename_i unknown
    have stranger : id ∉ roster.members := fun member => unknown ((tracks id).2 member)
    rw [Roster.mem_members] at stranger
    refine ⟨⟨fun other => ?_, lists.outgoing, fun other => ?_, fun other => ?_, lists.autoLeave⟩,
      fun other => ?_⟩
    · have listed := lists.incoming other
      simp only [initProgress, if_true, Roster.addLearner_incoming, Set.mem_sdiff, Set.mem_singleton_iff]
      grind
    · have listed := lists.learners other
      simp only [initProgress, if_true, KeySet.mem_insert, Roster.addLearner_learners, Set.mem_ofPred_eq]
      grind
    · have listed := lists.learnersNext other
      simp only [initProgress, if_true, Roster.addLearner_staged, Set.mem_ofPred_eq]
      grind
    · have known := tracks other
      simp only [initProgress, IncrChangeMap.contains_push, Roster.mem_members,
        Roster.addLearner_incoming, Roster.addLearner_outgoing, Roster.addLearner_learners,
          Set.mem_sdiff, Set.mem_singleton_iff,
        Set.mem_ofPred_eq] at known ⊢
      grind

theorem represents_applyOne (represents : ChangerState.Represents state roster) (cc : ConfChangeSingle) :
    ChangerState.Represents (applyOne state cc) (roster.change cc) := by
  unfold applyOne Roster.change
  split
  · exact represents
  · rename_i named
    cases kind : cc.changeType with
    | addNode => exact represents_makeVoter represents cc.nodeId named
    | addLearnerNode => exact represents_makeLearner represents cc.nodeId named
    | removeNode => exact represents_remove represents cc.nodeId

/-- A list of changes does to the changer what it does to the roster. -/
theorem represents_foldl (represents : ChangerState.Represents state roster)
    (ccs : List ConfChangeSingle) :
    ChangerState.Represents (ccs.foldl applyOne state) (ccs.foldl Roster.change roster) := by
  induction ccs generalizing state roster with
  | nil => exact represents
  | cons cc rest ih => exact ih (represents_applyOne represents cc)

theorem applyOne_base (state : ChangerState) (cc : ConfChangeSingle) :
    (applyOne state cc).2.base = state.2.base := by
  have voter : (makeVoter state cc.nodeId).2.base = state.2.base := by
    simp only [makeVoter, initProgress, IncrChangeMap.push, apply_ite Prod.snd,
      apply_ite IncrChangeMap.base, ite_self]
  have learner : (makeLearner state cc.nodeId).2.base = state.2.base := by
    simp only [makeLearner, initProgress, IncrChangeMap.push, apply_ite Prod.snd,
      apply_ite IncrChangeMap.base, ite_self]
  have removed : (remove state cc.nodeId).2.base = state.2.base := by
    simp only [remove, IncrChangeMap.push, apply_ite Prod.snd, apply_ite IncrChangeMap.base, ite_self]
  unfold applyOne
  split
  · rfl
  · cases cc.changeType with
    | addNode => exact voter
    | addLearnerNode => exact learner
    | removeNode => exact removed

theorem foldl_base (state : ChangerState) (ccs : List ConfChangeSingle) :
    (ccs.foldl applyOne state).2.base = state.2.base := by
  induction ccs generalizing state with
  | nil => rfl
  | cons cc rest ih => exact (ih (applyOne state cc)).trans (applyOne_base state cc)

theorem forM_ok {check : Nat → Except RaftError Unit} {ids : List Nat}
    (passes : ∀ id ∈ ids, check id = .ok ()) :
    ids.forM check = .ok () := by
  induction ids with
  | nil => rfl
  | cons id rest ih =>
      have head : (id :: rest).forM check = check id >>= fun _ => rest.forM check := rfl
      rw [head, passes id List.mem_cons_self, ok_bind]
      exact ih fun other inside => passes other (List.mem_cons_of_mem id inside)

/-- A voter set is empty exactly when its roster is. -/
theorem isEmpty_voters {config : MajorityConfig} {voters : Set Nat}
    (lists : ∀ id, id ∈ config.voters.elems ↔ id ∈ voters) : config.isEmpty = true ↔ voters = ∅ := by
  rw [Set.eq_empty_iff_forall_notMem]
  simp only [MajorityConfig.isEmpty, KeySet.isEmpty, List.isEmpty_iff, List.eq_nil_iff_forall_not_mem]
  exact forall_congr' fun id => not_congr (lists id)

theorem joint_iff {cfg : Configuration} (lists : cfg.Lists roster) :
    joint cfg = true ↔ roster.outgoing.Nonempty := by
  have empty := isEmpty_voters lists.outgoing
  rw [Set.nonempty_iff_ne_empty, Ne, ← empty]
  simp [joint]

theorem checkInvariants_ok {cfg : Configuration} {prs : IncrChangeMap} (lists : cfg.Lists roster)
    (tracks : prs.Tracks roster) : checkInvariants cfg prs = .ok () := by
  have voters : checkVoters cfg prs = .ok () := by
    have none : (cfg.voters.ids.find? fun id => !prs.contains id) = none := by
      rw [List.find?_eq_none]
      intro id inside
      have voter : id ∈ roster.incoming ∨ id ∈ roster.outgoing := by
        rw [← lists.incoming, ← lists.outgoing]
        rcases List.mem_append.1 inside with voter | voter
        · exact Or.inl voter
        · exact Or.inr (List.mem_filter.1 voter).1
      have member : prs.contains id = true := (tracks id).2 (by rw [Roster.mem_members]; tauto)
      simp [member]
    unfold checkVoters
    rw [none]
  have learners : cfg.learners.elems.forM (checkLearner cfg prs) = .ok () := by
    apply forM_ok
    intro id inside
    have learner : id ∈ roster.learners := (lists.learners id).1 inside
    have member : prs.contains id = true := (tracks id).2 (Or.inr (Or.inr learner))
    have old : cfg.voters.outgoing.contains id = false := by
      rw [Bool.eq_false_iff, Ne, contains_voters lists.outgoing]
      exact roster.learners_outgoing id learner
    have new : cfg.voters.incoming.contains id = false := by
      rw [Bool.eq_false_iff, Ne, contains_voters lists.incoming]
      exact roster.learners_incoming id learner
    simp [checkLearner, member, old, new]
  have staged : cfg.learnersNext.elems.forM (checkLearnerNext cfg prs) = .ok () := by
    apply forM_ok
    intro id inside
    have voter : id ∈ roster.outgoing := roster.staged_outgoing ((lists.learnersNext id).1 inside)
    have member : prs.contains id = true := (tracks id).2 (Or.inr (Or.inl voter))
    have old : cfg.voters.outgoing.contains id = true := (contains_voters lists.outgoing id).2 voter
    simp [checkLearnerNext, member, old]
  unfold checkInvariants
  rw [voters, learners, staged]
  simp only [ok_bind]
  cases double : joint cfg with
  | true => rfl
  | false =>
      have single : ¬ roster.outgoing.Nonempty := fun voters => by
        simp [(joint_iff lists).2 voters] at double
      have unstaged : cfg.learnersNext.isEmpty = true := by
        rw [KeySet.isEmpty, List.isEmpty_iff, List.eq_nil_iff_forall_not_mem]
        exact fun id inside => single ⟨id, roster.staged_outgoing ((lists.learnersNext id).1 inside)⟩
      have manual : cfg.autoLeave = false := by
        rw [lists.autoLeave, Bool.eq_false_iff]
        exact fun auto => single (roster.autoLeave_joint auto)
      simp only [unstaged, manual]
      rfl

end Changer

end RaftRs

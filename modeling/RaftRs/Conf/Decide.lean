import RaftRs.Conf.Quorums

namespace RaftRs

open Library

namespace MajorityConfig

variable {config : MajorityConfig} {check full : Nat → Option Bool}
  {acked acked' : Nat → Option Index} {i : Nat}

theorem majority_le_len (voted : config.isEmpty = false) :
    majority config.voters.len ≤ config.voters.len := by
  have some : config.voters.elems ≠ [] := by simpa [isEmpty, KeySet.isEmpty] using voted
  have positive := List.length_pos_iff.2 some
  unfold majority KeySet.len
  omega

/-- A lost vote is one that no majority of the granting and the missing voters can still win. -/
theorem voteResult_lost :
    config.voteResult check = .lost ↔ ¬ config.Agrees fun voter => check voter ≠ some false := by
  have split : ∀ elems : List Nat, (elems.countP fun voter => check voter == some true) +
      (elems.countP fun voter => check voter == none) = elems.countP
        fun voter => decide (check voter ≠ some false) := by
    intro elems
    induction elems with
    | nil => rfl
    | cons voter rest ih =>
        simp only [List.countP_cons, ← ih]
        rcases check voter with _ | _ | _ <;> simp <;> omega
  have agrees : (config.Agrees fun voter => check voter ≠ some false) ↔ config.isEmpty = true ∨
      majority config.voters.len ≤ config.voters.elems.countP
        fun voter => decide (check voter ≠ some false) := by
    have test : ∀ voter, decide (check voter ≠ some false) = true ↔ check voter ≠ some false :=
      fun _ => decide_eq_true_iff
    refine ⟨fun agreed => Agrees.countP (agreed.mono fun voter _ => (test voter).2), fun counted => ?_⟩
    rcases counted with empty | enough
    · exact Or.inl empty
    · exact (agrees_of_countP enough).mono fun voter _ => (test voter).1
  rw [agrees, ← split]
  unfold voteResult
  by_cases empty : config.isEmpty = true
  · simp [empty]
  · rw [if_neg empty, or_iff_right empty]
    simp only
    split
    · rename_i won
      exact iff_of_false (by decide) (not_not.2 (won.trans (Nat.le_add_right _ _)))
    · split
      · rename_i open'
        exact iff_of_false (by decide) (not_not.2 open')
      · rename_i closed
        exact iff_of_true rfl closed

/-- Past a position below an index only the earlier positions of a descending list reach the
index. -/
theorem countP_le_of_descending {positions : List Index}
    (sorted : positions.Pairwise fun a b => a.index ≥ b.index) {k : Nat}
    (inside : k < positions.length) (below : positions[k].index < i) :
    positions.countP (fun m => decide (i ≤ m.index)) ≤ k := by
  have tail : (positions.drop k).countP (fun m => decide (i ≤ m.index)) = 0 := by
    rw [List.countP_eq_zero]
    intro m member
    obtain ⟨j, bound, rfl⟩ := List.mem_drop_iff_getElem.1 member
    rw [decide_eq_true_iff, Nat.not_le]
    rcases Nat.eq_zero_or_pos j with rfl | later
    · simpa using below
    · exact (List.pairwise_iff_getElem.1 sorted k (k + j) inside (by omega) (by omega)).trans_lt below
  calc positions.countP (fun m => decide (i ≤ m.index))
      = (positions.take k).countP (fun m => decide (i ≤ m.index)) +
          (positions.drop k).countP (fun m => decide (i ≤ m.index)) := by
        rw [← List.countP_append, List.take_append_drop]
    _ ≤ (positions.take k).length := by
        rw [tail]
        exact List.countP_le_length
    _ ≤ k := List.length_take_le _ _

/-- An index is at most the one that a voter set commits exactly when a majority acknowledged it. -/
theorem le_committedIndex (voted : config.isEmpty = false) :
    i ≤ (config.committedIndex false acked).1 ↔
      config.Agrees fun voter => i ≤ ((acked voter).getD {}).index := by
  refine ⟨fun le => (config.quorumIndex_agrees acked).mono fun voter _ reached => le.trans reached,
    fun agreed => ?_⟩
  have length : (config.sortedMatched acked).length = config.voters.len := by
    simp [sortedMatched, KeySet.len]
  have perm : (config.sortedMatched acked).Perm
      (config.voters.elems.map fun voter => (acked voter).getD {}) :=
    List.perm_insertionSort _ _
  have fits := majority_le_len voted
  have inside : majority config.voters.len - 1 < (config.sortedMatched acked).length := by
    unfold majority at *
    omega
  have test : ∀ voter, decide (i ≤ ((acked voter).getD {}).index) = true ↔
      i ≤ ((acked voter).getD {}).index :=
    fun _ => decide_eq_true_iff
  have enough :=
    (Agrees.countP (agreed.mono fun voter _ => (test voter).2)).resolve_left (by simp [voted])
  rw [show (config.committedIndex false acked).1 =
    (config.sortedMatched acked)[majority config.voters.len - 1].index by
    simp only [committedIndex, voted, Bool.false_eq_true, if_false, length]
    rw [List.getD_eq_getElem?_getD, List.getElem?_eq_getElem inside, Option.getD_some]]
  by_contra below
  have few := countP_le_of_descending (config.sortedMatched_descending acked) inside
    (Nat.lt_of_not_le below)
  rw [perm.countP_eq, List.countP_map] at few
  unfold majority at *
  simp only [Function.comp_def] at few
  omega

end MajorityConfig

namespace JointConfig

variable {config : JointConfig} {check : Nat → Option Bool} {acked acked' : Nat → Option Index} {i : Nat}

/-- A vote map on all voters that keeps the votes of a smaller one. -/
def Completes (config : JointConfig) (check full : Nat → Option Bool) : Prop :=
  (∀ id vote, check id = some vote → full id = some vote) ∧ ∀ id, config.contains id = true →
    full id ≠ none

/-- Every missing vote is replaced by one answer. -/
def fill (check : Nat → Option Bool) (missing : Bool) (id : Nat) : Option Bool :=
  some ((check id).getD missing)

theorem completes_fill (config : JointConfig) (check : Nat → Option Bool) (missing : Bool) :
    config.Completes check (fill check missing) :=
  ⟨fun id vote known => by rw [fill, known, Option.getD_some], fun _ _ => Option.some_ne_none _⟩

/-- A filled vote is granted by the granting voters and, if the filling grants, by the missing
ones. -/
theorem fill_eq_true {missing : Bool} {id : Nat} :
    fill check missing id = some true ↔ check id = some true ∨ missing = true ∧ check id = none := by
  unfold fill
  rcases check id with _ | _ | _ <;> simp

/-- A vote is lost exactly when no majorities of the granting and the missing voters can win it. -/
theorem voteResult_lost :
    config.voteResult check = .lost ↔ ¬ config.Agrees fun voter => check voter ≠ some false := by
  have incoming : config.incoming.voteResult check = .lost ↔ _ := MajorityConfig.voteResult_lost
  have outgoing : config.outgoing.voteResult check = .lost ↔ _ := MajorityConfig.voteResult_lost
  unfold Agrees
  rw [not_and_or, ← incoming, ← outgoing]
  unfold voteResult
  cases config.incoming.voteResult check <;> cases config.outgoing.voteResult check <;> simp

/-- A completion keeps a granted vote and wins at most with the missing ones. -/
theorem Completes.won {full : Nat → Option Bool} (completes : config.Completes check full)
    (won : config.voteResult full = .won) : config.Agrees fun voter => check voter ≠ some false := by
  refine (voteResult_won.1 won).mono fun voter granted rejected => ?_
  rw [completes.1 voter false rejected] at granted
  cases granted

theorem won_iff_completions :
    config.voteResult check = .won ↔ ∀ full, config.Completes check full →
      config.voteResult full = .won := by
  constructor
  · intro won full completes
    exact voteResult_won.2
      ((voteResult_won.1 won).mono fun voter granted => completes.1 voter true granted)
  · intro all
    -- The completion that rejects every missing vote has only the votes that are granted already.
    have won := voteResult_won.1 (all _ (config.completes_fill check false))
    refine voteResult_won.2 (won.mono fun voter granted => ?_)
    simpa using fill_eq_true.1 granted

theorem lost_iff_completions :
    config.voteResult check = .lost ↔ ∀ full, config.Completes check full →
      config.voteResult full ≠ .won := by
  rw [voteResult_lost]
  constructor
  · intro hopeless full completes won
    exact hopeless (completes.won won)
  · intro none agreed
    refine none _ (config.completes_fill check true)
      (voteResult_won.2 (agreed.mono fun voter possible => ?_))
    rw [fill_eq_true]
    rcases answer : check voter with _ | _ | _
    · exact Or.inr ⟨rfl, rfl⟩
    · exact absurd answer possible
    · exact Or.inl rfl

/-- The outcome depends on the votes of the voters only. -/
theorem voteResult_congr {other : Nat → Option Bool}
    (same : ∀ id, config.contains id = true → check id = other id) :
    config.voteResult check = config.voteResult other := by
  have half : ∀ half : MajorityConfig, (∀ id ∈ half.voters.elems, check id = other id) →
      half.voteResult check = half.voteResult other := by
    intro half agree
    have yes : (half.voters.elems.countP fun voter => check voter == some true) =
        half.voters.elems.countP fun voter => other voter == some true :=
      List.countP_congr fun id inside => by rw [agree id inside]
    have missing : (half.voters.elems.countP fun voter => check voter == none) =
        half.voters.elems.countP fun voter => other voter == none :=
      List.countP_congr fun id inside => by rw [agree id inside]
    unfold MajorityConfig.voteResult
    rw [yes, missing]
  unfold voteResult
  rw [half config.incoming fun id inside => same
    id (by simp [contains, MajorityConfig.contains, inside]),
      half config.outgoing
        fun id inside => same id (by simp [contains, MajorityConfig.contains, inside])]

/-- The outcome is pending exactly when one completion is won and another one is not. -/
theorem pending_iff_completions : config.voteResult check = .pending ↔
    (∃ full, config.Completes check full ∧ config.voteResult full = .won) ∧
      ∃ full, config.Completes check full ∧ config.voteResult full ≠ .won := by
  have won : config.voteResult check = .won ↔ _ := won_iff_completions
  have lost : config.voteResult check = .lost ↔ _ := lost_iff_completions
  constructor
  · intro undecided
    rw [undecided] at won lost
    have lose := won.not.1 (by decide)
    have win := lost.not.1 (by decide)
    push Not at lose win
    exact ⟨win, lose⟩
  · rintro ⟨⟨full, completes, wins⟩, other, completes', loses⟩
    cases outcome : config.voteResult check with
    | pending => rfl
    | won => exact absurd (won.1 outcome other completes') loses
    | lost => exact absurd wins (lost.1 outcome full completes)

/-- A decided outcome stays when votes are added. -/
theorem voteResult_stable {more : Nat → Option Bool}
    (kept : ∀ id vote, check id = some vote → more id = some vote)
    (decided : config.voteResult check ≠ .pending) :
    config.voteResult more = config.voteResult check := by
  cases outcome : config.voteResult check with
  | pending => exact absurd outcome decided
  | won =>
      exact voteResult_won.2 ((voteResult_won.1 outcome).mono fun id granted => kept id true granted)
  | lost =>
      rw [voteResult_lost] at outcome ⊢
      exact fun agreed => outcome
        (agreed.mono fun id possible rejected => possible (kept id false rejected))

/-- With an incoming voter, an index is at most the committed one exactly when both majorities
acknowledged it. -/
theorem le_committedIndex (voted : config.incoming.isEmpty = false) (word : i ≤ noLimit) :
    i ≤ (config.committedIndex false acked).1 ↔
      config.Agrees fun voter => i ≤ ((acked voter).getD {}).index := by
  unfold committedIndex Agrees
  rw [Nat.le_min, MajorityConfig.le_committedIndex voted]
  refine and_congr_right fun _ => ?_
  cases single : config.outgoing.isEmpty with
  | false => exact MajorityConfig.le_committedIndex single
  | true =>
      -- An empty half commits every index.
      have all : (config.outgoing.committedIndex false acked).1 = noLimit := by
        simp [MajorityConfig.committedIndex, single]
      rw [all]
      exact iff_of_true word (Or.inl single)

theorem committedIndex_mono (more : ∀ id, ((acked id).getD {}).index ≤ ((acked' id).getD {}).index) :
    (config.committedIndex false acked).1 ≤ (config.committedIndex false acked').1 := by
  have half : ∀ half : MajorityConfig, (half.committedIndex false acked).1 ≤
      (half.committedIndex false acked').1 := by
    intro half
    cases empty : half.isEmpty with
    | true => simp [MajorityConfig.committedIndex, empty]
    | false =>
        rw [MajorityConfig.le_committedIndex empty]
        exact (half.quorumIndex_agrees acked).mono fun id _ reached => reached.trans (more id)
  exact min_le_min (half config.incoming) (half config.outgoing)

end JointConfig

namespace ProgressTracker

variable {tracker : ProgressTracker}

/-- Votes are recorded one after the other. -/
def recordVotes (tracker : ProgressTracker) (ballots : List (Nat × Bool)) : ProgressTracker :=
  ballots.foldl (fun tracker ballot => tracker.recordVote ballot.1 ballot.2) tracker

/-- A recorded vote is the first one of its node. -/
theorem get?_recordVote (tracker : ProgressTracker) (id voter : Nat) (vote : Bool) :
    (tracker.recordVote id vote).votes.get? voter =
      (tracker.votes.get? voter).or (if voter = id then some vote else none) := by
  unfold recordVote KeyMap.contains
  cases known : tracker.votes.get? id with
  | some old =>
      rw [Option.isSome_some, if_pos rfl]
      by_cases same : voter = id
      · rw [same, known, Option.some_or]
      · rw [if_neg same, Option.or_none]
  | none =>
      simp only [Option.isSome_none, Bool.false_eq_true, if_false, KeyMap.get?_insert]
      by_cases same : voter = id
      · rw [if_pos same, if_pos same, same, known, Option.none_or]
      · rw [if_neg same, if_neg same, Option.or_none]

/-- After any ballots a node has the vote it had, or else its first ballot. -/
theorem get?_recordVotes (tracker : ProgressTracker) (ballots : List (Nat × Bool)) (voter : Nat) :
    (tracker.recordVotes ballots).votes.get? voter = (tracker.votes.get? voter).or
      (ballots.lookup voter) := by
  induction ballots generalizing tracker with
  | nil => exact (Option.or_none).symm
  | cons ballot rest ih =>
      rw [recordVotes, List.foldl_cons]
      change (recordVotes (tracker.recordVote ballot.1 ballot.2) rest).votes.get? voter = _
      rw [ih, get?_recordVote, Option.or_assoc, List.lookup_cons]
      by_cases same : voter = ballot.1
      · simp [same]
      · simp [same, beq_false_of_ne same]

theorem conf_recordVotes (tracker : ProgressTracker) (ballots : List (Nat × Bool)) :
    (tracker.recordVotes ballots).conf = tracker.conf := by
  induction ballots generalizing tracker with
  | nil => rfl
  | cons ballot rest ih =>
      refine (ih (tracker.recordVote ballot.1 ballot.2)).trans ?_
      unfold recordVote
      split <;> rfl

/-- The outcome of a vote is the exact early decision; the tally is the outcome of the first votes
and stays once it is decided. -/
theorem vote_decides_early (config : JointConfig) (check : Nat → Option Bool) (tracker : ProgressTracker)
    (ballots : List (Nat × Bool)) :
    (config.voteResult check = .won ↔ ∀ full, config.Completes check full →
      config.voteResult full = .won) ∧
      (config.voteResult check = .lost ↔ ∀ full, config.Completes check full →
        config.voteResult full ≠ .won) ∧
      (config.voteResult check = .pending ↔
        (∃ full, config.Completes check full ∧ config.voteResult full = .won) ∧
          ∃ full, config.Completes check full ∧ config.voteResult full ≠ .won) ∧
      (tracker.recordVotes ballots).tallyVotes.2.2 =
        tracker.conf.voters.voteResult (fun id => (tracker.votes.get? id).or (ballots.lookup id)) ∧
      (∀ more : List (Nat × Bool), (tracker.recordVotes ballots).tallyVotes.2.2 ≠ .pending →
        ((tracker.recordVotes ballots).recordVotes more).tallyVotes.2.2 =
          (tracker.recordVotes ballots).tallyVotes.2.2) ∧
      ∀ others : List (Nat × Bool),
        (∀ id, tracker.conf.voters.contains id = true → ballots.lookup id = others.lookup id) →
          (tracker.recordVotes ballots).tallyVotes.2.2 =
            (tracker.recordVotes others).tallyVotes.2.2 := by
  refine ⟨JointConfig.won_iff_completions, JointConfig.lost_iff_completions,
    JointConfig.pending_iff_completions, ?_, fun more decided => ?_, fun others same => ?_⟩
  · simp only [tallyVotes, voteResult, conf_recordVotes, get?_recordVotes]
  · simp only [tallyVotes, voteResult, conf_recordVotes] at decided ⊢
    refine JointConfig.voteResult_stable (fun id vote known => ?_) decided
    rw [get?_recordVotes, known, Option.some_or]
  · simp only [tallyVotes, voteResult, conf_recordVotes]
    refine JointConfig.voteResult_congr fun id voter => ?_
    rw [get?_recordVotes, get?_recordVotes, same id voter]

/-- An index is committed exactly when its acknowledging nodes form a quorum, so quorums of votes
meet every commit. -/
theorem committed_iff_hasQuorum (tracker : ProgressTracker) (acked : Nat → Option Index)
    (voted : tracker.conf.voters.incoming.isEmpty = false) :
    (∀ i ≤ noLimit, ∀ nodes : KeySet Nat,
      (∀ id, tracker.conf.voters.contains id = true →
        (id ∈ nodes.elems ↔ i ≤ ((acked id).getD {}).index)) →
        (i ≤ (tracker.conf.voters.committedIndex false acked).1 ↔ tracker.hasQuorum nodes = true)) ∧
      (∀ acked' : Nat → Option Index, (∀ id, ((acked id).getD {}).index ≤ ((acked' id).getD {}).index) →
        (tracker.conf.voters.committedIndex false acked).1 ≤
          (tracker.conf.voters.committedIndex false acked').1) ∧
      ∀ check : Nat → Option Bool, tracker.conf.voters.voteResult check = .won →
        ∃ id, check id = some true ∧
          ∀ i ≤ (tracker.conf.voters.committedIndex false acked).1, i ≤ ((acked id).getD {}).index := by
  refine ⟨fun i word nodes acks => ?_, fun acked' more => JointConfig.committedIndex_mono more,
    fun check won => ?_⟩
  · rw [JointConfig.le_committedIndex voted word, hasQuorum_iff]
    have incoming : ∀ id ∈ tracker.conf.voters.incoming.voters.elems, id ∈ nodes.elems ↔ _ :=
      fun id inside =>
      acks id (by simp [JointConfig.contains, MajorityConfig.contains, inside])
    have outgoing : ∀ id ∈ tracker.conf.voters.outgoing.voters.elems, id ∈ nodes.elems ↔ _ :=
      fun id inside =>
      acks id (by simp [JointConfig.contains, MajorityConfig.contains, inside])
    constructor
    · rintro ⟨left, right⟩
      exact ⟨left.mono fun id inside => (incoming id inside).2,
        right.mono fun id inside => (outgoing id inside).2⟩
    · rintro ⟨left, right⟩
      exact ⟨left.mono fun id inside => (incoming id inside).1,
        right.mono fun id inside => (outgoing id inside).1⟩
  · have agreed := tracker.conf.voters.committedIndex_agrees false acked
    obtain ⟨id, granted, reached⟩ := (JointConfig.voteResult_won.1 won).intersect (Or.inl voted) agreed
    exact ⟨id, granted, fun i le => le.trans reached⟩

/-- Two of three voters acknowledged the index 4. -/
theorem committed_iff_hasQuorum_three :
    let tracker :=
      (ProgressTracker.new 256).applyConf { voters := { incoming := ⟨KeySet.ofList [1, 2, 3]⟩ } } [] 1
    tracker.conf.voters.incoming.isEmpty = false ∧
      (4 ≤ (tracker.conf.voters.committedIndex false fun id => some { index := id + 2 }).1 ↔
        tracker.hasQuorum (KeySet.ofList [2, 3]) = true) := by
  intro tracker
  have voted : tracker.conf.voters.incoming.isEmpty = false := by decide
  refine ⟨voted, (committed_iff_hasQuorum tracker _ voted).1 4 (by decide) _ fun id voter => ?_⟩
  have cases : id = 1 ∨ id = 2 ∨ id = 3 := by
    simpa [tracker, JointConfig.contains, MajorityConfig.contains, applyConf,
      MajorityConfig.contains] using voter
  rcases cases with rfl | rfl | rfl <;> decide

end ProgressTracker

end RaftRs

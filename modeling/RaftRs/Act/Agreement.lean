import RaftRs.Model.Cluster

namespace RaftRs

open Library

/-- A majority of a voter set satisfies a property. -/
def MajorityConfig.Agrees (config : MajorityConfig) (p : Nat → Prop) : Prop :=
  config.isEmpty = true ∨ ∃ members : List Nat, members.Nodup ∧
    (∀ voter ∈ members, voter ∈ config.voters.elems ∧ p voter) ∧
      majority config.voters.len ≤ members.length

/-- A majority of both voter sets satisfies a property. -/
def JointConfig.Agrees (config : JointConfig) (p : Nat → Prop) : Prop :=
  config.incoming.Agrees p ∧ config.outgoing.Agrees p

namespace MajorityConfig

variable {config : MajorityConfig} {p q : Nat → Prop}

theorem Agrees.mono (agrees : config.Agrees p)
    (implies : ∀ voter ∈ config.voters.elems, p voter → q voter) :
    config.Agrees q := by
  rcases agrees with empty | ⟨members, nodup, all, enough⟩
  · exact Or.inl empty
  · refine Or.inr ⟨members, nodup, fun voter inside => ?_, enough⟩
    exact ⟨(all voter inside).1, implies voter (all voter inside).1 (all voter inside).2⟩

/-- The voters that a test accepts are a majority. -/
theorem agrees_of_countP {test : Nat → Bool}
    (enough : majority config.voters.len ≤ config.voters.elems.countP test) :
    config.Agrees fun voter => test voter = true := by
  refine Or.inr ⟨config.voters.elems.filter test, config.voters.nodup.filter _, ?_, ?_⟩
  · intro voter inside
    exact List.mem_filter.1 inside
  · rw [List.countP_eq_length_filter] at enough
    exact enough

/-- The votes of an agreeing majority are counted. -/
theorem Agrees.countP {test : Nat → Bool} (agrees : config.Agrees fun voter => test voter = true) :
    config.isEmpty = true ∨ majority config.voters.len ≤ config.voters.elems.countP test := by
  rcases agrees with empty | ⟨members, nodup, all, enough⟩
  · exact Or.inl empty
  · right
    rw [List.countP_eq_length_filter]
    apply enough.trans
    apply List.Subperm.length_le
    apply List.subperm_of_subset nodup
    intro voter inside
    exact List.mem_filter.2 (all voter inside)

/-- A won vote has a majority. -/
theorem voteResult_won {check : Nat → Option Bool} :
    config.voteResult check = .won ↔ config.Agrees fun voter => check voter = some true := by
  unfold voteResult
  split
  · rename_i empty
    exact ⟨fun _ => Or.inl empty, fun _ => rfl⟩
  · rename_i nonempty
    have test : ∀ voter, (check voter == some true) = true ↔ check voter = some true :=
      fun voter => by simp
    constructor
    · intro won
      simp only at won
      split at won
      · rename_i enough
        exact (agrees_of_countP enough).mono fun voter _ yes => (test voter).1 yes
      · split at won <;> cases won
    · intro agrees
      have counted := (agrees.mono (q := fun voter => (check voter == some true) = true)
        fun voter _ yes => (test voter).2 yes).countP
      rcases counted with empty | enough
      · exact absurd empty nonempty
      · simp only
        rw [if_pos enough]

/-- A vote without a rejection is not lost. -/
theorem voteResult_ne_lost {check : Nat → Option Bool} (undecided : ∀ voter, check voter ≠ some false) :
    config.voteResult check ≠ .lost := by
  unfold voteResult
  split
  · simp
  · have total : (config.voters.elems.countP fun voter => check voter == some true) +
        (config.voters.elems.countP fun voter => check voter == none) = config.voters.elems.length := by
      have complement : ∀ voter, (check voter == none) =
          decide (¬ (check voter == some true) = true) := by
        intro voter
        have := undecided voter
        cases answer : check voter with
        | none => rfl
        | some vote =>
            cases vote with
            | true => rfl
            | false => exact absurd answer this
      simp only [complement]
      exact (List.length_eq_countP_add_countP _).symm
    simp only [total]
    have half : majority config.voters.len ≤ config.voters.elems.length := by
      unfold majority KeySet.len
      rename_i nonempty
      have : config.voters.elems ≠ [] := by simpa [isEmpty, KeySet.isEmpty] using nonempty
      have := List.length_pos_iff.2 this
      omega
    split
    · simp
    · simp

/-- Two majorities of a nonempty voter set share a voter. -/
theorem Agrees.intersect (nonempty : config.isEmpty = false) (left : config.Agrees p)
    (right : config.Agrees q) :
    ∃ voter, p voter ∧ q voter := by
  rcases left with empty | ⟨members, nodup, all, enough⟩
  · rw [empty] at nonempty
    cases nonempty
  rcases right with empty | ⟨others, nodup', all', enough'⟩
  · rw [empty] at nonempty
    cases nonempty
  by_contra none
  -- Disjoint majorities would need more voters than there are.
  have disjoint : (members ++ others).Nodup := by
    refine List.nodup_append.2 ⟨nodup, nodup', ?_⟩
    rintro a inside b inside' rfl
    exact none ⟨a, (all a inside).2, (all' a inside').2⟩
  have bounded : (members ++ others).length ≤ config.voters.elems.length := by
    apply List.Subperm.length_le
    apply List.subperm_of_subset disjoint
    intro voter inside
    rcases List.mem_append.1 inside with first | second
    · exact (all voter first).1
    · exact (all' voter second).1
  rw [List.length_append] at bounded
  unfold majority KeySet.len at enough enough'
  omega

/-- At least the positions up to an index of a descending list reach its value. -/
theorem le_countP_of_descending {positions : List Index}
    (sorted : positions.Pairwise fun a b => a.index ≥ b.index) {k : Nat}
    (inside : k < positions.length) :
    k + 1 ≤ positions.countP fun m => decide (positions[k].index ≤ m.index) := by
  have reach : ∀ m ∈ positions.take (k + 1), decide (positions[k].index ≤ m.index) = true := by
    intro m member
    obtain ⟨j, bound, rfl⟩ := List.mem_take_iff_getElem.1 member
    rw [decide_eq_true_iff]
    rcases Nat.lt_or_ge j k with before | last
    · exact List.pairwise_iff_getElem.1 sorted j k _ _ before
    · have same : j = k := by omega
      simp [same]
  calc k + 1 = (positions.take (k + 1)).length := by
        rw [List.length_take]
        omega
    _ = (positions.take (k + 1)).countP fun m => decide (positions[k].index ≤ m.index) :=
        (List.countP_eq_length.2 reach).symm
    _ ≤ positions.countP fun m => decide (positions[k].index ≤ m.index) :=
      (List.take_sublist _ _).countP_le

/-- The acknowledged positions are sorted in descending order. -/
theorem sortedMatched_descending (config : MajorityConfig) (acked : Nat → Option Index) :
    (config.sortedMatched acked).Pairwise fun a b => a.index ≥ b.index := by
  have : Std.Total fun a b : Index => a.index ≥ b.index := ⟨fun a b => Nat.le_total b.index a.index⟩
  have : IsTrans Index fun a b => a.index ≥ b.index :=
    ⟨fun a b c first second => Nat.le_trans second first⟩
  exact List.pairwise_insertionSort _ _

/-- The index that a set commits without groups is acknowledged by a majority. -/
theorem quorumIndex_agrees (config : MajorityConfig) (acked : Nat → Option Index) :
    config.Agrees fun voter => (config.committedIndex false acked).1 ≤
      ((acked voter).getD {}).index := by
  by_cases empty : config.isEmpty = true
  · exact Or.inl empty
  have size : config.voters.elems ≠ [] := by simpa [isEmpty, KeySet.isEmpty] using empty
  have positive := List.length_pos_iff.2 size
  have length : (config.sortedMatched acked).length = config.voters.len := by
    simp [sortedMatched, KeySet.len]
  have inside : majority config.voters.len - 1 < (config.sortedMatched acked).length := by
    rw [length]
    unfold majority KeySet.len
    omega
  have simple : (config.committedIndex false acked).1 =
      (config.sortedMatched acked)[majority config.voters.len - 1].index := by
    simp only [committedIndex, empty, Bool.false_eq_true, if_false, length]
    rw [List.getD_eq_getElem?_getD, List.getElem?_eq_getElem inside, Option.getD_some]
  have perm : (config.sortedMatched acked).Perm
      (config.voters.elems.map fun voter => (acked voter).getD {}) :=
    List.perm_insertionSort _ _
  have enough := le_countP_of_descending (config.sortedMatched_descending acked) inside
  rw [← simple, perm.countP_eq, List.countP_map] at enough
  have sum : majority config.voters.len - 1 + 1 = majority config.voters.len := by
    unfold majority
    omega
  rw [sum] at enough
  exact (agrees_of_countP enough).mono fun voter _ accepted => of_decide_eq_true accepted

/-- The group rule never decides above the index of the majority. -/
theorem groupScan_le {quorumCommitIndex group index : Nat} {single single' : Bool}
    {positions : List Index}
    (decided : groupScan quorumCommitIndex positions group single = (some index, single')) :
    index ≤ quorumCommitIndex := by
  induction positions generalizing group single with
  | nil => cases decided
  | cons m rest ih =>
      unfold groupScan at decided
      split at decided
      · exact ih decided
      split at decided
      · exact ih decided
      split at decided
      · exact ih decided
      · obtain ⟨same, -⟩ := Prod.mk.inj decided
        obtain rfl := Option.some.inj same
        exact Nat.min_le_right _ _

/-- The last of descending positions is the smallest. -/
theorem last_le_of_descending {positions : List Index}
    (sorted : positions.Pairwise fun a b => a.index ≥ b.index) (k : Nat) :
    (positions.getLast?.getD {}).index ≤ (positions.getD k {}).index ∨ positions.length ≤ k := by
  by_cases inside : k < positions.length
  · left
    rw [List.getD_eq_getElem?_getD, List.getElem?_eq_getElem inside, List.getLast?_eq_getElem?,
      List.getElem?_eq_getElem (by omega)]
    simp only [Option.getD_some]
    rcases Nat.lt_or_eq_of_le (Nat.le_sub_one_of_lt inside) with before | same
    · exact List.pairwise_iff_getElem.1 sorted k (positions.length - 1) inside (by omega) before
    · simp [same]
  · exact .inr (by omega)

/-- Groups only lower the committed index. -/
theorem committedIndex_le_quorum (config : MajorityConfig) (useGroupCommit : Bool)
    (acked : Nat → Option Index) :
    (config.committedIndex useGroupCommit acked).1 ≤ (config.committedIndex false acked).1 := by
  unfold committedIndex
  split
  · exact le_rfl
  next nonempty =>
    simp only [Bool.false_eq_true, if_false]
    split
    · split
      next decided => exact groupScan_le decided
      next => exact le_rfl
      next =>
        rcases last_le_of_descending (config.sortedMatched_descending acked)
          (majority (config.sortedMatched acked).length - 1) with le | outside
        · exact le
        · have size : config.voters.elems ≠ [] := by simpa [isEmpty, KeySet.isEmpty] using nonempty
          have positive := List.length_pos_iff.2 size
          have length : (config.sortedMatched acked).length = config.voters.elems.length := by
            simp [sortedMatched]
          unfold majority at outside
          omega
    · exact le_rfl

theorem committedIndex_agrees (config : MajorityConfig) (useGroupCommit : Bool)
    (acked : Nat → Option Index) :
    config.Agrees fun voter => (config.committedIndex useGroupCommit acked).1 ≤
      ((acked voter).getD {}).index :=
  (config.quorumIndex_agrees acked).mono fun _ _ reached =>
    (config.committedIndex_le_quorum useGroupCommit acked).trans reached

end MajorityConfig

namespace JointConfig

variable {config : JointConfig} {p q : Nat → Prop}

theorem Agrees.mono (agrees : config.Agrees p) (implies : ∀ voter, p voter → q voter) :
    config.Agrees q :=
  ⟨agrees.1.mono fun voter _ => implies voter, agrees.2.mono fun voter _ => implies voter⟩

/-- A won vote has both majorities. -/
theorem voteResult_won {check : Nat → Option Bool} :
    config.voteResult check = .won ↔ config.Agrees fun voter => check voter = some true := by
  unfold voteResult Agrees
  rw [← MajorityConfig.voteResult_won, ← MajorityConfig.voteResult_won]
  cases config.incoming.voteResult check <;> cases config.outgoing.voteResult check <;> simp

/-- A vote without a rejection is not lost. -/
theorem voteResult_ne_lost {check : Nat → Option Bool} (undecided : ∀ voter, check voter ≠ some false) :
    config.voteResult check ≠ .lost := by
  have left : config.incoming.voteResult check ≠ .lost := MajorityConfig.voteResult_ne_lost undecided
  have right : config.outgoing.voteResult check ≠ .lost := MajorityConfig.voteResult_ne_lost undecided
  unfold voteResult
  cases inc : config.incoming.voteResult check <;> cases out : config.outgoing.voteResult check <;>
    simp_all

/-- The index that both sets commit is acknowledged by both majorities. -/
theorem committedIndex_agrees (config : JointConfig) (useGroupCommit : Bool)
    (acked : Nat → Option Index) :
    config.Agrees fun voter => (config.committedIndex useGroupCommit acked).1 ≤
      ((acked voter).getD {}).index := by
  have left := config.incoming.committedIndex_agrees useGroupCommit acked
  have right := config.outgoing.committedIndex_agrees useGroupCommit acked
  refine ⟨left.mono fun voter _ reached => ?_, right.mono fun voter _ reached => ?_⟩
  · exact (Nat.min_le_left _ _).trans reached
  · exact (Nat.min_le_right _ _).trans reached

/-- Agreeing majorities of a configuration with a voter intersect. -/
theorem Agrees.intersect (nonempty : config.incoming.isEmpty = false ∨ config.outgoing.isEmpty = false)
    (left : config.Agrees p) (right : config.Agrees q) : ∃ voter, p voter ∧ q voter := by
  rcases nonempty with incoming | outgoing
  · exact left.1.intersect incoming right.1
  · exact left.2.intersect outgoing right.2

end JointConfig

end RaftRs

import RaftRs.Conf.Decide

namespace RaftRs

open Library

/-- Two positions from an index on belong to different commit groups. -/
def TwoGroups (positions : List Index) (i : Nat) : Prop :=
  ∃ a ∈ positions, ∃ b ∈ positions, a.groupId ≠ 0 ∧ b.groupId ≠ 0 ∧ a.groupId ≠ b.groupId ∧
    i ≤ a.index ∧ i ≤ b.index

theorem TwoGroups.perm {positions others : List Index} (perm : positions.Perm others) {i : Nat}
    (two : TwoGroups positions i) : TwoGroups others i := by
  obtain ⟨a, inside, b, inside', rest⟩ := two
  exact ⟨a, perm.mem_iff.1 inside, b, perm.mem_iff.1 inside', rest⟩

theorem TwoGroups.mono {positions : List Index} {i j : Nat} (le : i ≤ j) (two : TwoGroups positions j) :
    TwoGroups positions i := by
  obtain ⟨a, inside, b, inside', left, right, different, high, high'⟩ := two
  exact ⟨a, inside, b, inside', left, right, different, le.trans high, le.trans high'⟩

namespace MajorityConfig

/-- The decision about positions that are sorted in descending order. -/
def committedOf (useGroupCommit : Bool) (matched : List Index) : Nat × Bool :=
  let quorumIndex := matched.getD (majority matched.length - 1) {}
  if useGroupCommit then
    match groupScan quorumIndex.index matched quorumIndex.groupId true with
    | (some index, _) => (index, true)
    | (none, true) => (quorumIndex.index, false)
    | (none, false) => ((matched.getLast?.getD {}).index, false)
  else (quorumIndex.index, false)

/-- A nonempty voter set decides about its sorted positions. -/
theorem committedIndex_eq_committedOf {config : MajorityConfig} (voted : config.isEmpty = false)
    (useGroupCommit : Bool) (acked : Nat → Option Index) :
    config.committedIndex useGroupCommit acked = committedOf useGroupCommit
      (config.sortedMatched acked) := by
  unfold committedIndex
  rw [voted]
  rfl

variable {q group : Nat} {single single' : Bool} {positions : List Index}

/-- A scan that stops has met the highest position outside the group that it compares with. -/
theorem groupScan_some {index : Nat} (sorted : positions.Pairwise fun a b => a.index ≥ b.index)
    (stopped : groupScan q positions group single = (some index, single')) :
    ∃ m ∈ positions, ∃ first, m.groupId ≠ 0 ∧ first ≠ 0 ∧ first ≠ m.groupId ∧ index = min m.index q ∧
      (group ≠ 0 → first = group) ∧
      (group = 0 → ∃ x ∈ positions, x.groupId = first ∧ m.index ≤ x.index) ∧
      ∀ y ∈ positions, y.groupId ≠ 0 → y.groupId ≠ first → y.index ≤ m.index := by
  induction positions generalizing group single with
  | nil => cases stopped
  | cons head rest ih =>
      obtain ⟨above, sorted'⟩ := List.pairwise_cons.1 sorted
      unfold groupScan at stopped
      split at stopped
      next ungrouped =>
        obtain ⟨m, inside, first, grouped, some, different, value, same, seen, highest⟩ :=
          ih sorted' stopped
        refine ⟨m, List.mem_cons_of_mem _ inside, first, grouped, some, different, value, same,
          fun zero => ?_, ?_⟩
        · obtain ⟨x, member, found⟩ := seen zero
          exact ⟨x, List.mem_cons_of_mem _ member, found⟩
        · exact List.forall_mem_cons.2 ⟨fun grouped' => absurd ungrouped grouped', highest⟩
      next headGrouped =>
        split at stopped
        next fresh =>
          obtain ⟨m, inside, first, grouped, some, different, value, same, -, highest⟩ :=
            ih sorted' stopped
          have taken : first = head.groupId := same headGrouped
          refine ⟨m, List.mem_cons_of_mem _ inside, first, grouped, some, different, value,
            fun set => absurd fresh set,
              fun _ => ⟨head, List.mem_cons_self, taken.symm, above m inside⟩, ?_⟩
          exact List.forall_mem_cons.2 ⟨fun _ other => absurd taken.symm other, highest⟩
        next set =>
          split at stopped
          next equal =>
            obtain ⟨m, inside, first, grouped, some, different, value, same, -, highest⟩ :=
              ih sorted' stopped
            refine ⟨m, List.mem_cons_of_mem _ inside, first, grouped, some, different, value, same,
              fun zero => absurd zero set, ?_⟩
            exact List.forall_mem_cons.2
              ⟨fun _ other => absurd (equal.symm.trans (same set).symm) other, highest⟩
          next unequal =>
            obtain ⟨found, -⟩ := Prod.mk.inj stopped
            refine ⟨head, List.mem_cons_self, group, headGrouped, set, unequal,
              (Option.some.inj found).symm, fun _ => rfl, fun zero => absurd zero set, ?_⟩
            exact List.forall_mem_cons.2 ⟨fun _ _ => le_rfl, fun y inside _ _ => above y inside⟩

/-- A scan that runs through has met one group at most and notes whether a position has none. -/
theorem groupScan_none (through : groupScan q positions group single = (none, single')) :
    (∃ first, (group ≠ 0 → first = group) ∧ ∀ y ∈ positions, y.groupId ≠ 0 → y.groupId = first) ∧
      (single' = true ↔ single = true ∧ ∀ y ∈ positions, y.groupId ≠ 0) := by
  induction positions generalizing group single with
  | nil =>
      obtain ⟨-, rfl⟩ := Prod.mk.inj through
      exact ⟨⟨group, fun _ => rfl, List.forall_mem_nil _⟩, by simp⟩
  | cons head rest ih =>
      unfold groupScan at through
      split at through
      next ungrouped =>
        obtain ⟨⟨first, same, all⟩, flag⟩ := ih through
        refine ⟨⟨first, same, List.forall_mem_cons.2 ⟨fun grouped => absurd ungrouped grouped, all⟩⟩, ?_⟩
        rw [flag, List.forall_mem_cons]
        simp [ungrouped]
      next headGrouped =>
        split at through
        next fresh =>
          obtain ⟨⟨first, same, all⟩, flag⟩ := ih through
          refine ⟨⟨first, fun set => absurd fresh set,
            List.forall_mem_cons.2 ⟨fun _ => (same headGrouped).symm, all⟩⟩, ?_⟩
          rw [flag, List.forall_mem_cons, and_iff_right headGrouped]
        next set =>
          split at through
          next equal =>
            obtain ⟨⟨first, same, all⟩, flag⟩ := ih through
            refine ⟨⟨first, same,
              List.forall_mem_cons.2 ⟨fun _ => equal.symm.trans (same set).symm, all⟩⟩, ?_⟩
            rw [flag, List.forall_mem_cons, and_iff_right headGrouped]
          next unequal => cases (Prod.mk.inj through).1

theorem quorum_mem (filled : positions ≠ []) :
    positions.getD (majority positions.length - 1) {} ∈ positions := by
  have positive := List.length_pos_iff.2 filled
  have inside : majority positions.length - 1 < positions.length := by
    unfold majority
    omega
  rw [List.getD_eq_getElem?_getD, List.getElem?_eq_getElem inside, Option.getD_some]
  exact List.getElem_mem inside

/-- The last position is one of the positions and the lowest one. -/
theorem last_lowest (sorted : positions.Pairwise fun a b => a.index ≥ b.index)
    (filled : positions ≠ []) :
    positions.getLast?.getD {} ∈ positions ∧ ∀ y ∈ positions, (positions.getLast?.getD {}).index ≤
      y.index := by
  rw [List.getLast?_eq_some_getLast filled, Option.getD_some]
  refine ⟨List.getLast_mem filled, fun y inside => ?_⟩
  obtain ⟨k, bound, rfl⟩ := List.getElem_of_mem inside
  rcases last_le_of_descending sorted k with le | outside
  · rwa [List.getLast?_eq_some_getLast filled, Option.getD_some, List.getD_eq_getElem?_getD,
      List.getElem?_eq_getElem bound, Option.getD_some] at le
  · omega

/-- A scan from the quorum position stops below two groups, and no two groups lie higher than where
it stops. -/
theorem groupScan_two {index : Nat} (sorted : positions.Pairwise fun a b => a.index ≥ b.index)
    (filled : positions ≠ [])
    (stopped : groupScan (positions.getD (majority positions.length - 1) {}).index positions
      (positions.getD (majority positions.length - 1) {}).groupId true = (some index, single')) :
    ∃ top, TwoGroups positions index ∧ (∀ i, TwoGroups positions i → i ≤ top) ∧
      index = min top (positions.getD (majority positions.length - 1) {}).index := by
  obtain ⟨m, inside, first, grouped, set, different, value, same, seen, highest⟩ :=
    groupScan_some sorted stopped
  -- A position of the compared group lies at least as high as the result.
  obtain ⟨x, member, partner, high⟩ : ∃ x ∈ positions, x.groupId = first ∧ index ≤ x.index := by
    by_cases zero : (positions.getD (majority positions.length - 1) {}).groupId = 0
    · obtain ⟨x, member, partner, above⟩ := seen zero
      exact ⟨x, member, partner, value ▸ (Nat.min_le_left _ _).trans above⟩
    · exact ⟨_, quorum_mem filled, (same zero).symm, value ▸ Nat.min_le_right _ _⟩
  refine ⟨m.index, ⟨x, member, m, inside, partner ▸ set, grouped, partner ▸ different, high, ?_⟩,
    ?_, value⟩
  · rw [value]
    exact Nat.min_le_left _ _
  · rintro i ⟨a, insideA, b, insideB, groupA, groupB, unequal, highA, highB⟩
    by_cases outside : a.groupId = first
    · exact highB.trans (highest b insideB groupB fun other => unequal (outside.trans other.symm))
    · exact highA.trans (highest a insideA groupA outside)

/-- With two groups the decision is the lower of the quorum index and the highest index of two
groups. -/
theorem committedOf_two (sorted : positions.Pairwise fun a b => a.index ≥ b.index)
    (two : TwoGroups positions 0) :
    ∃ p, TwoGroups positions p ∧ (∀ i, TwoGroups positions i → i ≤ p) ∧
      committedOf true positions = (min (committedOf false positions).1 p, true) := by
  have filled : positions ≠ [] := by
    obtain ⟨a, inside, -⟩ := two
    exact List.ne_nil_of_mem inside
  unfold committedOf
  simp only [if_true, Bool.false_eq_true, if_false]
  split
  next index flag stopped =>
    obtain ⟨top, reached, bounded, value⟩ := groupScan_two sorted filled stopped
    obtain ⟨p, greatest, highest⟩ : ∃ p, TwoGroups positions p ∧ ∀ i, TwoGroups positions i → i ≤ p := by
      classical
      exact ⟨Nat.findGreatest (TwoGroups positions) top,
        Nat.findGreatest_spec (bounded _ reached) reached,
          fun i two => Nat.le_findGreatest (bounded i two) two⟩
    have above := highest index reached
    have below := bounded p greatest
    refine ⟨p, greatest, highest, Prod.ext ?_ rfl⟩
    simp only
    omega
  all_goals
    rename_i through
    obtain ⟨⟨first, -, all⟩, -⟩ := groupScan_none through
    obtain ⟨a, insideA, b, insideB, groupA, groupB, unequal, -⟩ := two
    exact absurd ((all a insideA groupA).trans (all b insideB groupB).symm) unequal

/-- Without two groups the decision is the quorum index or, when a position has no group, the lowest
index. -/
theorem committedOf_one (sorted : positions.Pairwise fun a b => a.index ≥ b.index)
    (filled : positions ≠ []) (one : ¬ TwoGroups positions 0) :
    ((∀ y ∈ positions, y.groupId ≠ 0) →
      committedOf true positions = ((committedOf false positions).1, false)) ∧
      ((∃ y ∈ positions, y.groupId = 0) →
        committedOf true positions = ((positions.getLast?.getD {}).index, false)) := by
  unfold committedOf
  simp only [if_true, Bool.false_eq_true, if_false]
  split
  next index flag stopped =>
    obtain ⟨top, reached, -⟩ := groupScan_two sorted filled stopped
    exact absurd (reached.mono (Nat.zero_le _)) one
  next through =>
    have all := ((groupScan_none through).2.1 rfl).2
    exact ⟨fun _ => rfl, fun ⟨y, inside, ungrouped⟩ => absurd ungrouped (all y inside)⟩
  next through =>
    have flag := (groupScan_none through).2
    exact ⟨fun all => absurd (flag.2 ⟨rfl, all⟩) Bool.false_ne_true, fun _ => rfl⟩

theorem indexes_eq {others : List Index} (perm : positions.Perm others)
    (sorted : positions.Pairwise fun a b => a.index ≥ b.index)
    (sorted' : others.Pairwise fun a b => a.index ≥ b.index) :
    positions.map Index.index = others.map Index.index := by
  refine (perm.map Index.index).eq_of_pairwise (fun a b _ _ ab ba => Nat.le_antisymm ba ab) ?_ ?_
  · exact List.pairwise_map.2 sorted
  · exact List.pairwise_map.2 sorted'

theorem index_getD (k : Nat) : (positions.getD k {}).index = (positions.map Index.index).getD k 0 := by
  rw [List.getD_eq_getElem?_getD, List.getD_eq_getElem?_getD, List.getElem?_map]
  cases positions[k]? <;> rfl

/-- The decision does not depend on the order of positions with equal indexes. -/
theorem committedOf_perm {others : List Index} (perm : positions.Perm others)
    (sorted : positions.Pairwise fun a b => a.index ≥ b.index)
    (sorted' : others.Pairwise fun a b => a.index ≥ b.index) (filled : positions ≠ [])
    (useGroupCommit : Bool) :
    committedOf useGroupCommit positions = committedOf useGroupCommit others := by
  have indexes := indexes_eq perm sorted sorted'
  have filled' : others ≠ [] := fun empty => filled (List.perm_nil.1 (empty ▸ perm))
  have plain : committedOf false positions = committedOf false others := by
    simp only [committedOf, Bool.false_eq_true, if_false, index_getD, indexes, perm.length_eq]
  cases useGroupCommit with
  | false => exact plain
  | true =>
      by_cases two : TwoGroups positions 0
      · obtain ⟨p, greatest, highest, value⟩ := committedOf_two sorted two
        obtain ⟨p', greatest', highest', value'⟩ := committedOf_two sorted' (two.perm perm)
        have same : p = p' :=
          Nat.le_antisymm (highest' p (greatest.perm perm)) (highest p' (greatest'.perm perm.symm))
        rw [value, value', plain, same]
      · obtain ⟨all, none⟩ := committedOf_one sorted filled two
        obtain ⟨all', none'⟩ := committedOf_one sorted' filled' fun two' => two (two'.perm perm.symm)
        by_cases ungrouped : ∃ y ∈ positions, y.groupId = 0
        · obtain ⟨y, inside, zero⟩ := ungrouped
          rw [none ⟨y, inside, zero⟩, none' ⟨y, perm.mem_iff.1 inside, zero⟩]
          simp only [List.getLast?_eq_getElem?, ← List.getD_eq_getElem?_getD, index_getD, indexes,
            perm.length_eq]
        · push Not at ungrouped
          rw [all ungrouped, all' fun y inside => ungrouped y (perm.mem_iff.2 inside), plain]

variable {config : MajorityConfig} {acked : Nat → Option Index}

/-- The positions of the voters in the order in which they are visited. -/
def ackedPositions (config : MajorityConfig) (acked : Nat → Option Index) : List Index :=
  config.voters.elems.map fun voter => (acked voter).getD {}

/-- Voters that acknowledged an index belong to two different commit groups. -/
def Spans (config : MajorityConfig) (acked : Nat → Option Index) (i : Nat) : Prop :=
  ∃ v ∈ config.voters.elems, ∃ w ∈ config.voters.elems, ((acked v).getD {}).groupId ≠ 0 ∧
    ((acked w).getD {}).groupId ≠ 0 ∧ ((acked v).getD {}).groupId ≠ ((acked w).getD {}).groupId ∧
    i ≤ ((acked v).getD {}).index ∧ i ≤ ((acked w).getD {}).index

theorem sortedMatched_perm (config : MajorityConfig) (acked : Nat → Option Index) :
    (config.sortedMatched acked).Perm (config.ackedPositions acked) :=
  List.perm_insertionSort _ _

theorem mem_sortedMatched {m : Index} :
    m ∈ config.sortedMatched acked ↔ ∃ voter ∈ config.voters.elems, (acked voter).getD {} = m := by
  rw [(config.sortedMatched_perm acked).mem_iff, ackedPositions, List.mem_map]

theorem spans_iff {i : Nat} : config.Spans acked i ↔ TwoGroups (config.sortedMatched acked) i := by
  constructor
  · rintro ⟨v, voter, w, voter', rest⟩
    exact ⟨_, mem_sortedMatched.2 ⟨v, voter, rfl⟩, _, mem_sortedMatched.2 ⟨w, voter', rfl⟩, rest⟩
  · rintro ⟨a, inside, b, inside', rest⟩
    obtain ⟨v, voter, rfl⟩ := mem_sortedMatched.1 inside
    obtain ⟨w, voter', rfl⟩ := mem_sortedMatched.1 inside'
    exact ⟨v, voter, w, voter', rest⟩

theorem isEmpty_eq_false {voter : Nat} (member : voter ∈ config.voters.elems) :
    config.isEmpty = false := by
  rw [Bool.eq_false_iff]
  intro empty
  rw [List.isEmpty_iff.1 empty] at member
  cases member

theorem sortedMatched_ne_nil (voted : config.isEmpty = false) : config.sortedMatched acked ≠ [] := by
  intro empty
  have size := (config.sortedMatched_perm acked).length_eq
  rw [empty, ackedPositions, List.length_map, List.length_nil] at size
  rw [isEmpty, KeySet.isEmpty, List.length_eq_zero_iff.1 size.symm] at voted
  cases voted

/-- Any descending order of the acknowledged positions gives the decision of the voter set. -/
theorem committedIndex_of_order {matched : List Index} (voted : config.isEmpty = false)
    (order : matched.Perm (config.ackedPositions acked))
    (sorted : matched.Pairwise fun a b => a.index ≥ b.index) (useGroupCommit : Bool) :
    committedOf useGroupCommit matched = config.committedIndex useGroupCommit acked := by
  rw [committedIndex_eq_committedOf voted]
  have perm := order.trans (config.sortedMatched_perm acked).symm
  refine committedOf_perm perm sorted (config.sortedMatched_descending acked)
    (fun empty => ?_) useGroupCommit
  have filled : config.sortedMatched acked ≠ [] := sortedMatched_ne_nil voted
  exact filled (List.nil_perm.1 (empty ▸ perm))

/-- The decision depends on the voters and not on the order in which they are visited. -/
theorem committedIndex_order {other : MajorityConfig}
    (same : ∀ id, id ∈ other.voters.elems ↔ id ∈ config.voters.elems) (useGroupCommit : Bool) :
    other.committedIndex useGroupCommit acked = config.committedIndex useGroupCommit acked := by
  have perm : other.voters.elems.Perm config.voters.elems :=
    (List.perm_ext_iff_of_nodup other.voters.nodup config.voters.nodup).2 same
  cases voted : config.isEmpty with
  | true =>
      have empty : config.voters.elems = [] := List.isEmpty_iff.1 voted
      have voted' : other.isEmpty = true := List.isEmpty_iff.2 (List.perm_nil.1 (empty ▸ perm))
      simp only [committedIndex, voted, voted', if_true]
  | false =>
      have voted' : other.isEmpty = false := by
        rw [Bool.eq_false_iff] at voted ⊢
        exact fun empty => voted (List.isEmpty_iff.2 (List.nil_perm.1 (List.isEmpty_iff.1 empty ▸ perm)))
      rw [committedIndex_eq_committedOf voted']
      exact committedIndex_of_order voted ((other.sortedMatched_perm acked).trans (perm.map _))
        (other.sortedMatched_descending acked) useGroupCommit

/-- With two groups among the voters the group rule decides. -/
theorem committedIndex_two (two : config.Spans acked 0) :
    ∃ p, config.Spans acked p ∧ (∀ i, config.Spans acked i → i ≤ p) ∧
      config.committedIndex true acked = (min (config.committedIndex false acked).1 p, true) := by
  obtain ⟨v, voter, -⟩ := id two
  rw [committedIndex_eq_committedOf (isEmpty_eq_false voter),
    committedIndex_eq_committedOf (isEmpty_eq_false voter)]
  simp only [spans_iff] at two ⊢
  exact committedOf_two (config.sortedMatched_descending acked) two

/-- With one group that every voter shares the majority decides. -/
theorem committedIndex_shared (voted : config.isEmpty = false) {shared : Nat} (set : shared ≠ 0)
    (all : ∀ v ∈ config.voters.elems, ((acked v).getD {}).groupId = shared) :
    config.committedIndex true acked = ((config.committedIndex false acked).1, false) := by
  rw [committedIndex_eq_committedOf voted, committedIndex_eq_committedOf voted]
  have groups : ∀ m ∈ config.sortedMatched acked, m.groupId = shared := by
    intro m inside
    obtain ⟨v, voter, rfl⟩ := mem_sortedMatched.1 inside
    exact all v voter
  refine (committedOf_one (config.sortedMatched_descending acked) (sortedMatched_ne_nil voted) ?_).1
    fun m inside => groups m inside ▸ set
  rintro ⟨a, inside, b, inside', -, -, unequal, -⟩
  exact unequal ((groups a inside).trans (groups b inside').symm)

/-- Without two groups a voter outside of all groups holds the decision at the lowest
acknowledgement. -/
theorem committedIndex_ungrouped (one : ¬ config.Spans acked 0)
    (ungrouped : ∃ v ∈ config.voters.elems, ((acked v).getD {}).groupId = 0) :
    ∃ v ∈ config.voters.elems,
      (∀ w ∈ config.voters.elems, ((acked v).getD {}).index ≤ ((acked w).getD {}).index) ∧
      config.committedIndex true acked = (((acked v).getD {}).index, false) := by
  obtain ⟨u, voter, zero⟩ := ungrouped
  have voted := isEmpty_eq_false voter
  have sorted := config.sortedMatched_descending acked
  have filled : config.sortedMatched acked ≠ [] := sortedMatched_ne_nil voted
  obtain ⟨inside, lowest⟩ := last_lowest sorted filled
  obtain ⟨v, voter', last⟩ := mem_sortedMatched.1 inside
  refine ⟨v, voter', fun w voter'' => ?_, ?_⟩
  · rw [last]
    exact lowest _ (mem_sortedMatched.2 ⟨w, voter'', rfl⟩)
  · rw [committedIndex_eq_committedOf voted, last]
    exact (committedOf_one sorted filled fun two => one (spans_iff.2 two)).2
      ⟨_, mem_sortedMatched.2 ⟨u, voter, rfl⟩, zero⟩

end MajorityConfig

/-- The exact meaning of group commit for a voter set and for a joint configuration. -/
theorem groupCommit_meaning (config : MajorityConfig) (joint : JointConfig)
    (acked : Nat → Option Index) :
    (config.isEmpty = false → ∀ i, i ≤ (config.committedIndex false acked).1 ↔
        config.Agrees fun voter => i ≤ ((acked voter).getD {}).index) ∧
      (config.Spans acked 0 → ∃ p, config.Spans acked p ∧ (∀ i, config.Spans acked i → i ≤ p) ∧
        config.committedIndex true acked = (min (config.committedIndex false acked).1 p, true)) ∧
      (∀ shared ≠ 0, config.isEmpty = false →
        (∀ v ∈ config.voters.elems, ((acked v).getD {}).groupId = shared) →
        config.committedIndex true acked = ((config.committedIndex false acked).1, false)) ∧
      (¬ config.Spans acked 0 → (∃ v ∈ config.voters.elems, ((acked v).getD {}).groupId = 0) →
        ∃ v ∈ config.voters.elems,
          (∀ w ∈ config.voters.elems, ((acked v).getD {}).index ≤ ((acked w).getD {}).index) ∧
            config.committedIndex true acked = (((acked v).getD {}).index, false)) ∧
      (config.isEmpty = true → config.committedIndex true acked = (noLimit, true)) ∧
      (joint.committedIndex true acked =
        (min (joint.incoming.committedIndex true acked).1 (joint.outgoing.committedIndex true acked).1,
          (joint.incoming.committedIndex true acked).2 &&
            (joint.outgoing.committedIndex true acked).2)) ∧
      (config.committedIndex true acked).1 ≤ (config.committedIndex false acked).1 ∧
      (joint.committedIndex true acked).1 ≤ (joint.committedIndex false acked).1 ∧
      (∀ other : MajorityConfig, (∀ id, id ∈ other.voters.elems ↔ id ∈ config.voters.elems) →
        other.committedIndex true acked = config.committedIndex true acked) ∧
      (config.isEmpty = false → ∀ matched : List Index, matched.Perm (config.ackedPositions acked) →
        (matched.Pairwise fun a b => a.index ≥ b.index) →
          MajorityConfig.committedOf true matched = config.committedIndex true acked) := by
  refine ⟨fun voted i => MajorityConfig.le_committedIndex voted, MajorityConfig.committedIndex_two,
    fun shared set voted all => MajorityConfig.committedIndex_shared voted set all,
    MajorityConfig.committedIndex_ungrouped, fun empty => ?_, rfl,
      config.committedIndex_le_quorum true acked, ?_,
    fun other same => MajorityConfig.committedIndex_order same true,
    fun voted matched order sorted => MajorityConfig.committedIndex_of_order voted order sorted true⟩
  · simp only [MajorityConfig.committedIndex, empty, if_true]
  · exact min_le_min (joint.incoming.committedIndex_le_quorum true acked)
      (joint.outgoing.committedIndex_le_quorum true acked)

end RaftRs

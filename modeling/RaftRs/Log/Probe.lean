import RaftRs.Log.Shows

namespace RaftRs

open Library

/-- The term at an index of a whole log. -/
def termAt (full : List Entry) (i : Nat) : Nat := Library.lastTerm (full.take i)

/-- The terms of a whole log are positive and never fall. -/
structure Ordered (full : List Entry) : Prop where
  positive : ∀ e ∈ full, e.term ≠ 0
  rising : full.Pairwise fun e f => e.term ≤ f.term

/-- Two whole logs have the same term at an index. -/
def Common (leader follower : List Entry) (i : Nat) : Prop :=
  i ≤ leader.length ∧ i ≤ follower.length ∧ termAt leader i = termAt follower i

/-- Two whole logs agree up to every index at which they have the same term. -/
def Matching (leader follower : List Entry) : Prop :=
  ∀ i, Common leader follower i → leader.take i = follower.take i

variable {full leader follower : List Entry}

theorem termAt_succ {i : Nat} (inside : i < full.length) : termAt full (i + 1) = full[i].term :=
  lastTerm_of_getElem? (List.getElem?_eq_getElem inside)

theorem common_of_take {i : Nat} (inLeader : i ≤ leader.length) (inFollower : i ≤ follower.length)
    (same : leader.take i = follower.take i) : Common leader follower i :=
  ⟨inLeader, inFollower, congrArg Library.lastTerm same⟩

theorem Ordered.mono (ordered : Ordered full) {i j : Nat} (le : i ≤ j) (inside : j ≤ full.length) :
    termAt full i ≤ termAt full j := by
  cases i with
  | zero => exact Nat.zero_le _
  | succ i =>
      obtain ⟨j, rfl⟩ : ∃ k, j = k + 1 := ⟨j - 1, by omega⟩
      rw [termAt_succ (by omega), termAt_succ (by omega)]
      rcases Nat.lt_or_ge i j with less | more
      · exact List.pairwise_iff_getElem.1 ordered.rising i j (by omega) (by omega) less
      · obtain rfl : i = j := by omega
        exact le_rfl

theorem Ordered.eq_zero (ordered : Ordered full) {i : Nat} (inside : i ≤ full.length)
    (zero : termAt full i = 0) :
    i = 0 := by
  cases i with
  | zero => rfl
  | succ i =>
      rw [termAt_succ (by omega)] at zero
      exact absurd zero (ordered.positive _ (List.getElem_mem _))

namespace RaftLog

variable {log : RaftLog} {term idx : Nat}

/-- The descent passes larger terms only and stops at a term that is not larger or not known. -/
theorem conflictDescent_ok {n : Nat} {found : Option Nat}
    (done : log.conflictDescent term idx = .ok (n, found)) :
    n ≤ idx ∧ (∀ k, n < k → k ≤ idx → ∃ t, log.term k = .ok t ∧ term < t) ∧
      (∀ t, found = some t → log.term n = .ok t ∧ t ≤ term) ∧
        (found = none → ∃ e, log.term n = .error e) := by
  induction idx with
  | zero =>
      unfold conflictDescent at done
      split at done
      next t known =>
        split at done
        · cases done
        next bounded =>
          obtain ⟨rfl, rfl⟩ := ok_pair_inj done
          refine ⟨le_rfl, fun k _ _ => by omega, ?_, nofun⟩
          rintro _ ⟨⟩
          exact ⟨known, not_lt.1 bounded⟩
      next e unknown =>
        obtain ⟨rfl, rfl⟩ := ok_pair_inj done
        exact ⟨le_rfl, fun k _ _ => by omega, nofun, fun _ => ⟨e, unknown⟩⟩
  | succ idx ih =>
      unfold conflictDescent at done
      split at done
      next t known =>
        split at done
        next larger =>
          obtain ⟨below, passed, rest⟩ := ih done
          refine ⟨by omega, fun k above inside => ?_, rest⟩
          rcases Nat.lt_or_ge idx k with last | earlier
          · obtain rfl : k = idx + 1 := by omega
            exact ⟨t, known, larger⟩
          · exact passed k above earlier
        next bounded =>
          obtain ⟨rfl, rfl⟩ := ok_pair_inj done
          refine ⟨le_rfl, fun k _ _ => by omega, ?_, nofun⟩
          rintro _ ⟨⟩
          exact ⟨known, not_lt.1 bounded⟩
      next e unknown =>
        obtain ⟨rfl, rfl⟩ := ok_pair_inj done
        exact ⟨le_rfl, fun k _ _ => by omega, nofun, fun _ => ⟨e, unknown⟩⟩

theorem conflictDescent_total (start : ∀ t, log.term 0 = .ok t → t = 0) (term idx : Nat) :
    ∃ x, log.conflictDescent term idx = .ok x := by
  induction idx with
  | zero =>
      unfold conflictDescent
      split
      next t known =>
        rw [start t known, if_neg (Nat.not_lt_zero term)]
        exact ⟨_, rfl⟩
      next => exact ⟨_, rfl⟩
  | succ idx ih =>
      unfold conflictDescent
      split
      · split
        · exact ih
        · exact ⟨_, rfl⟩
      · exact ⟨_, rfl⟩

theorem Shows.term_zero (view : log.Shows full) {t : Nat} (known : log.term 0 = .ok t) : t = 0 := by
  rcases Nat.lt_or_ge 1 log.firstIndex with compacted | whole
  · rw [term_outside (Or.inl (by omega))] at known
    exact (Except.ok.inj known).symm
  · have positive := view.wf.first_pos
    exact (view.term known (by omega) (Nat.zero_le _)).symm

/-- A term that is larger than another one is that of the whole log. -/
theorem Shows.term_of_lt (view : log.Shows full) {i t : Nat} (known : log.term i = .ok t)
    (positive : 0 < t) :
    i ≤ full.length ∧ termAt full i = t := by
  have inside : ¬ (i + 1 < log.firstIndex ∨ log.lastIndex < i) := by
    intro outside
    rw [term_outside outside] at known
    cases known
    omega
  push Not at inside
  exact ⟨by rw [view.length]; exact inside.2, view.term known inside.1 inside.2⟩

/-- The term of an index from the commit index on is known when that of the commit index is. -/
theorem Shows.known (view : log.Shows full) (anchored : ∃ t, log.term log.committed = .ok t) {i : Nat}
    (low : log.committed ≤ i) (high : i ≤ log.lastIndex) : log.term i = .ok (termAt full i) := by
  have first := view.wf.low
  suffices readable : ∃ t, log.term i = .ok t by
    obtain ⟨t, known⟩ := readable
    rw [known, ← view.term known (by omega) high]
    rfl
  rcases Nat.lt_or_ge i log.firstIndex with boundary | retained
  · obtain rfl : i = log.committed := by omega
    exact anchored
  · obtain ⟨entry, present⟩ := view.wf.exists_entry retained high
    exact ⟨_, view.wf.term_of_entryAt present⟩

/-- The follower finds its last index up to the probe whose term is not above that of the probe. -/
theorem Shows.hint {log : RaftLog} (view : log.Shows follower)
    (anchored : ∃ t, log.term log.committed = .ok t) (rising : Ordered leader)
    (agreed : leader.take log.committed = follower.take log.committed) {i : Nat}
    (low : log.committed ≤ i) (high : i ≤ leader.length) :
    ∃ n, log.findConflictByTerm (min i log.lastIndex) (termAt leader i) =
      .ok (n, some (termAt follower n)) ∧ n ≤ min i log.lastIndex ∧
      ∀ k, n < k → k ≤ min i log.lastIndex → termAt leader i < termAt follower k := by
  have committed := view.wf.high
  obtain ⟨⟨n, found⟩, done⟩ :=
    log.conflictDescent_total (fun _ => view.term_zero) (termAt leader i) (min i log.lastIndex)
  obtain ⟨below, passed, stops, lost⟩ := conflictDescent_ok done
  have last : min i log.lastIndex ≤ log.lastIndex := min_le_right _ _
  have atCommit : termAt follower log.committed ≤ termAt leader i := by
    calc termAt follower log.committed = termAt leader log.committed :=
      congrArg Library.lastTerm agreed.symm
      _ ≤ termAt leader i := rising.mono low high
  -- The committed prefix is common, so the descent stops at the commit index at the latest.
  have above : log.committed ≤ n := by
    by_contra passes
    obtain ⟨t, known, larger⟩ := passed log.committed (by omega) (by omega)
    rw [view.known anchored le_rfl committed] at known
    cases known
    omega
  have known := view.known anchored above (below.trans last)
  refine ⟨n, ?_, below, fun k more inside => ?_⟩
  · unfold findConflictByTerm
    rw [if_neg (by omega), done]
    cases found with
    | none =>
        obtain ⟨e, unknown⟩ := lost rfl
        cases known.symm.trans unknown
    | some t =>
        obtain ⟨read, -⟩ := stops t rfl
        rw [Except.ok.inj (known.symm.trans read)]
  · obtain ⟨t, read, larger⟩ := passed k more inside
    rw [view.known anchored (by omega) (inside.trans last)] at read
    cases read
    exact larger

/-- The leader descends to no index below a common one. -/
theorem Shows.probe {log : RaftLog} (view : log.Shows leader) (rising : Ordered follower) {hint : Nat}
    (inLeader : hint ≤ leader.length) (inFollower : hint ≤ follower.length) :
    ∃ n found, log.findConflictByTerm hint (termAt follower hint) = .ok (n, found) ∧ n ≤ hint ∧
      ∀ j, Common leader follower j → j ≤ hint → j ≤ n := by
  obtain ⟨⟨n, found⟩, done⟩ :=
    log.conflictDescent_total (fun _ => view.term_zero) (termAt follower hint) hint
  obtain ⟨below, passed, -⟩ := conflictDescent_ok done
  refine ⟨n, found, ?_, below, fun j common inside => ?_⟩
  · unfold findConflictByTerm
    rw [if_neg (by rw [← view.length]; omega), done]
  · by_contra passes
    obtain ⟨t, known, larger⟩ := passed j (by omega) inside
    obtain ⟨-, term⟩ := view.term_of_lt known (by omega)
    have := rising.mono inside inFollower
    have same := common.2.2
    omega

/-- The follower accepts a probe exactly at a common index. -/
theorem Shows.matchTerm_common {log : RaftLog} (view : log.Shows follower)
    (anchored : ∃ t, log.term log.committed = .ok t) (rising : Ordered leader) {i : Nat}
    (low : log.committed ≤ i) (high : i ≤ leader.length) :
    log.matchTerm i (termAt leader i) = true ↔ Common leader follower i := by
  unfold RaftLog.matchTerm Common
  rcases Nat.lt_or_ge log.lastIndex i with beyond | inside
  · rw [term_outside (Or.inr beyond), view.length]
    simp only [beq_iff_eq]
    constructor
    · intro zero
      have := rising.eq_zero high zero.symm
      omega
    · intro common
      omega
  · rw [view.known anchored low inside, view.length]
    simp only [beq_iff_eq]
    exact ⟨fun same => ⟨high, inside, same.symm⟩, fun common => common.2.2.symm⟩

/-- The two logs of a leader and a follower. -/
structure Paired (log peer : RaftLog) (leader follower : List Entry) : Prop where
  leads : log.Shows leader
  follows : peer.Shows follower
  leaderTerms : Ordered leader
  followerTerms : Ordered follower
  anchored : ∃ t, peer.term peer.committed = .ok t
  agreed : leader.take peer.committed = follower.take peer.committed
  committed : peer.committed ≤ leader.length

variable {peer : RaftLog} {i : Nat}

/-- A search of both sides ends at or above every common index below the probe. -/
theorem Paired.search (paired : Paired log peer leader follower) (low : peer.committed ≤ i)
    (high : i ≤ leader.length) :
    ∃ hint n found, peer.findConflictByTerm (min i peer.lastIndex) (termAt leader i) =
        .ok (hint, some (termAt follower hint)) ∧
      (if termAt follower hint > 0 then log.findConflictByTerm hint (termAt follower hint)
        else (pure (hint, none) : Except Fatal (Nat × Option Nat))) = .ok (n, found) ∧ n ≤ i ∧
      ∀ j, Common leader follower j → j ≤ i → j ≤ n := by
  obtain ⟨hint, searched, below, passed⟩ :=
    paired.follows.hint paired.anchored paired.leaderTerms paired.agreed low high
  have inFollower : hint ≤ follower.length := by
    rw [paired.follows.length]
    omega
  -- A common index has no larger term than the probe, so the follower does not pass it.
  have kept : ∀ j, Common leader follower j → j ≤ i → j ≤ hint := by
    intro j common inside
    by_contra passes
    have last := common.2.1
    rw [paired.follows.length] at last
    have larger := passed j (by omega) (by omega)
    have bounded := paired.leaderTerms.mono inside high
    rw [common.2.2] at bounded
    omega
  have inLeader : hint ≤ leader.length := by omega
  obtain ⟨n, found, probed, lower, reached⟩ :=
    paired.leads.probe paired.followerTerms inLeader inFollower
  by_cases positive : termAt follower hint > 0
  · refine ⟨hint, n, found, searched, ?_, by omega,
      fun j common inside => reached j common (kept j common inside)⟩
    rw [if_pos positive, probed]
  · refine ⟨hint, hint, none, searched, ?_, by omega, fun j common inside => kept j common inside⟩
    rw [if_neg positive]
    rfl

theorem Paired.base (paired : Paired log peer leader follower) :
    Common leader follower peer.committed := by
  refine common_of_take paired.committed ?_ paired.agreed
  rw [paired.follows.length]
  exact paired.follows.wf.high

end RaftLog

end RaftRs

import RaftRs.Model.Replication
import RaftRs.Peer.Advance
import RaftRs.Peer.Inflights

namespace RaftRs

open Library

namespace Progress

/-- The window of a peer holds rising indexes between its matched and its next index, and only while
it replicates. -/
structure Window (pr : Progress) (items : List Nat) : Prop where
  ahead : pr.matched < pr.nextIdx
  holds : pr.ins.Holds items
  replicates : items ≠ [] → pr.state = .replicate
  rising : items.Pairwise (· < ·)
  within : ∀ item ∈ items, pr.matched < item ∧ item < pr.nextIdx

/-- The view of a peer is in order. -/
def Flow (pr : Progress) : Prop := ∃ items, pr.Window items

variable {pr pr' : Progress}

theorem flow_of_empty (ahead : pr.matched < pr.nextIdx) (holds : pr.ins.Holds []) : pr.Flow :=
  ⟨[], ahead, holds, fun filled => absurd rfl filled, .nil, List.forall_mem_nil _⟩

/-- The other marks of a progress have no part in its window. -/
theorem Flow.congr (flow : pr.Flow) (matched : pr'.matched = pr.matched)
    (nextIdx : pr'.nextIdx = pr.nextIdx) (state : pr'.state = pr.state) (ins : pr'.ins = pr.ins) :
    pr'.Flow := by
  obtain ⟨items, window⟩ := flow
  refine ⟨items, ?_, ins ▸ window.holds, fun filled => state.trans (window.replicates filled),
    window.rising, ?_⟩
  · rw [matched, nextIdx]
    exact window.ahead
  · rw [matched, nextIdx]
    exact window.within

/-- A window whose items are some of the old ones is in order. -/
theorem Window.sublist {items kept : List Nat} (window : pr.Window items) {ins : Inflights}
    (holds : ins.Holds kept) (some : kept.Sublist items) : { pr with ins }.Window kept := by
  refine ⟨window.ahead, holds, fun filled => window.replicates ?_, window.rising.sublist some,
    fun item inside => ?_⟩
  · intro empty
    rw [empty] at some
    exact filled (List.sublist_nil.1 some)
  · exact window.within item (some.subset inside)

theorem Window.empty {items : List Nat} (window : pr.Window items) (other : pr.state ≠ .replicate) :
    items = [] :=
  by_contra fun filled => other (window.replicates filled)

theorem flow_new {nextIdx : Nat} (positive : 0 < nextIdx) (insSize : Nat) (recentActive : Bool) :
    { Progress.new nextIdx insSize with recentActive }.Flow :=
  flow_of_empty positive (Inflights.holds_new insSize)

theorem flow_reset {nextIdx : Nat} (positive : 0 < nextIdx) : (pr.reset nextIdx).Flow :=
  flow_of_empty positive pr.ins.holds_reset.1

theorem flow_becomeProbe (pr : Progress) : pr.becomeProbe.Flow := by
  unfold becomeProbe
  split
  · exact flow_of_empty (Nat.lt_of_lt_of_le pr.matched.lt_succ_self (Nat.le_max_left ..))
      pr.ins.holds_reset.1
  · exact flow_of_empty pr.matched.lt_succ_self pr.ins.holds_reset.1

theorem flow_becomeReplicate (pr : Progress) : pr.becomeReplicate.Flow :=
  flow_of_empty pr.matched.lt_succ_self pr.ins.holds_reset.1

theorem Flow.becomeSnapshot (flow : pr.Flow) (snapshotIdx : Nat) :
    (pr.becomeSnapshot snapshotIdx).Flow := by
  obtain ⟨items, window⟩ := flow
  exact flow_of_empty window.ahead pr.ins.holds_reset.1

theorem Flow.updateCommitted (flow : pr.Flow) (committedIndex : Nat) :
    (pr.updateCommitted committedIndex).Flow := by
  unfold Progress.updateCommitted
  split
  · exact flow.congr rfl rfl rfl rfl
  · exact flow

theorem Flow.updateState (flow : pr.Flow) {last : Nat} (fresh : pr.nextIdx ≤ last)
    (done : pr.updateState last = .ok pr') : pr'.Flow := by
  obtain ⟨items, window⟩ := flow
  unfold Progress.updateState at done
  split at done
  next replicating =>
    obtain ⟨ins, added, same⟩ := bind_eq_ok.1 done
    obtain rfl := Except.ok.inj same
    have room : pr.ins.full = false := by
      unfold Inflights.add at added
      split at added
      · cases added
      next room => simpa using room
    obtain ⟨next, pushed, holds, -⟩ := window.holds.add room last
    obtain rfl := Except.ok.inj (pushed.symm.trans added)
    have below : ∀ item ∈ items, item < last :=
      fun item inside => (window.within item inside).2.trans_le fresh
    refine ⟨items ++ [last], ?_, holds, fun _ => replicating, ?_, fun item inside => ?_⟩
    · exact Nat.lt_succ_of_lt (window.ahead.trans_le fresh)
    · exact List.pairwise_append.2 ⟨window.rising, List.pairwise_singleton ..,
        fun item inside other single =>
        List.mem_singleton.1 single ▸ below item inside⟩
    · show pr.matched < item ∧ item < last + 1
      rcases List.mem_append.1 inside with old | new
      · exact ⟨(window.within item old).1, Nat.lt_succ_of_lt (below item old)⟩
      · rw [List.mem_singleton.1 new]
        exact ⟨window.ahead.trans_le fresh, last.lt_succ_self⟩
  next =>
    obtain rfl := Except.ok.inj done
    exact Flow.congr ⟨items, window⟩ rfl rfl rfl rfl
  next => cases done

theorem updateState_recentActive {last : Nat} (done : pr.updateState last = .ok pr') :
    pr'.recentActive = pr.recentActive := by
  unfold Progress.updateState at done
  split at done
  · obtain ⟨ins, _, same⟩ := bind_eq_ok.1 done
    obtain rfl := Except.ok.inj same
    rfl
  · obtain rfl := Except.ok.inj done
    rfl
  · cases done

theorem Flow.maybeUpdate_stale (flow : pr.Flow) {n : Nat} (done : pr.maybeUpdate n = .ok (pr', false)) :
    pr' = pr := by
  obtain ⟨items, window⟩ := flow
  obtain ⟨-, stale, rfl⟩ := maybeUpdate_ok.1 done
  have stale : n ≤ pr.matched := by simpa using stale.symm
  have ahead := window.ahead
  simp [raised, max_eq_left (Nat.succ_le_of_lt (stale.trans_lt ahead)), stale]

/-- The indexes behind a release lie above the released one. -/
theorem dropWhile_above {items : List Nat} (rising : items.Pairwise (· < ·)) {n item : Nat}
    (inside : item ∈ items.dropWhile fun other => decide (other ≤ n)) : n < item := by
  induction items with
  | nil => cases inside
  | cons first rest ih =>
      obtain ⟨above, rising⟩ := List.pairwise_cons.1 rising
      by_cases released : first ≤ n
      · rw [List.dropWhile_cons_of_pos (by simpa using released)] at inside
        exact ih rising inside
      · rw [List.dropWhile_cons_of_neg (by simpa using released)] at inside
        rcases List.mem_cons.1 inside with rfl | later
        · exact Nat.lt_of_not_le released
        · exact (Nat.lt_of_not_le released).trans (above item later)

/-- A handled acknowledgement keeps a peer in order. -/
theorem Flow.acknowledged (flow : pr.Flow) {n : Nat} {raised : Progress}
    (fresh : pr.maybeUpdate n = .ok (raised, true))
    (done : Raft.acknowledgedProgress raised n = .ok pr') :
    pr'.Flow := by
  obtain ⟨items, window⟩ := flow
  obtain ⟨-, newer, rfl⟩ := maybeUpdate_ok.1 fresh
  have newer : pr.matched < n := by simpa using newer.symm
  have ahead : max pr.matched n < max pr.nextIdx (n + 1) := by omega
  unfold Raft.acknowledgedProgress at done
  split at done
  next => exact Except.ok.inj done ▸ flow_becomeReplicate _
  next sending =>
    obtain rfl := Except.ok.inj done
    split
    · exact flow_becomeProbe _
    · have empty : items = [] := window.empty (by rw [show pr.state = .snapshot from sending]; nofun)
      exact flow_of_empty ahead (empty ▸ window.holds)
  next replicating =>
    obtain ⟨ins, freed, same⟩ := bind_eq_ok.1 done
    obtain rfl := Except.ok.inj same
    obtain ⟨next, released, holds, -⟩ := window.holds.freeTo n
    obtain rfl := Except.ok.inj (released.symm.trans freed)
    have some := items.dropWhile_sublist fun item => decide (item ≤ n)
    refine ⟨_, ahead, holds, fun _ => replicating, window.rising.sublist some, fun item inside => ?_⟩
    exact ⟨max_lt (newer.trans (dropWhile_above window.rising inside))
      (dropWhile_above window.rising inside),
        Nat.lt_of_lt_of_le (window.within item (some.subset inside)).2 (Nat.le_max_left ..)⟩

theorem maybeDecrTo_stale {rejected matchHint requestSnapshot : Nat}
    (done : pr.maybeDecrTo rejected matchHint requestSnapshot = .ok (pr', false)) : pr' = pr := by
  rcases maybeDecrTo_cases done with ⟨-, same⟩ | ⟨other, -⟩ | ⟨other, -⟩ | ⟨other, -⟩ | ⟨other, -⟩
  · exact same
  all_goals cases other

/-- A rejection keeps the activity of a peer. -/
theorem maybeDecrTo_recentActive {rejected matchHint requestSnapshot : Nat} {moved : Bool}
    (done : pr.maybeDecrTo rejected matchHint requestSnapshot = .ok (pr', moved)) :
    pr'.recentActive = pr.recentActive := by
  rcases maybeDecrTo_cases done with ⟨-, rfl⟩ | ⟨-, -, rfl⟩ | ⟨-, -, rfl⟩ | ⟨-, -, -, rfl⟩
    | ⟨-, -, _, -, rfl⟩ <;> rfl

/-- A handled rejection keeps a peer in order. -/
theorem Flow.rejected (flow : pr.Flow) {rejected matchHint requestSnapshot : Nat}
    (done : pr.maybeDecrTo rejected matchHint requestSnapshot = .ok (pr', true)) :
    (if pr'.state = .replicate then pr'.becomeProbe else pr').Flow := by
  split
  next => exact flow_becomeProbe _
  next other =>
    obtain ⟨items, window⟩ := flow
    rcases maybeDecrTo_cases done with ⟨stale, -⟩ | ⟨-, replicating, rfl⟩ | ⟨-, replicating, rfl⟩ |
      ⟨-, probing, -, rfl⟩ | ⟨-, -, _, -, rfl⟩
    · cases stale
    · exact absurd replicating other
    · exact absurd replicating other
    · have empty := window.empty probing
      exact flow_of_empty (Nat.lt_of_lt_of_le pr.matched.lt_succ_self (Nat.le_max_right ..))
        (empty ▸ window.holds)
    · exact Flow.congr ⟨items, window⟩ rfl rfl rfl rfl

theorem Flow.freeFirstOne (flow : pr.Flow) {ins : Inflights} (done : pr.ins.freeFirstOne = .ok ins) :
    { pr with ins }.Flow := by
  obtain ⟨items, window⟩ := flow
  cases items with
  | nil =>
      have none : pr.ins.count = 0 := window.holds.size.symm
      unfold Inflights.freeFirstOne at done
      rw [if_neg (by omega)] at done
      obtain rfl := Except.ok.inj done
      exact ⟨[], window⟩
  | cons item rest =>
      obtain ⟨next, freed, holds, -⟩ := window.holds.freeFirstOne
      obtain rfl := Except.ok.inj (freed.symm.trans done)
      exact ⟨_, window.sublist holds (List.dropWhile_sublist _)⟩

theorem Flow.setCap (flow : pr.Flow) {cap : Nat} {ins : Inflights} (done : pr.ins.setCap cap = .ok ins) :
    { pr with ins }.Flow := by
  obtain ⟨items, window⟩ := flow
  obtain ⟨next, resized, holds, -⟩ := window.holds.setCap cap
  obtain rfl := Except.ok.inj (resized.symm.trans done)
  exact ⟨items, window.sublist holds (List.Sublist.refl _)⟩

end Progress

end RaftRs

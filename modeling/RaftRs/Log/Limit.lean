import RaftRs.Log.Page

namespace RaftRs

open Library

namespace RaftLog

variable {log : RaftLog} {since : Nat}

theorem appliedIndexUpperBound_ok {bound : Nat} : log.appliedIndexUpperBound = .ok bound ↔
    log.persisted + log.maxApplyUnpersistedLogLimit < 2 ^ 64 ∧ bound = log.applyBound := by
  unfold appliedIndexUpperBound
  constructor
  · intro done
    obtain ⟨sum, added, same⟩ := bind_eq_ok.1 done
    obtain ⟨fits, rfl⟩ := checkedAdd_ok.1 added
    exact ⟨fits, (Except.ok.inj same).symm⟩
  · rintro ⟨fits, rfl⟩
    rw [checkedAdd_ok.2 ⟨fits, rfl⟩]
    rfl

/-- The sums of a search for entries to apply have 64 bits. -/
structure Fits (log : RaftLog) (since : Nat) : Prop where
  since : since + 1 < 2 ^ 64
  limit : log.persisted + log.maxApplyUnpersistedLogLimit < 2 ^ 64
  bound : log.applyBound + 1 < 2 ^ 64

theorem fits_of_ok {α : Type} {search : Nat → Nat → Except Fatal α} {result : α}
    (done : (do
      let after ← checkedAdd since 1
      let bound ← log.appliedIndexUpperBound
      let high ← checkedAdd bound 1
      search after high) = .ok result) :
    log.Fits since ∧ search (since + 1) (log.applyBound + 1) = .ok result := by
  obtain ⟨after, added, done⟩ := bind_eq_ok.1 done
  obtain ⟨bound, bounded, done⟩ := bind_eq_ok.1 done
  obtain ⟨high, raised, done⟩ := bind_eq_ok.1 done
  obtain ⟨first, rfl⟩ := checkedAdd_ok.1 added
  obtain ⟨limit, rfl⟩ := appliedIndexUpperBound_ok.1 bounded
  obtain ⟨last, rfl⟩ := checkedAdd_ok.1 raised
  exact ⟨⟨first, limit, last⟩, done⟩

theorem Fits.search_eq {α : Type} (fits : log.Fits since) (search : Nat → Nat → Except Fatal α) :
    (do
      let after ← checkedAdd since 1
      let bound ← log.appliedIndexUpperBound
      let high ← checkedAdd bound 1
      search after high) = search (since + 1) (log.applyBound + 1) := by
  rw [checkedAdd_ok.2 ⟨fits.since, rfl⟩, appliedIndexUpperBound_ok.2 ⟨fits.limit, rfl⟩]
  simp only [ok_bind]
  rw [checkedAdd_ok.2 ⟨fits.bound, rfl⟩, ok_bind]

theorem Fits.hasNextEntriesSince_eq (fits : log.Fits since) : log.hasNextEntriesSince since =
    .ok (decide (max (since + 1) log.firstIndex < log.applyBound + 1)) :=
  fits.search_eq fun after high => .ok (decide (high > max after log.firstIndex))

theorem Fits.nextEntriesSince_eq (fits : log.Fits since) (wf : log.WF) (maxSize : Option Nat) :
    log.nextEntriesSince since maxSize = .ok (if max (since + 1) log.firstIndex < log.applyBound + 1 then
      some (limitSize (log.range (max (since + 1) log.firstIndex) (log.applyBound + 1)) maxSize)
        else none) := by
  have committed := wf.high
  have bound : log.applyBound ≤ log.committed := min_le_left _ _
  refine (fits.search_eq _).trans ?_
  simp only [gt_iff_lt]
  split
  next open' =>
    have available : ¬ log.Unavailable (max (since + 1) log.firstIndex)
        (log.applyBound + 1) .genReady := by
      rintro ⟨-, -, blocked⟩
      simp [GetEntriesFor.canAsync] at blocked
    rw [wf.slice_eq (le_max_right _ _) open'.le (by omega) maxSize available]
    rfl
  next => rfl

end RaftLog

theorem limitCount_le (max size : Nat) (ents more : List Entry) :
    limitCount max size ents ≤ limitCount max size (ents ++ more) := by
  induction ents generalizing size with
  | nil => exact Nat.zero_le _
  | cons entry rest ih =>
      simp only [List.cons_append, limitCount]
      split
      · exact Nat.succ_le_succ (ih _)
      split
      · exact Nat.succ_le_succ (ih _)
      · exact le_rfl

/-- A list that the size limit keeps as a whole is counted as a whole. -/
theorem limitCount_of_whole {max : Nat} {ents : List Entry} (limited : max ≠ noLimit)
    (whole : ents.length ≤ (limitSize ents (some max)).length) :
    ents.length ≤ limitCount max 0 ents := by
  unfold limitSize at whole
  split at whole
  next few =>
    match ents, few with
    | [], _ => exact Nat.zero_le _
    | [entry], _ => simp [limitCount]
  next =>
    simp only [if_neg limited, List.length_take] at whole
    omega

theorem limitSize_mono (ents more : List Entry) (max : Option Nat) :
    limitSize ents max <+: limitSize (ents ++ more) max := by
  rcases Nat.lt_or_ge (limitSize ents max).length ents.length with short | whole
  · rw [limitSize_append short]
  rw [limitSize_eq_self whole]
  rw [limitSize.eq_def (ents ++ more)]
  split
  · exact List.prefix_append _ _
  cases max with
  | none => exact List.prefix_append _ _
  | some max =>
      simp only
      split
      · exact List.prefix_append _ _
      next limited =>
        have counted := limitCount_of_whole limited whole
        exact List.prefix_take_iff.2 ⟨List.prefix_append _ _,
          counted.trans (limitCount_le max 0 ents more)⟩

namespace RaftLog

variable {log : RaftLog} {since : Nat}

/-- A lower limit makes a beginning of the entries available. -/
theorem Fits.lower {limit : Nat} (fits : log.Fits since)
    (low : limit ≤ log.maxApplyUnpersistedLogLimit) :
    Fits { log with maxApplyUnpersistedLogLimit := limit } since := by
  have bound := fits.bound
  have sum := fits.limit
  refine ⟨fits.since, ?_, ?_⟩
  · show log.persisted + limit < 2 ^ 64
    omega
  · show min log.committed (log.persisted + limit) + 1 < 2 ^ 64
    unfold applyBound at bound
    omega

/-- A lower limit makes a beginning of the entries available. -/
theorem Fits.nextEntriesSince_lower {lower : Nat} (fits : log.Fits since) (wf : log.WF)
    (low : lower ≤ log.maxApplyUnpersistedLogLimit) {maxSize : Option Nat} {ents : List Entry}
    (done : nextEntriesSince { log with maxApplyUnpersistedLogLimit := lower } since maxSize =
      .ok (some ents)) :
    ∃ more, log.nextEntriesSince since maxSize = .ok (some more) ∧ ents <+: more := by
  have wf' : WF { log with maxApplyUnpersistedLogLimit := lower } :=
    ⟨wf.store, wf.contiguous, wf.snapshot, wf.joined, wf.low, wf.high⟩
  have raised : min log.committed (log.persisted + lower) ≤ log.applyBound := by
    unfold applyBound
    omega
  rw [(fits.lower low).nextEntriesSince_eq wf'] at done
  change Except.ok
    (if max (since + 1) log.firstIndex < min log.committed (log.persisted + lower) + 1 then
      some (limitSize (log.range (max (since + 1) log.firstIndex)
        (min log.committed (log.persisted + lower) + 1)) maxSize)
    else none) = .ok (some ents) at done
  split at done
  next open' =>
    obtain rfl := Option.some.inj (Except.ok.inj done)
    rw [fits.nextEntriesSince_eq wf, if_pos (by omega)]
    refine ⟨_, rfl, ?_⟩
    rw [← range_append log open'.le (Nat.succ_le_succ raised)]
    exact limitSize_mono _ _ _
  next => cases Except.ok.inj done

/-- The search for entries to apply is the one with the mathematical bound for every limit whose sum
with the persisted index has 64 bits, and for no other limit. -/
theorem apply_bound (wf : log.WF) (committed : log.committed < 2 ^ 63) :
    (log.hasNextEntriesSince since = .ok (decide (max (since + 1) log.firstIndex <
        min log.committed (log.persisted + log.maxApplyUnpersistedLogLimit) + 1)) ∧
      (∀ maxSize, log.nextEntriesSince since maxSize = .ok (if max (since + 1) log.firstIndex <
          min log.committed (log.persisted + log.maxApplyUnpersistedLogLimit) + 1 then
        some (limitSize (log.range (max (since + 1) log.firstIndex)
          (min log.committed (log.persisted + log.maxApplyUnpersistedLogLimit) + 1)) maxSize)
            else none)) ∧
      (∀ maxSize, log.hasNextEntriesSince since = .ok true ↔
        ∃ ents, log.nextEntriesSince since maxSize = .ok (some ents)) ∧
      ∀ lower ≤ log.maxApplyUnpersistedLogLimit, ∀ maxSize ents,
        nextEntriesSince { log with maxApplyUnpersistedLogLimit := lower } since maxSize =
          .ok (some ents) →
        ∃ more, log.nextEntriesSince since maxSize = .ok (some more) ∧ ents <+: more) ↔
    log.persisted + log.maxApplyUnpersistedLogLimit < 2 ^ 64 ∧ since + 1 < 2 ^ 64 := by
  constructor
  · rintro ⟨tested, -⟩
    obtain ⟨fits, -⟩ := fits_of_ok tested
    exact ⟨fits.limit, fits.since⟩
  · rintro ⟨limit, after⟩
    have bound : log.applyBound + 1 < 2 ^ 64 := by
      have below : log.applyBound ≤ log.committed := min_le_left _ _
      omega
    have fits : log.Fits since := ⟨after, limit, bound⟩
    refine ⟨fits.hasNextEntriesSince_eq, fits.nextEntriesSince_eq wf, fun maxSize => ?_,
      fun lower low maxSize ents => fits.nextEntriesSince_lower wf low⟩
    rw [fits.hasNextEntriesSince_eq, fits.nextEntriesSince_eq wf]
    split
    next open' => exact ⟨fun _ => ⟨_, rfl⟩, fun _ => by rw [decide_eq_true open']⟩
    next closed =>
      rw [decide_eq_false closed]
      exact ⟨nofun, nofun⟩

/-- A persisted entry may be applied without a limit above the persisted index. -/
theorem apply_bound_one :
    let log := { RaftLog.new { entries := [{ index := 1 }] } 0 with committed := 1 }
    log.hasNextEntriesSince 0 = .ok true ∧
      log.nextEntriesSince 0 none = .ok (some [{ index := 1 }]) := by
  intro log
  have stored : MemStorage.WF { entries := [{ index := 1 }] } :=
    ⟨contiguous_cons.2 ⟨rfl, contiguous_nil _⟩, Nat.zero_lt_one⟩
  have wf : log.WF := by
    have fresh := wf_new stored 0
    exact ⟨fresh.store, fresh.contiguous, fresh.snapshot, fresh.joined, by decide, by decide⟩
  obtain ⟨tested, read, -⟩ : log.hasNextEntriesSince 0 = _ ∧ _ :=
    (apply_bound wf (by decide)).2 ⟨by decide, by decide⟩
  exact ⟨tested, read none⟩

/-- A limit that is meant to be none at all overflows as soon as an entry is persisted. -/
theorem noLimit_overflows :
    let log := { RaftLog.new { entries := [{ index := 1 }] } noLimit with committed := 1 }
    log.persisted = 1 ∧ log.hasNextEntriesSince 0 = .error .addOverflow ∧
      log.nextEntriesSince 0 none = .error .addOverflow ∧
      { log with maxApplyUnpersistedLogLimit := 0 }.hasNextEntriesSince 0 = .ok true := by
  decide +kernel

end RaftLog

end RaftRs

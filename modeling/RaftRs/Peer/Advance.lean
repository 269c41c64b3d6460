import RaftRs.Library.Fallible
import RaftRs.Model.Progress

namespace RaftRs

open Library

theorem meets_checkedAdd {bad : Fatal → Prop} (other : ¬ bad .addOverflow) (a b : Nat) :
    Meets bad (checkedAdd a b) fun _ => True := by
  unfold checkedAdd
  split
  · exact trivial
  · exact other

theorem meets_checkedSub {bad : Fatal → Prop} (other : ¬ bad .indexOutOfRange) (a b : Nat) :
    Meets bad (checkedSub a b) fun _ => True := by
  unfold checkedSub
  split
  · exact trivial
  · exact other

namespace Progress

variable {pr pr' : Progress}

/-- The progress after an acknowledged index. -/
def raised (pr : Progress) (n : Nat) : Progress :=
  { pr with
    matched := max pr.matched n
    nextIdx := max pr.nextIdx (n + 1)
    paused := pr.paused && decide (n ≤ pr.matched) }

/-- An acknowledged index raises the matched and the next index when the one after it has 64
bits. -/
theorem maybeUpdate_ok {n : Nat} {moved : Bool} : pr.maybeUpdate n = .ok (pr', moved) ↔
    n + 1 < 2 ^ 64 ∧ moved = decide (pr.matched < n) ∧ pr' = pr.raised n := by
  have same : ∀ p : Progress, p =
      (if decide (pr.matched < n) then { pr with matched := n, paused := false } else pr) →
      (if p.nextIdx < n + 1 then { p with nextIdx := n + 1 } else p) = pr.raised n := by
    rintro p rfl
    unfold raised
    rcases Nat.lt_or_ge pr.matched n with newer | old
    · rcases Nat.lt_or_ge pr.nextIdx (n + 1) with next | next
      · simp [newer, next, newer.le, next.le, not_le.2 newer]
      · simp [newer, next, newer.le, not_lt.2 next, not_le.2 newer]
    · rcases Nat.lt_or_ge pr.nextIdx (n + 1) with next | next
      · simp [old, next, next.le, not_lt.2 old]
      · simp [old, next, not_lt.2 next, not_lt.2 old]
  constructor
  · intro done
    obtain ⟨next, added, done⟩ := bind_eq_ok.1 done
    obtain ⟨fits, rfl⟩ := checkedAdd_ok.1 added
    obtain ⟨rfl, rfl⟩ := ok_pair_inj done
    exact ⟨fits, rfl, same _ rfl⟩
  · rintro ⟨fits, rfl, rfl⟩
    unfold maybeUpdate
    simp only [checkedAdd_ok.2 ⟨fits, rfl⟩, ok_bind, same _ rfl]
    rfl

theorem meets_maybeUpdate {bad : Fatal → Prop} (other : ¬ bad .addOverflow) (pr : Progress) (n : Nat) :
    Meets bad (pr.maybeUpdate n) fun _ => True :=
  (meets_checkedAdd other ..).bind fun _ _ => trivial

/-- A rejection is stale, or it lowers the next index, or it asks for a snapshot. -/
theorem maybeDecrTo_cases {rejected matchHint requestSnapshot : Nat} {moved : Bool}
    (done : pr.maybeDecrTo rejected matchHint requestSnapshot = .ok (pr', moved)) :
    (moved = false ∧ pr' = pr) ∨
    (moved = true ∧ pr.state = .replicate ∧ pr' = { pr with nextIdx := pr.matched + 1 }) ∨
    (moved = true ∧ pr.state = .replicate ∧
      pr' = { pr with pendingRequestSnapshot := requestSnapshot }) ∨
    (moved = true ∧ pr.state ≠ .replicate ∧ pr.nextIdx = rejected + 1 ∧
      pr' = { pr with
        nextIdx := max (min rejected (matchHint + 1)) (pr.matched + 1), paused := false }) ∨
    (moved = true ∧ pr.state ≠ .replicate ∧
      ∃ pending, (pending = pr.pendingRequestSnapshot ∨ pending = requestSnapshot) ∧
        pr' = { pr with pendingRequestSnapshot := pending, paused := false }) := by
  unfold maybeDecrTo at done
  split at done
  next replicates =>
    split at done
    · obtain ⟨rfl, rfl⟩ := ok_pair_inj done
      exact .inl ⟨rfl, rfl⟩
    split at done
    · obtain ⟨next, added, done⟩ := bind_eq_ok.1 done
      obtain ⟨-, rfl⟩ := checkedAdd_ok.1 added
      obtain ⟨rfl, rfl⟩ := ok_pair_inj done
      exact .inr (.inl ⟨rfl, replicates, rfl⟩)
    · obtain ⟨rfl, rfl⟩ := ok_pair_inj done
      exact .inr (.inr (.inl ⟨rfl, replicates, rfl⟩))
  next other =>
    split at done
    · obtain ⟨rfl, rfl⟩ := ok_pair_inj done
      exact .inl ⟨rfl, rfl⟩
    next fresh =>
      split at done
      next unasked =>
        obtain ⟨hinted, added, done⟩ := bind_eq_ok.1 done
        obtain ⟨-, rfl⟩ := checkedAdd_ok.1 added
        obtain ⟨least, added, done⟩ := bind_eq_ok.1 done
        obtain ⟨-, rfl⟩ := checkedAdd_ok.1 added
        obtain ⟨rfl, rfl⟩ := ok_pair_inj done
        refine .inr (.inr (.inr (.inl ⟨rfl, other, ?_, rfl⟩)))
        by_contra stale
        exact fresh ⟨by omega, unasked⟩
      split at done
      · obtain ⟨rfl, rfl⟩ := ok_pair_inj done
        exact .inr (.inr (.inr (.inr ⟨rfl, other, _, .inr rfl, rfl⟩)))
      · obtain ⟨rfl, rfl⟩ := ok_pair_inj done
        exact .inr (.inr (.inr (.inr ⟨rfl, other, _, .inl rfl, rfl⟩)))

end Progress

end RaftRs

import Mathlib.Data.List.Basic
import Mathlib.Tactic

namespace RaftRs.Library

variable {ε α β σ : Type}

/-- A computation meets a postcondition when its result satisfies it and its failure is not a bad
one. -/
def Meets (bad : ε → Prop) (run : Except ε α) (post : α → Prop) : Prop :=
  match run with
  | .ok value => post value
  | .error failure => ¬ bad failure

variable {bad : ε → Prop}

@[simp] theorem meets_ok {value : α} {post : α → Prop} :
    Meets bad (.ok value) post ↔ post value := Iff.rfl

@[simp] theorem meets_pure {value : α} {post : α → Prop} :
    Meets bad (pure value) post ↔ post value := Iff.rfl

@[simp] theorem meets_error {failure : ε} {post : α → Prop} :
    Meets bad (.error failure) post ↔ ¬ bad failure := Iff.rfl

/-- A thrown failure meets every postcondition unless it is a bad one. -/
@[simp] theorem meets_throw {failure : ε} {post : α → Prop} :
    Meets bad (throw failure : Except ε α) post ↔ ¬ bad failure := Iff.rfl

theorem Meets.mono {run : Except ε α} {post weaker : α → Prop} (met : Meets bad run post)
    (implies : ∀ value, post value → weaker value) : Meets bad run weaker := by
  cases run with
  | error failure => exact met
  | ok value => exact implies value met

/-- A sequence meets a postcondition when its continuation does after every result of its first
part. -/
theorem Meets.bind {run : Except ε α} {next : α → Except ε β} {middle : α → Prop} {post : β → Prop}
    (met : Meets bad run middle) (continues : ∀ value, middle value → Meets bad (next value) post) :
    Meets bad (run >>= next) post := by
  cases run with
  | error failure => exact met
  | ok value => exact continues value met

theorem Meets.of_eq_ok {run : Except ε α} {post : α → Prop} {value : α} (met : Meets bad run post)
    (result : run = .ok value) : post value := by
  subst result
  exact met

/-- A fold keeps an invariant that each of its steps keeps. -/
theorem Meets.foldlM {step : σ → α → Except ε σ} {invariant : σ → Prop} (items : List α)
    (keeps : ∀ item ∈ items, ∀ state, invariant state → Meets bad (step state item) invariant)
    (state : σ) (start : invariant state) : Meets bad (items.foldlM step state) invariant := by
  induction items generalizing state with
  | nil => simpa using start
  | cons item rest ih =>
      rw [List.foldlM_cons]
      apply Meets.bind (keeps item (by simp) state start)
      intro next holds
      exact ih (fun other inside => keeps other (by simp [inside])) next holds

/-- Every result of a computation satisfies a postcondition. -/
abbrev Yields (run : Except ε α) (post : α → Prop) : Prop := Meets (fun _ => False) run post

theorem yields_error {failure : ε} {post : α → Prop} : Yields (.error failure) post := not_false

theorem Meets.yields {run : Except ε α} {post : α → Prop} (met : Meets bad run post) :
    Yields run post := by
  cases run with
  | error failure => exact yields_error
  | ok value => exact met

/-- A sequence yields what its continuation yields after every result of its first part. -/
theorem Yields.read {run : Except ε α} {next : α → Except ε β} {post : β → Prop}
    (continues : ∀ value, run = .ok value → Yields (next value) post) : Yields (run >>= next) post := by
  cases run with
  | error failure => exact yields_error
  | ok value => exact continues value rfl

theorem ok_bind {value : α} {next : α → Except ε β} : (Except.ok value >>= next) = next value := rfl

theorem ok_pair_inj {a a' : α} {b b' : β} (same : (.ok (a, b) : Except ε (α × β)) = .ok (a', b')) :
    a = a' ∧ b = b' := Prod.mk.inj (Except.ok.inj same)

theorem bind_eq_ok {run : Except ε α} {next : α → Except ε β} {result : β} :
    run >>= next = .ok result ↔ ∃ value, run = .ok value ∧ next value = .ok result := by
  cases run with
  | error failure => simp [Bind.bind, Except.bind]
  | ok value => simp [Bind.bind, Except.bind]

end RaftRs.Library

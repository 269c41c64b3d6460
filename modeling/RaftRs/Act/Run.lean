import RaftRs.Act.Act

namespace RaftRs

open Library

/-- A computation fails with no traced failure. -/
def Quiet {α : Type} (run : Except Fatal α) : Prop := Meets Fatal.IsTraced run fun _ => True

/-- A traced failure that no sequence of atomic changes explains. -/
def Unexplained (inp : Input → Prop) (c : Core) (e : Fatal) : Prop :=
  e.IsTraced ∧ ¬ ∃ c', Acts inp c c' ∧ Faults inp c' e

/-- A computation runs through atomic changes of a core up to the view of its result. -/
def Does {α : Type} (inp : Input → Prop) (c : Core) (run : Except Fatal α) (view : α → Core)
    (post : α → Prop) :
    Prop :=
  Meets (Unexplained inp c) run fun a => Acts inp c (view a) ∧ post a

section Does

variable {α β : Type} {inp : Input → Prop} {c : Core} {run : Except Fatal α} {view : α → Core}
  {post : α → Prop}

theorem Does.after {c' : Core} (acts : Acts inp c c') (rest : Does inp c' run view post) :
    Does inp c run view post := by
  cases run with
  | ok a => exact ⟨acts.trans rest.1, rest.2⟩
  | error e =>
      intro ⟨fault, unexplained⟩
      apply rest
      refine ⟨fault, ?_⟩
      rintro ⟨final, more, faults⟩
      exact unexplained ⟨final, acts.trans more, faults⟩

theorem Does.bind {next : α → Except Fatal β} {view' : β → Core} {post' : β → Prop}
    (first : Does inp c run view post)
    (continues : ∀ a, post a → Does inp (view a) (next a) view' post') :
    Does inp c (run >>= next) view' post' := by
  cases run with
  | ok a => exact Does.after first.1 (continues a first.2)
  | error e => exact first

/-- A read before a computation changes nothing. -/
theorem Does.read {next : α → Except Fatal β} {view' : β → Core} {post' : β → Prop} (quiet : Quiet run)
    (continues : ∀ a, run = .ok a → Does inp c (next a) view' post') :
    Does inp c (run >>= next) view' post' := by
  cases run with
  | ok a => exact continues a rfl
  | error e => exact fun bad => quiet bad.1

theorem Does.pure {a : α} (acts : Acts inp c (view a)) (holds : post a) : Does inp c (.ok a) view post :=
  ⟨acts, holds⟩

theorem Does.fail {e : Fatal} (quiet : ¬ e.IsTraced) : Does inp c (.error e) view post :=
  fun bad => quiet bad.1

theorem Does.fault {e : Fatal} (faults : Faults inp c e) : Does inp c (.error e) view post :=
  fun bad => bad.2 ⟨c, .refl, faults⟩

theorem Does.mono {weaker : α → Prop} (done : Does inp c run view post)
    (implies : ∀ a, post a → weaker a) :
    Does inp c run view weaker :=
  Meets.mono done fun a ⟨acts, holds⟩ => ⟨acts, implies a holds⟩

/-- A fold of computations keeps an invariant. -/
theorem Does.foldlM {σ : Type} {view : σ → Core} {step : σ → β → Except Fatal σ} {invariant : σ → Prop}
    (items : List β)
    (keeps : ∀ item ∈ items, ∀ s, invariant s → Does inp (view s) (step s item) view invariant)
    (s : σ) (start : invariant s) : Does inp (view s) (items.foldlM step s) view invariant := by
  induction items generalizing s with
  | nil => exact .pure .refl start
  | cons item rest ih =>
      rw [List.foldlM_cons]
      refine (keeps item (by simp) s start).bind fun next holds => ?_
      exact ih (fun other inside => keeps other (by simp [inside])) next holds

end Does

theorem Act.acts {inp : Input → Prop} {c c' : Core} (act : Act inp c c') : Acts inp c c' := .single act

theorem Act.acts_to {inp : Input → Prop} {c c' c'' : Core} (act : Act inp c c') (same : c' = c'') :
    Acts inp c c'' :=
  same ▸ .single act

section Quiet

variable {α β : Type}

theorem quiet_ok {a : α} : Quiet (.ok a) := trivial

theorem Quiet.bind {run : Except Fatal α} {next : α → Except Fatal β} (quiet : Quiet run)
    (continues : ∀ a, Quiet (next a)) : Quiet (run >>= next) :=
  Meets.bind quiet fun a _ => continues a

theorem quiet_error {e : Fatal} (other : ¬ e.IsTraced) : Quiet (.error e : Except Fatal α) := other

end Quiet

end RaftRs

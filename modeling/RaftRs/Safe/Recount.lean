import RaftRs.Library.World
import RaftRs.Node.Unique
import RaftRs.Peer.Reorder

namespace RaftRs

open Library

/-- The quorums of a configuration as sets of nodes. -/
def ConfState.Quorum (cs : ConfState) (members : Set Nat) : Prop :=
  cs.jointConfig.Agrees fun id => id ∈ members

/-- A safe history of numbered logs with positive terms that never fall. -/
structure Recounts (cs : ConfState) (h : History Nat Entry) : Prop where
  valid : h.Valid cs.Quorum
  positive : ∀ e ∈ h.elections, e.term ≠ 0
  numbered : ∀ t, Contiguous 1 (h.log t)
  ordered : ∀ t, Ordered (h.log t)

theorem Ordered.take {full : List Entry} (ordered : Ordered full) (n : Nat) : Ordered (full.take n) :=
  ⟨fun e inside => ordered.positive e (List.mem_of_mem_take inside),
    ordered.rising.sublist (List.take_sublist n full)⟩

theorem Ordered.append {full ents : List Entry} {t : Nat} (ordered : Ordered full) (nonzero : t ≠ 0)
    (below : ∀ e ∈ full, e.term ≤ t) (terms : ∀ e ∈ ents, e.term = t) : Ordered (full ++ ents) := by
  refine ⟨fun e inside => ?_, List.pairwise_append.2 ⟨ordered.rising, ?_, fun e inside f member => ?_⟩⟩
  · rcases List.mem_append.1 inside with old | new
    · exact ordered.positive e old
    · rw [terms e new]
      exact nonzero
  · refine List.pairwise_of_forall_mem_list fun e inside f member => ?_
    rw [terms e inside, terms f member]
  · rw [terms f member]
    exact below e inside

variable {cs : ConfState} {h : History Nat Entry}

theorem ConfState.NoSingleton.intersecting (several : cs.NoSingleton) : History.Intersecting cs.Quorum :=
  fun _ _ left right => left.intersect several.voted right

namespace Recounts

theorem numbered_path (recounts : Recounts cs h) {log : List Entry} (path : h.Path log) :
    Contiguous 1 log := by
  rw [path]
  exact (recounts.numbered _).take _

theorem ordered_path (recounts : Recounts cs h) {log : List Entry} (path : h.Path log) :
    Ordered log := by
  rw [path]
  exact (recounts.ordered _).take _

/-- Every path agrees with the log of a leader up to every index at which they have the same
term. -/
theorem matching (recounts : Recounts cs h) {log : List Entry} (path : h.Path log) (t : Nat) :
    Matching (h.log t) log := by
  rintro i ⟨inLeader, inside, same⟩
  exact recounts.valid.path_matching (recounts.valid.path_log t) path inLeader inside same

theorem elected_ne (recounts : Recounts cs h) {t : Nat} (elected : h.Elected t) : t ≠ 0 := by
  obtain ⟨e, member, rfl⟩ := elected
  exact recounts.positive e member

theorem record (recounts : Recounts cs h) {x : Nat} {P : Set (Promise Nat Entry)}
    (recordable : h.Recordable x P) :
    Recounts cs (h.record x P) :=
  ⟨recounts.valid.record recordable, recounts.positive, recounts.numbered, recounts.ordered⟩

/-- A new leader starts with a path. -/
theorem elect (recounts : Recounts cs h) {e : Election Nat Entry} (nonzero : e.term ≠ 0)
    (path : h.Path e.base) (valid : (h.elect e).Valid cs.Quorum) : Recounts cs (h.elect e) := by
  have cases : ∀ t, (h.elect e).log t = e.base ∨ (h.elect e).log t = h.log t := by
    intro t
    by_cases same : t = e.term
    · subst same
      exact .inl History.log_elect_self
    · exact .inr (History.log_elect_of_ne same)
  refine ⟨valid, fun f member => ?_, fun t => ?_, fun t => ?_⟩
  · rcases List.mem_append.1 member with old | new
    · exact recounts.positive f old
    · rw [List.mem_singleton.1 new]
      exact nonzero
  · rcases cases t with base | kept
    · rw [base]
      exact recounts.numbered_path path
    · rw [kept]
      exact recounts.numbered t
  · rcases cases t with base | kept
    · rw [base]
      exact recounts.ordered_path path
    · rw [kept]
      exact recounts.ordered t

/-- A leader appends numbered entries of its term. -/
theorem grow (recounts : Recounts cs h) {t : Nat} (elected : h.Elected t) {ents : List Entry}
    (terms : ∀ e ∈ ents, e.term = t) (numbered : Contiguous ((h.log t).length + 1) ents) :
    Recounts cs (h.grow t ents) := by
  refine ⟨recounts.valid.grow elected terms, recounts.positive, fun s => ?_, fun s => ?_⟩
  · by_cases same : s = t
    · subst same
      rw [History.log_grow_self]
      exact (recounts.numbered s).append (by rwa [Nat.add_comm])
    · rw [History.log_grow_of_ne same]
      exact recounts.numbered s
  · by_cases same : s = t
    · subst same
      rw [History.log_grow_self]
      exact (recounts.ordered s).append (recounts.elected_ne elected)
        (fun e => recounts.valid.log_terms) terms
    · rw [History.log_grow_of_ne same]
      exact recounts.ordered s

theorem conclude (recounts : Recounts cs h) {t i : Nat} (valid : (h.conclude t i).Valid cs.Quorum) :
    Recounts cs (h.conclude t i) :=
  ⟨valid, recounts.positive, recounts.numbered, recounts.ordered⟩

end Recounts

end RaftRs

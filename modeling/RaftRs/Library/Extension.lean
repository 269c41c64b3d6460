import RaftRs.Library.Completeness

namespace RaftRs.Library.History

open Termed

/-- A history grows: logs and elections get longer and records are kept. -/
structure Extends {ν ε : Type} (h h' : History ν ε) : Prop where
  log : ∀ t, h.log t <+: h'.log t
  elections : h.elections <+: h'.elections
  votes : ∀ {y t c log n}, h.votes y t c log n → h'.votes y t c log n
  acks : ∀ {y t i}, h.acks y t i → h'.acks y t i
  floors : ∀ {y t i}, h.floors y t i → h'.floors y t i
  commits : ∀ {t i}, h.commits t i → h'.commits t i

section Growth

variable {ν ε : Type} {h h' : History ν ε}

theorem Extends.refl (h : History ν ε) : h.Extends h :=
  ⟨fun _ => List.prefix_rfl, List.prefix_rfl, id, id, id, id⟩

theorem Extends.trans {h'' : History ν ε} (first : h.Extends h') (second : h'.Extends h'') :
    h.Extends h'' where
  log t := (first.log t).trans (second.log t)
  elections := first.elections.trans second.elections
  votes vote := second.votes (first.votes vote)
  acks ack := second.acks (first.acks ack)
  floors floor := second.floors (first.floors floor)
  commits commit := second.commits (first.commits commit)

theorem Extends.election (ext : h.Extends h') {e : Election ν ε} (member : e ∈ h.elections) :
    e ∈ h'.elections := ext.elections.subset member

theorem Extends.elected (ext : h.Extends h') {t : Nat} (elected : h.Elected t) : h'.Elected t := by
  obtain ⟨e, member, term⟩ := elected
  exact ⟨e, ext.election member, term⟩

theorem Extends.log_take (ext : h.Extends h') {t i : Nat} (bounded : i ≤ (h.log t).length) :
    (h'.log t).take i = (h.log t).take i := by
  rw [List.prefix_iff_eq_take.1 (ext.log t), List.take_take, min_eq_left bounded]

/-- A contained beginning stays contained. -/
theorem Extends.holds (ext : h.Extends h') {t i : Nat} {log : List ε} (holds : h.Holds t i log) :
    h'.Holds t i log := by
  refine ⟨holds.1.trans (ext.log t).length_le, ?_⟩
  rw [ext.log_take holds.1]
  exact holds.2

/-- Committed logs stay committed. -/
theorem Extends.committed (ext : h.Extends h') {log : List ε} (committed : h.Committed log) :
    h'.Committed log := by
  rcases committed with rfl | ⟨t, i, known, begins⟩
  · exact Or.inl rfl
  · refine Or.inr ⟨t, i, ext.commits known, begins.trans ?_⟩
    exact (ext.log t).take i

theorem Extends.acked (ext : h.Extends h') {y : ν} {t i : Nat} (acked : h.Acked y t i) :
    h'.Acked y t i :=
  acked.imp ext.acks ext.floors

end Growth

variable {ν ε : Type} [Termed ε] {quorum : Set ν → Prop} {h h' : History ν ε}

/-- Paths stay paths. -/
theorem Extends.path (ext : h.Extends h') {log : List ε} (path : h.Path log) : h'.Path log := by
  have bounded : log.length ≤ (h.log (lastTerm log)).length := by
    have := congrArg List.length path
    rw [List.length_take] at this
    omega
  rw [Path, ext.log_take bounded]
  exact path

/-- The leaders of the old elections have only added entries of their own terms. -/
def Grows (h h' : History ν ε) : Prop :=
  ∀ e ∈ h.elections, ∃ tail, h'.log e.term = e.base ++ tail ∧ ∀ x ∈ tail, termOf x = e.term

/-- In a valid extension the leaders have only added entries of their own terms. -/
theorem Extends.grows (ext : h.Extends h') (valid' : h'.Valid quorum) : h.Grows h' :=
  fun e member => valid'.logExtends e (ext.election member)

/-- A path that lacks a part of a leader's log never comes to contain it. -/
theorem Extends.lacks (ext : h.Extends h') (valid : h.Valid quorum) (grows : h.Grows h') {t i : Nat}
    (elected : h.Elected t) {log : List ε} (path : h.Path log) (lacks : ¬ h.Holds t i log) :
    ¬ h'.Holds t i log := by
  intro holds
  rcases Nat.lt_or_ge (h.log t).length i with beyond | within
  · -- The leader's log has grown past the old end, so the path would contain an entry created later.
    obtain ⟨e, member, rfl⟩ := elected
    obtain ⟨tail, whole, -⟩ := valid.logExtends e member
    obtain ⟨tail', whole', terms'⟩ := grows e member
    have step := holds.of_le (Nat.succ_le_of_lt beyond)
    have length := step.1
    have bound : e.base.length ≤ (h.log e.term).length := by
      rw [whole, List.length_append]
      omega
    have newPart : tail'.take ((h.log e.term).length + 1 - e.base.length) ≠ [] := by
      rw [← List.length_pos_iff, List.length_take]
      rw [whole', List.length_append] at length
      omega
    have last : lastTerm (log.take ((h.log e.term).length + 1)) = e.term := by
      rw [step.take_eq, whole', List.take_append, List.take_of_length_le (by omega),
        lastTerm_append _ newPart]
      obtain ⟨x, inside, top⟩ := lastTerm_mem newPart
      rw [← top]
      exact terms' x (List.mem_of_mem_take inside)
    have short := valid.path_take path ((h.log e.term).length + 1)
    rw [Path, last] at short
    have counts := congrArg List.length short
    rw [List.length_take, List.length_take] at counts
    have := step.length_le
    omega
  · apply lacks
    refine ⟨within, ?_⟩
    rw [← ext.log_take within]
    exact holds.2

theorem Extends.excused (ext : h.Extends h') (valid : h.Valid quorum) (grows : h.Grows h') {t i : Nat}
    (elected : h.Elected t) (excused : h.Excused t i) : h'.Excused t i := by
  obtain ⟨e, member, later, lacks⟩ := excused
  exact ⟨e, ext.election member, later, ext.lacks valid grows elected (valid.basePath e member) lacks⟩

/-- An excuse by early elections stays an excuse. -/
theorem Extends.excusedBy (ext : h.Extends h') (valid : h.Valid quorum) (grows : h.Grows h')
    {n t i : Nat} (elected : h.Elected t) (excused : h.ExcusedBy n t i) : h'.ExcusedBy n t i := by
  obtain ⟨e, member, later, lacks⟩ := excused
  refine ⟨e, (ext.elections.take n).subset member, later, ?_⟩
  exact ext.lacks valid grows elected (valid.basePath e (List.mem_of_mem_take member)) lacks

end RaftRs.Library.History

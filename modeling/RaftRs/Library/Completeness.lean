import RaftRs.Library.History

namespace RaftRs.Library.History

open Termed

variable {ν ε : Type} [Termed ε] {quorum : Set ν → Prop} {h : History ν ε}

/-- Any two quorums have a common member. -/
def Intersecting {ν : Type} (quorum : Set ν → Prop) : Prop :=
  ∀ Q Q', quorum Q → quorum Q' → ∃ y, y ∈ Q ∧ y ∈ Q'

/-- A log that some later leader's base contains lies in every more complete path. -/
theorem Valid.holds_of_upToDate (valid : h.Valid quorum) {t i : Nat} (positive : 1 ≤ i)
    (own : lastTerm ((h.log t).take i) = t) {p : Nat} {e : Election ν ε}
    (position : h.elections[p]? = some e)
    (earlier : ∀ q e', q < p → h.elections[q]? = some e' → t < e'.term → h.Holds t i e'.base)
    {log : List ε} (path : h.Path log) (holds : h.Holds t i log) (complete : UpToDate log e.base) :
    h.Holds t i e.base := by
  have member : e ∈ h.elections := List.mem_of_getElem? position
  have basePath := valid.basePath e member
  have nonempty : log ≠ [] := by
    rintro rfl
    have := holds.length_le
    simp at this
    omega
  have lower : t ≤ lastTerm log := by
    have start : (h.log t).take i ≠ [] := by
      rw [← List.length_pos_iff, List.length_take]
      have := holds.1
      omega
    obtain ⟨x, inside, top⟩ := lastTerm_mem start
    have := valid.path_terms path (holds.2.subset inside)
    omega
  rcases complete with larger | ⟨same, shorter⟩
  · -- The base ends in a later term, whose election came before and already contains the log.
    have baseNonempty : e.base ≠ [] := by
      intro empty
      simp [empty] at larger
    obtain ⟨q, e', before, atQ, term⟩ := valid.baseBefore position baseNonempty
    have member' : e' ∈ h.elections := List.mem_of_getElem? atQ
    have holds' := earlier q e' before atQ (by omega)
    have longer := valid.base_length_lt member' basePath baseNonempty term.symm
    apply holds'.of_start
    apply List.prefix_of_prefix_length_le (valid.base_start member') _ longer.le
    rw [term]
    rw [Path] at basePath
    conv_lhs => rw [basePath]
    exact List.take_prefix _ _
  · apply holds.of_start
    have both : h.log (lastTerm log) = h.log (lastTerm e.base) := by rw [same]
    rw [Path] at path basePath
    rw [path, basePath, both]
    exact List.take_prefix_take_left shorter

/-- Every leader of a later term starts with every log that was committed before its term. -/
theorem Valid.later_leader_holds (valid : h.Valid quorum) (intersecting : Intersecting quorum)
    {t i : Nat} (committed : h.commits t i) {e : Election ν ε} (member : e ∈ h.elections)
    (later : t < e.term) :
    h.Holds t i e.base := by
  obtain ⟨-, positive, -, own, Q, isQuorum, acked⟩ := valid.decided committed
  obtain ⟨p, position⟩ := List.mem_iff_getElem?.1 member
  -- The induction is on the position of the election in time, not on its term.
  induction p using Nat.strong_induction_on generalizing e with
  | _ p ih =>
      have earlier : ∀ q e', q < p → h.elections[q]? = some e' → t < e'.term → h.Holds t i e'.base := by
        intro q e' before atQ term
        exact ih q before (List.mem_of_getElem? atQ) term atQ
      obtain ⟨isQuorum', voted⟩ := valid.electors position
      obtain ⟨y, inQ, inVoters⟩ := intersecting Q e.voters isQuorum isQuorum'
      obtain ⟨j, le, ack⟩ := acked y inQ
      obtain ⟨log, n, vote, before, path, complete⟩ := voted y inVoters
      rcases valid.compatible ack vote later i le with holds | ⟨e', inTake, term, lacks⟩
      · exact valid.holds_of_upToDate positive own position earlier path holds complete
      · obtain ⟨q, atQ⟩ := List.mem_iff_getElem?.1 inTake
        rw [List.getElem?_take] at atQ
        split at atQ
        · rename_i early
          exact absurd (earlier q e' (by omega) atQ term) lacks
        · cases atQ

/-- A committed log lies in the log of the leader of every later term. -/
theorem Valid.committed_log (valid : h.Valid quorum) (intersecting : Intersecting quorum) {t i t' : Nat}
    (committed : h.commits t i) (elected : h.Elected t') (later : t ≤ t') :
    (h.log t).take i <+: h.log t' := by
  obtain ⟨e, member, rfl⟩ := elected
  rcases later.eq_or_lt with rfl | later
  · exact List.take_prefix _ _
  · exact (valid.later_leader_holds intersecting committed member later).2.trans
      (valid.base_start member)

/-- Two committed logs are comparable. -/
theorem Valid.committed_comparable (valid : h.Valid quorum) (intersecting : Intersecting quorum)
    {log other : List ε} (left : h.Committed log) (right : h.Committed other) :
    log <+: other ∨ other <+: log := by
  rcases left with rfl | ⟨t, i, committed, begins⟩
  · exact Or.inl (List.nil_prefix)
  rcases right with rfl | ⟨t', i', committed', begins'⟩
  · exact Or.inr (List.nil_prefix)
  have inMax : ∃ s, log <+: h.log s ∧ other <+: h.log s := by
    obtain ⟨elected, -⟩ := valid.decided committed
    obtain ⟨elected', -⟩ := valid.decided committed'
    rcases le_total t t' with le | le
    · exact ⟨t', begins.trans (valid.committed_log intersecting committed elected' le),
        begins'.trans (List.take_prefix _ _)⟩
    · exact ⟨t, begins.trans (List.take_prefix _ _),
        begins'.trans (valid.committed_log intersecting committed' elected le)⟩
  obtain ⟨s, first, second⟩ := inMax
  exact List.prefix_or_prefix_of_prefix first second

theorem Valid.committed_take_eq (valid : h.Valid quorum) (intersecting : Intersecting quorum)
    {log other : List ε} (left : h.Committed log) (right : h.Committed other) {i : Nat}
    (inLeft : i ≤ log.length) (inRight : i ≤ other.length) : log.take i = other.take i := by
  rcases valid.committed_comparable intersecting left right with begins | begins
  · rw [List.prefix_iff_eq_take.1 begins, List.take_take, min_eq_left inLeft]
  · rw [List.prefix_iff_eq_take.1 begins, List.take_take, min_eq_left inRight]

omit [Termed ε] in
/-- A beginning of a committed log is committed. -/
theorem Committed.of_start {log longer : List ε} (committed : h.Committed longer)
    (begins : log <+: longer) :
    h.Committed log := by
  rcases committed with rfl | ⟨t, i, known, inside⟩
  · exact Or.inl (List.prefix_nil.1 begins)
  · exact Or.inr ⟨t, i, known, begins.trans inside⟩

/-- A log whose beginning is committed contains a leader's log there unless a later election lacked
it. -/
theorem Valid.holds_or_excused (valid : h.Valid quorum) (intersecting : Intersecting quorum) {t i : Nat}
    (elected : h.Elected t) {log : List ε} (bounded : i ≤ log.length)
    (committed : h.Committed (log.take i)) {j : Nat} (le : j ≤ i) : h.Holds t j log ∨ h.Excused t j := by
  rcases committed with empty | ⟨te, k, known, begins⟩
  · have : i = 0 := by
      have length := congrArg List.length empty
      rw [List.length_take, List.length_nil] at length
      omega
    obtain rfl : j = 0 := by omega
    exact Or.inl (holds_zero h t log)
  have inLog : log.take i <+: h.log te := begins.trans (List.take_prefix _ _)
  rcases Nat.lt_or_ge t te with later | before
  · -- The commit belongs to a later leader, so a missing beginning excuses the node.
    obtain ⟨⟨e, member, term⟩, -⟩ := valid.decided known
    by_cases holds : h.Holds t j e.base
    · left
      have whole := holds.of_start (valid.base_start member)
      rw [term] at whole
      apply holds_of_take_eq holds.1
      have first : log.take j = (h.log te).take j := by
        have := congrArg (List.take j) (List.prefix_iff_eq_take.1 inLog)
        rw [List.take_take, List.take_take, min_eq_left le, List.length_take,
          min_eq_left (by omega)] at this
        exact this
      rw [first, whole.take_eq]
    · exact Or.inr ⟨e, member, by omega, holds⟩
  · left
    have inLeader : log.take i <+: h.log t :=
      begins.trans (valid.committed_log intersecting known elected before)
    have length := inLeader.length_le
    rw [List.length_take, min_eq_left bounded] at length
    have same := List.prefix_iff_eq_take.1 inLeader
    rw [List.length_take, min_eq_left bounded] at same
    apply (holds_of_take_eq length same).of_le le

end RaftRs.Library.History

import RaftRs.Library.Persist

namespace RaftRs.Library.History

open Termed

variable {ν ε : Type} {quorum : Set ν → Prop} {h : History ν ε} {x : ν}
  {durable : Replica ν ε} {pending : List (Stage ν ε)} {P : Set (Promise ν ε)} {V : Replica ν ε}

/-- The history after an election. -/
def elect (h : History ν ε) (e : Election ν ε) : History ν ε :=
  { h with log := Function.update h.log e.term e.base, elections := h.elections ++ [e] }

/-- The history after the leader of a term has appended entries. -/
def grow (h : History ν ε) (t : Nat) (ents : List ε) : History ν ε :=
  { h with log := Function.update h.log t (h.log t ++ ents) }

/-- The history after the leader of a term has committed an index. -/
def conclude (h : History ν ε) (t i : Nat) : History ν ε :=
  { h with commits := fun s j => h.commits s j ∨ (s = t ∧ j = i) }

/-- The position of an election after one more. -/
theorem elections_elect {e f : Election ν ε} {p : Nat} :
    (h.elect e).elections[p]? = some f ↔ h.elections[p]? = some f ∨
      (p = h.elections.length ∧ f = e) := by
  change (h.elections ++ [e])[p]? = some f ↔ _
  rcases Nat.lt_trichotomy p h.elections.length with below | rfl | above
  · rw [List.getElem?_append_left below]
    constructor
    · exact Or.inl
    · rintro (known | ⟨rfl, -⟩)
      · exact known
      · exact absurd below (Nat.lt_irrefl _)
  · simp [eq_comm]
  · rw [List.getElem?_eq_none (by simp; omega), List.getElem?_eq_none above.le]
    constructor
    · intro impossible
      cases impossible
    · rintro (impossible | ⟨rfl, -⟩)
      · cases impossible
      · exact absurd above (Nat.lt_irrefl _)

/-- The elected terms after one more election. -/
theorem elected_elect {e : Election ν ε} {t : Nat} :
    (h.elect e).Elected t ↔ h.Elected t ∨ t = e.term := by
  constructor
  · rintro ⟨f, member, rfl⟩
    rcases List.mem_append.1 member with old | new
    · exact Or.inl ⟨f, old, rfl⟩
    · rw [List.mem_singleton] at new
      exact Or.inr (congrArg _ new)
  · rintro (⟨f, member, rfl⟩ | rfl)
    · exact ⟨f, List.mem_append_left _ member, rfl⟩
    · exact ⟨e, by simp [elect], rfl⟩

/-- The leaders' logs of the other terms do not change with an election. -/
theorem log_elect_of_ne {e : Election ν ε} {t : Nat} (other : t ≠ e.term) :
    (h.elect e).log t = h.log t :=
  Function.update_of_ne other _ _

@[simp] theorem log_elect_self {e : Election ν ε} : (h.elect e).log e.term = e.base :=
  Function.update_self ..

/-- The logs of the other leaders do not change when a leader appends. -/
theorem log_grow_of_ne {t s : Nat} (other : s ≠ t) {ents : List ε} : (h.grow t ents).log s = h.log s :=
  Function.update_of_ne other _ _

@[simp] theorem log_grow_self {t : Nat} {ents : List ε} : (h.grow t ents).log t = h.log t ++ ents :=
  Function.update_self ..

/-- Appending to a leader's log extends the history. -/
theorem extends_grow (h : History ν ε) (t : Nat) (ents : List ε) : h.Extends (h.grow t ents) := by
  refine ⟨fun s => ?_, List.prefix_rfl, id, id, id, id⟩
  by_cases same : s = t
  · subst same
    rw [log_grow_self]
    exact List.prefix_append _ _
  · rw [log_grow_of_ne same]

theorem extends_conclude (h : History ν ε) (t i : Nat) : h.Extends (h.conclude t i) :=
  ⟨fun _ => List.prefix_rfl, List.prefix_rfl, id, id, id, Or.inl⟩

variable [Termed ε]

/-- An election of a new term extends a valid history. -/
theorem Valid.extends_elect (valid : h.Valid quorum) {e : Election ν ε} (fresh : ¬ h.Elected e.term) :
    h.Extends (h.elect e) := by
  refine ⟨fun s => ?_, List.prefix_append _ _, id, id, id, id⟩
  by_cases same : s = e.term
  · subst same
    rw [valid.unelected _ fresh]
    exact List.nil_prefix
  · rw [log_elect_of_ne same]

/-- An election does not touch the logs of the earlier leaders. -/
theorem Valid.grows_elect (valid : h.Valid quorum) {e : Election ν ε} (fresh : ¬ h.Elected e.term) :
    h.Grows (h.elect e) := by
  intro f member
  have other : f.term ≠ e.term := fun same => fresh ⟨f, member, same⟩
  rw [log_elect_of_ne other]
  exact valid.logExtends f member

/-- An acknowledgement stays compatible with a vote when the history grows. -/
theorem Valid.compatible_of_extends {h' : History ν ε} (valid : h.Valid quorum) (ext : h.Extends h')
    (grows : h.Grows h') {y : ν} {t i t' : Nat} {c : ν} {log : List ε} {n : Nat} (acked : h.Acked y t i)
    (vote : h.votes y t' c log n) (later : t < t') : ∀ j ≤ i, h'.Holds t j log ∨ h'.ExcusedBy n t j := by
  intro j le
  exact (valid.compatible acked vote later j le).imp ext.holds
    (ext.excusedBy valid grows (valid.ackElected acked))

/-- A decision of a leader stays one when the history grows. -/
theorem Valid.decided_of_extends {h' : History ν ε} (valid : h.Valid quorum) (ext : h.Extends h')
    {t i : Nat} (known : h.commits t i) : h'.Elected t ∧ 1 ≤ i ∧ i ≤ (h'.log t).length ∧
      lastTerm ((h'.log t).take i) = t ∧ ∃ Q, quorum Q ∧ ∀ y ∈ Q, ∃ j, i ≤ j ∧ h'.Acked y t j := by
  obtain ⟨elected, positive, bounded, own, Q, isQuorum, acked⟩ := valid.decided known
  refine ⟨ext.elected elected, positive, bounded.trans (ext.log t).length_le, ?_, Q, isQuorum, ?_⟩
  · rw [ext.log_take bounded]
    exact own
  · intro y inside
    obtain ⟨j, le, ack⟩ := acked y inside
    exact ⟨j, le, ext.acked ack⟩

/-- A valid history stays valid when a quorum has voted for a candidate of a new term. -/
theorem Valid.elect (valid : h.Valid quorum) {e : Election ν ε} (fresh : ¬ h.Elected e.term)
    (path : h.Path e.base) (terms : ∀ x ∈ e.base, termOf x < e.term) (isQuorum : quorum e.voters)
    (itself : e.leader ∈ e.voters)
    (voted : ∀ y ∈ e.voters, ∃ log n, h.votes y e.term e.leader log n ∧ h.Path log ∧
      UpToDate log e.base) :
    (h.elect e).Valid quorum := by
  have ext := valid.extends_elect fresh
  have grows := valid.grows_elect fresh
  have members : ∀ f ∈ (h.elect e).elections, f ∈ h.elections ∨ f = e := by
    intro f member
    simpa [History.elect] using member
  have otherTerm : ∀ {q : Nat} {f : Election ν ε}, h.elections[q]? = some f → f.term ≠ e.term := by
    intro q f position same
    exact fresh ⟨f, List.mem_of_getElem? position, same⟩
  refine ⟨?_, ?_, ?_, ?_, ?_, ?_, ?_, ?_, ?_, ?_, valid.voteOnce, valid.compatible_of_extends ext grows,
    fun acked => ?_, valid.decided_of_extends ext⟩
  · intro p q f f' atP atQ term
    rcases elections_elect.1 atP with oldP | ⟨rfl, rfl⟩
    · rcases elections_elect.1 atQ with oldQ | ⟨rfl, rfl⟩
      · exact valid.distinct oldP oldQ term
      · exact absurd term (otherTerm oldP)
    · rcases elections_elect.1 atQ with oldQ | ⟨rfl, rfl⟩
      · exact absurd term.symm (otherTerm oldQ)
      · rfl
  · intro f member
    rcases members f member with old | rfl
    · exact valid.baseTerms f old
    · exact terms
  · intro f member
    rcases members f member with old | rfl
    · exact ext.path (valid.basePath f old)
    · exact ext.path path
  · intro p f position nonempty
    rcases elections_elect.1 position with old | ⟨rfl, rfl⟩
    · obtain ⟨q, f', lower, atQ, term⟩ := valid.baseBefore old nonempty
      exact ⟨q, f', lower, elections_elect.2 (Or.inl atQ), term⟩
    · obtain ⟨f', member, term⟩ := valid.path_elected path nonempty
      obtain ⟨q, atQ⟩ := List.mem_iff_getElem?.1 member
      obtain ⟨lower, -⟩ := List.getElem?_eq_some_iff.1 atQ
      exact ⟨q, f', lower, elections_elect.2 (Or.inl atQ), term⟩
  · intro f member
    rcases members f member with old | rfl
    · exact grows f old
    · exact ⟨[], by simp, by simp⟩
  · intro t unelected
    rw [elected_elect, not_or] at unelected
    rw [log_elect_of_ne unelected.2]
    exact valid.unelected t unelected.1
  · intro p f position
    rcases elections_elect.1 position with old | ⟨rfl, rfl⟩
    · obtain ⟨oldQuorum, oldVotes⟩ := valid.electors old
      refine ⟨oldQuorum, fun y inside => ?_⟩
      obtain ⟨log, n, vote, le, logPath, complete⟩ := oldVotes y inside
      exact ⟨log, n, vote, le, ext.path logPath, complete⟩
    · refine ⟨isQuorum, fun y inside => ?_⟩
      obtain ⟨log, n, vote, logPath, complete⟩ := voted y inside
      exact ⟨log, n, vote, valid.stamped vote, ext.path logPath, complete⟩
  · intro f member
    rcases members f member with old | rfl
    · exact valid.leaderVotes f old
    · exact itself
  · intro y t c log n vote
    exact (valid.stamped vote).trans ext.elections.length_le
  · intro y t c log n vote
    obtain ⟨logPath, source⟩ := valid.voteSound vote
    exact ⟨ext.path logPath, source⟩
  · exact ext.elected (valid.ackElected acked)

/-- A valid history stays valid when a leader appends entries of its term. -/
theorem Valid.grow (valid : h.Valid quorum) {t : Nat} (elected : h.Elected t) {ents : List ε}
    (terms : ∀ x ∈ ents, termOf x = t) : (h.grow t ents).Valid quorum := by
  have ext := extends_grow h t ents
  have grows : h.Grows (h.grow t ents) := by
    intro e member
    obtain ⟨tail, whole, tailTerms⟩ := valid.logExtends e member
    by_cases same : e.term = t
    · refine ⟨tail ++ ents, ?_, fun x inside => ?_⟩
      · rw [same, log_grow_self, ← same, whole, List.append_assoc]
      · rcases List.mem_append.1 inside with old | new
        · exact tailTerms x old
        · rw [same]
          exact terms x new
    · rw [log_grow_of_ne same]
      exact ⟨tail, whole, tailTerms⟩
  refine ⟨valid.distinct, valid.baseTerms, ?_, valid.baseBefore, grows, ?_, ?_, valid.leaderVotes,
    valid.stamped, ?_, valid.voteOnce, valid.compatible_of_extends ext grows, valid.ackElected,
      valid.decided_of_extends ext⟩
  · exact fun e member => ext.path (valid.basePath e member)
  · intro s unelected
    have other : s ≠ t := by
      rintro rfl
      exact unelected elected
    rw [log_grow_of_ne other]
    exact valid.unelected s unelected
  · intro p e position
    obtain ⟨isQuorum, votes⟩ := valid.electors position
    refine ⟨isQuorum, fun y inside => ?_⟩
    obtain ⟨log, n, vote, le, logPath, complete⟩ := votes y inside
    exact ⟨log, n, vote, le, ext.path logPath, complete⟩
  · intro y s c log n vote
    obtain ⟨logPath, source⟩ := valid.voteSound vote
    exact ⟨ext.path logPath, source⟩

/-- A valid history stays valid when a leader commits what a quorum has acknowledged. -/
theorem Valid.conclude (valid : h.Valid quorum) {t i : Nat} (elected : h.Elected t) (positive : 1 ≤ i)
    (bounded : i ≤ (h.log t).length) (own : lastTerm ((h.log t).take i) = t) {Q : Set ν}
    (isQuorum : quorum Q) (acked : ∀ y ∈ Q, ∃ j, i ≤ j ∧ h.Acked y t j) :
    (h.conclude t i).Valid quorum := by
  refine { valid with decided := ?_ }
  rintro s j (old | ⟨rfl, rfl⟩)
  · exact valid.decided old
  · exact ⟨elected, positive, bounded, own, Q, isQuorum, acked⟩

end RaftRs.Library.History

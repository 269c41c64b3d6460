import Mathlib.Data.List.Infix
import Mathlib.Data.Set.Basic
import Mathlib.Tactic

namespace RaftRs.Library

/-- The entries of a replicated log carry the term of the leader that created them. -/
class Termed (ε : Type) where
  termOf : ε → Nat

open Termed

/-- The term of the last entry of a log, or zero. -/
def lastTerm {ε : Type} [Termed ε] (log : List ε) : Nat := (log.getLast?.map termOf).getD 0

/-- The last term of a beginning is the term of the entry at its end. -/
theorem lastTerm_take {ε : Type} [Termed ε] (log : List ε) (i : Nat) :
    lastTerm (log.take (i + 1)) = ((log[i]?.or log.getLast?).map termOf).getD 0 := by
  rw [lastTerm, List.getLast?_take]
  simp

/-- A log is at least as complete as another one by the comparison of their ends. -/
def UpToDate {ε : Type} [Termed ε] (log other : List ε) : Prop :=
  lastTerm log < lastTerm other ∨ (lastTerm log = lastTerm other ∧ log.length ≤ other.length)

/-- An election has a term, a winner, the log of the winner and its voters. -/
structure Election (ν ε : Type) where
  term : Nat
  leader : ν
  base : List ε
  voters : Set ν

/-- A history records what has become visible: the log of each leader, elections, votes,
acknowledgements and commits. -/
structure History (ν ε : Type) where
  /-- The log of the leader of each term. -/
  log : Nat → List ε
  /-- The elections in the order in which they were won. -/
  elections : List (Election ν ε)
  /-- A voter gave its vote of a term to a candidate with some log after some number of
  elections. -/
  votes : ν → Nat → ν → List ε → Nat → Prop
  /-- A node acknowledged the log of the leader of a term up to an index. -/
  acks : ν → Nat → Nat → Prop
  /-- A node acknowledged an index to the leader of a term because it had committed it. -/
  floors : ν → Nat → Nat → Prop
  /-- The leader of a term committed an index of its own term. -/
  commits : Nat → Nat → Prop

namespace History

variable {ν ε : Type} [Termed ε]

/-- Some node won the election of a term. -/
def Elected (h : History ν ε) (t : Nat) : Prop := ∃ e ∈ h.elections, e.term = t

/-- A log is a beginning of the log of the leader of its last term. -/
def Path (h : History ν ε) (log : List ε) : Prop := log = (h.log (lastTerm log)).take log.length

/-- A log contains the log of the leader of a term up to an index. -/
def Holds (h : History ν ε) (t i : Nat) (log : List ε) : Prop :=
  i ≤ (h.log t).length ∧ (h.log t).take i <+: log

/-- One of the first elections after a term was won without the log of that term up to an index. -/
def ExcusedBy (h : History ν ε) (n t i : Nat) : Prop :=
  ∃ e ∈ h.elections.take n, t < e.term ∧ ¬ h.Holds t i e.base

/-- Some election after a term was won without the log of that term up to an index. -/
def Excused (h : History ν ε) (t i : Nat) : Prop :=
  ∃ e ∈ h.elections, t < e.term ∧ ¬ h.Holds t i e.base

/-- A log lies below a committed index. -/
def Committed (h : History ν ε) (log : List ε) : Prop :=
  log = [] ∨ ∃ t i, h.commits t i ∧ log <+: (h.log t).take i

/-- An acknowledgement of either kind. -/
def Acked (h : History ν ε) (y : ν) (t i : Nat) : Prop := h.acks y t i ∨ h.floors y t i

/-- The conditions that make a history safe. -/
structure Valid (quorum : Set ν → Prop) (h : History ν ε) : Prop where
  distinct : ∀ {p q : Nat} {e e' : Election ν ε}, h.elections[p]? = some e → h.elections[q]? = some e' →
    e.term = e'.term → p = q
  baseTerms : ∀ e ∈ h.elections, ∀ x ∈ e.base, termOf x < e.term
  basePath : ∀ e ∈ h.elections, h.Path e.base
  baseBefore : ∀ {p : Nat} {e : Election ν ε}, h.elections[p]? = some e → e.base ≠ [] →
    ∃ q e', q < p ∧ h.elections[q]? = some e' ∧ e'.term = lastTerm e.base
  logExtends : ∀ e ∈ h.elections, ∃ tail, h.log e.term = e.base ++ tail ∧ ∀ x ∈ tail, termOf x = e.term
  unelected : ∀ t, ¬ h.Elected t → h.log t = []
  electors : ∀ {p : Nat} {e : Election ν ε}, h.elections[p]? = some e → quorum e.voters ∧
    ∀ y ∈ e.voters, ∃ log n, h.votes y e.term e.leader log n ∧ n ≤ p ∧ h.Path log ∧ UpToDate log e.base
  leaderVotes : ∀ e ∈ h.elections, e.leader ∈ e.voters
  stamped : ∀ {y t c log n}, h.votes y t c log n → n ≤ h.elections.length
  voteSound : ∀ {y t c log n}, h.votes y t c log n →
    h.Path log ∧ (c = y ∨ ∃ own m, h.votes c t c own m ∧ UpToDate log own)
  voteOnce : ∀ {y t c c' log log' n n'}, h.votes y t c log n → h.votes y t c' log' n' → c = c'
  compatible : ∀ {y t i t' c log n}, h.Acked y t i → h.votes y t' c log n → t < t' →
    ∀ j ≤ i, h.Holds t j log ∨ h.ExcusedBy n t j
  ackElected : ∀ {y t i}, h.Acked y t i → h.Elected t
  decided : ∀ {t i}, h.commits t i → h.Elected t ∧ 1 ≤ i ∧ i ≤ (h.log t).length ∧
    lastTerm ((h.log t).take i) = t ∧ ∃ Q, quorum Q ∧ ∀ y ∈ Q, ∃ j, i ≤ j ∧ h.Acked y t j

end History

@[simp] theorem lastTerm_nil {ε : Type} [Termed ε] : lastTerm ([] : List ε) = 0 := rfl

theorem lastTerm_mem {ε : Type} [Termed ε] {log : List ε} (nonempty : log ≠ []) :
    ∃ x ∈ log, termOf x = lastTerm log := by
  refine ⟨log.getLast nonempty, List.getLast_mem nonempty, ?_⟩
  simp [lastTerm, List.getLast?_eq_some_getLast nonempty]

theorem lastTerm_append {ε : Type} [Termed ε] (log : List ε) {tail : List ε} (nonempty : tail ≠ []) :
    lastTerm (log ++ tail) = lastTerm tail := by
  simp [lastTerm, List.getLast?_append_of_ne_nil _ nonempty]

theorem UpToDate.refl {ε : Type} [Termed ε] (log : List ε) : UpToDate log log := Or.inr ⟨rfl, le_rfl⟩

namespace History

section Holds

variable {ν ε : Type} {h : History ν ε}

theorem Holds.of_le {t i j : Nat} {log : List ε} (holds : h.Holds t i log) (le : j ≤ i) :
    h.Holds t j log := by
  refine ⟨le.trans holds.1, ?_⟩
  apply List.IsPrefix.trans _ holds.2
  exact List.take_prefix_take_left le

theorem Holds.of_start {t i : Nat} {log longer : List ε} (holds : h.Holds t i log)
    (begins : log <+: longer) :
    h.Holds t i longer := ⟨holds.1, holds.2.trans begins⟩

theorem holds_zero (h : History ν ε) (t : Nat) (log : List ε) : h.Holds t 0 log :=
  ⟨Nat.zero_le _, by simp⟩

/-- A beginning that contains an index is at least as long. -/
theorem Holds.length_le {t i : Nat} {log : List ε} (holds : h.Holds t i log) : i ≤ log.length := by
  have := holds.2.length_le
  rw [List.length_take] at this
  have := holds.1
  omega

theorem Holds.take_eq {t i : Nat} {log : List ε} (holds : h.Holds t i log) :
    log.take i = (h.log t).take i := by
  have := List.prefix_iff_eq_take.1 holds.2
  rw [this, List.length_take, min_eq_left holds.1]

theorem holds_of_take_eq {t i : Nat} {log : List ε} (bounded : i ≤ (h.log t).length)
    (agrees : log.take i = (h.log t).take i) : h.Holds t i log :=
  ⟨bounded, agrees ▸ List.take_prefix i log⟩

end Holds

variable {ν ε : Type} [Termed ε] {quorum : Set ν → Prop} {h : History ν ε}

@[simp] theorem path_nil (h : History ν ε) : h.Path [] := by simp [Path]

/-- A nonempty path ends in an elected term. -/
theorem Valid.path_elected (valid : h.Valid quorum) {log : List ε} (path : h.Path log)
    (nonempty : log ≠ []) :
    h.Elected (lastTerm log) := by
  by_contra unelected
  rw [Path, valid.unelected _ unelected, List.take_nil] at path
  exact nonempty path

/-- The terms of the entries of a leader's log do not exceed its term. -/
theorem Valid.log_terms (valid : h.Valid quorum) {t : Nat} {x : ε} (inside : x ∈ h.log t) :
    termOf x ≤ t := by
  by_cases elected : h.Elected t
  · obtain ⟨e, member, rfl⟩ := elected
    obtain ⟨tail, whole, tailTerms⟩ := valid.logExtends e member
    rw [whole, List.mem_append] at inside
    rcases inside with inside | inside
    · exact (valid.baseTerms e member x inside).le
    · exact (tailTerms x inside).le
  · rw [valid.unelected t elected] at inside
    exact absurd inside List.not_mem_nil

/-- The terms of the entries of a path do not exceed its last term. -/
theorem Valid.path_terms (valid : h.Valid quorum) {log : List ε} (path : h.Path log) {x : ε}
    (inside : x ∈ log) : termOf x ≤ lastTerm log := by
  rw [Path] at path
  rw [path] at inside
  exact valid.log_terms (List.mem_of_mem_take inside)

/-- A beginning of a path is a path. -/
theorem Valid.path_take (valid : h.Valid quorum) {log : List ε} (path : h.Path log) (i : Nat) :
    h.Path (log.take i) := by
  -- The induction follows the last term down through the logs that the leaders started from.
  induction bound : lastTerm log using Nat.strong_induction_on generalizing log with
  | _ s ih =>
      by_cases empty : log.take i = []
      · rw [empty]
        exact path_nil h
      have nonempty : log ≠ [] := by
        rintro rfl
        exact empty (List.take_nil)
      obtain ⟨e, member, term⟩ := valid.path_elected path nonempty
      obtain ⟨tail, whole, tailTerms⟩ := valid.logExtends e member
      have shape : log = (e.base ++ tail).take log.length := by
        rw [← whole, term]
        exact path
      by_cases inBase : i ≤ e.base.length
      · have start : log.take i = e.base.take (min i log.length) := by
          conv_lhs => rw [shape]
          rw [List.take_take, List.take_append_of_le_length (by omega)]
        have baseNonempty : e.base ≠ [] := by
          rintro base
          rw [start, base, List.take_nil] at empty
          exact empty rfl
        have lower : lastTerm e.base < s := by
          obtain ⟨x, inside, top⟩ := lastTerm_mem baseNonempty
          have := valid.baseTerms e member x inside
          omega
        have base := ih _ lower (valid.basePath e member) rfl
        by_cases short : i ≤ log.length
        · rw [start, min_eq_left short]
          exact base
        · rw [List.take_of_length_le (by omega)]
          exact path
      · by_cases short : i ≤ log.length
        · have split : log.take i = e.base ++ tail.take (i - e.base.length) := by
            conv_lhs => rw [shape]
            rw [List.take_take, min_eq_left short, List.take_append]
            rw [List.take_of_length_le (by omega)]
          have tailNonempty : tail.take (i - e.base.length) ≠ [] := by
            have total := congrArg List.length shape
            simp only [List.length_take, List.length_append] at total
            rw [← List.length_pos_iff, List.length_take]
            omega
          have last : lastTerm (log.take i) = lastTerm log := by
            rw [split, lastTerm_append _ tailNonempty, ← term]
            obtain ⟨x, inside, top⟩ := lastTerm_mem tailNonempty
            rw [← top]
            exact tailTerms x (List.mem_of_mem_take inside)
          rw [Path, last, List.length_take]
          conv_lhs => rw [path]
          rw [List.take_take]
        · rw [List.take_of_length_le (by omega)]
          exact path

theorem Valid.path_of_start (valid : h.Valid quorum) {log whole : List ε} (path : h.Path whole)
    (begins : log <+: whole) : h.Path log := by
  rw [List.prefix_iff_eq_take.1 begins]
  exact valid.path_take path _

/-- The log of a leader is a path. -/
theorem Valid.path_log (valid : h.Valid quorum) (t : Nat) : h.Path (h.log t) := by
  by_cases elected : h.Elected t
  · obtain ⟨e, member, rfl⟩ := elected
    obtain ⟨tail, whole, tailTerms⟩ := valid.logExtends e member
    by_cases empty : tail = []
    · rw [whole, empty, List.append_nil]
      exact valid.basePath e member
    · have last : lastTerm (h.log e.term) = e.term := by
        rw [whole, lastTerm_append _ empty]
        obtain ⟨x, inside, top⟩ := lastTerm_mem empty
        rw [← top]
        exact tailTerms x inside
      rw [Path, last, List.take_length]
  · rw [valid.unelected t elected]
    exact path_nil h

theorem path_ext {log other : List ε} (left : h.Path log) (right : h.Path other)
    (length : log.length = other.length) (term : lastTerm log = lastTerm other) : log = other := by
  rw [Path] at left right
  rw [left, right, length, term]

/-- Two paths that agree on the term of a position agree up to it. -/
theorem Valid.path_matching (valid : h.Valid quorum) {log other : List ε} (left : h.Path log)
    (right : h.Path other) {i : Nat} (inLeft : i ≤ log.length) (inRight : i ≤ other.length)
    (term : lastTerm (log.take i) = lastTerm (other.take i)) : log.take i = other.take i := by
  apply path_ext (valid.path_take left i) (valid.path_take right i) _ term
  rw [List.length_take, List.length_take]
  omega

/-- The base of an election begins the log of its leader. -/
theorem Valid.base_start (valid : h.Valid quorum) {e : Election ν ε} (member : e ∈ h.elections) :
    e.base <+: h.log e.term := by
  obtain ⟨tail, whole, -⟩ := valid.logExtends e member
  rw [whole]
  exact List.prefix_append _ _

/-- Two elections of one term are the same. -/
theorem Valid.election_unique (valid : h.Valid quorum) {e e' : Election ν ε} (left : e ∈ h.elections)
    (right : e' ∈ h.elections) (term : e.term = e'.term) : e = e' := by
  obtain ⟨p, atP⟩ := List.mem_iff_getElem?.1 left
  obtain ⟨q, atQ⟩ := List.mem_iff_getElem?.1 right
  have same := valid.distinct atP atQ term
  rw [same, atQ] at atP
  exact (Option.some.inj atP).symm

/-- The leader of a term has voted for itself. -/
theorem Valid.leader_vote (valid : h.Valid quorum) {e : Election ν ε} (member : e ∈ h.elections) :
    ∃ log n, h.votes e.leader e.term e.leader log n := by
  obtain ⟨p, position⟩ := List.mem_iff_getElem?.1 member
  obtain ⟨log, n, vote, -⟩ := (valid.electors position).2 e.leader (valid.leaderVotes e member)
  exact ⟨log, n, vote⟩

/-- A path whose last term is an elected one is longer than the base of that election. -/
theorem Valid.base_length_lt (valid : h.Valid quorum) {e : Election ν ε} (member : e ∈ h.elections)
    {log : List ε} (path : h.Path log) (nonempty : log ≠ []) (term : lastTerm log = e.term) :
    e.base.length < log.length := by
  by_contra short
  have inBase : log <+: e.base := by
    apply List.prefix_of_prefix_length_le _ (valid.base_start member) (by omega)
    rw [Path, term] at path
    rw [path]
    exact List.take_prefix _ _
  obtain ⟨x, inside, top⟩ := lastTerm_mem nonempty
  have := valid.baseTerms e member x (inBase.subset inside)
  omega

end History

end RaftRs.Library

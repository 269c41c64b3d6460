import RaftRs.Library.Leadership

namespace RaftRs.Library.History

open Termed

variable {ν ε : Type} [Termed ε] {quorum : Set ν → Prop} {h : History ν ε} {x : ν}
  {durable : Replica ν ε} {pending : List (Stage ν ε)} {P : Set (Promise ν ε)} {V : Replica ν ε}

/-- Every state that a node may restart from keeps its visible promises. -/
theorem NodeInv.older_kept {live : Option (Stage ν ε)} (inv : h.NodeInv x durable pending live)
    {u : Replica ν ε} (inside : u ∈ older durable pending) {p : Promise ν ε}
    (promised : p ∈ h.recorded x) :
    h.Kept u p := by
  rw [older, List.mem_cons, List.mem_map] at inside
  rcases inside with rfl | ⟨s, member, rfl⟩
  · exact (inv.settled ⟨h.recorded x, u⟩ (by simp [stages])).kept p promised
  · exact ((List.pairwise_cons.1 inv.ordered).1 s (by simp [member])).kept p promised

/-- Every state that a node may restart from is proper. -/
theorem NodeInv.older_proper {live : Option (Stage ν ε)} (inv : h.NodeInv x durable pending live)
    {u : Replica ν ε} (inside : u ∈ older durable pending) : h.Proper u := by
  rw [older, List.mem_cons, List.mem_map] at inside
  rcases inside with rfl | ⟨s, member, rfl⟩
  · exact (inv.settled ⟨h.recorded x, u⟩ (by simp [stages])).proper
  · exact (inv.settled s (by simp [stages, member])).proper

/-- The election that a candidate wins. -/
def victory (x : ν) (V : Replica ν ε) (voters : Set ν) : Election ν ε := ⟨V.term, x, V.log, voters⟩

/-- The first stage may get a promise that every stage keeps. -/
theorem Faithful.promise_first {s : Stage ν ε} {later : List (Stage ν ε)} {p : Promise ν ε}
    (faithful : h.Faithful x (s :: later)) (kept : ∀ u ∈ s :: later, h.Kept u.replica p)
    (sound : h.Sound x p) (itself : h.Compatible p p)
    (compatible : ∀ u ∈ s :: later, ∀ q ∈ u.promises, h.Compatible p q ∧ h.Compatible q p) :
    h.Faithful x (⟨s.promises ∪ {p}, s.replica⟩ :: later) := by
  obtain ⟨fromFirst, rest⟩ := List.pairwise_cons.1 faithful.ordered
  have first := faithful.settled s (by simp)
  have origin : ∀ u ∈ (⟨s.promises ∪ {p}, s.replica⟩ :: later : List (Stage ν ε)), ∀ q ∈ u.promises,
      (∃ u' ∈ s :: later, q ∈ u'.promises) ∨ q = p := by
    intro u member q promised
    rcases List.mem_cons.1 member with rfl | old
    · exact promised.imp (fun promised => ⟨s, by simp, promised⟩) id
    · exact Or.inl ⟨u, by simp [old], promised⟩
  constructor
  · intro u member
    rcases List.mem_cons.1 member with rfl | old
    · refine ⟨first.proper, ?_, ?_⟩
      · rintro q (promised | rfl)
        · exact first.kept q promised
        · exact kept s (by simp)
      · rintro q (promised | rfl)
        · exact first.sound q promised
        · exact sound
    · exact faithful.settled u (by simp [old])
  · refine List.pairwise_cons.2 ⟨fun u member => ?_, rest⟩
    have before := fromFirst u member
    refine ⟨before.term, ?_, before.fresh⟩
    rintro q (promised | rfl)
    · exact before.kept q promised
    · exact kept u (by simp [member])
  · intro u inU v inV q inQ r inR
    rcases origin u inU q inQ with ⟨u', inU', isQ⟩ | rfl
    · rcases origin v inV r inR with ⟨v', inV', isR⟩ | rfl
      · exact faithful.compatible u' inU' v' inV' q isQ r isR
      · exact (compatible u' inU' q isQ).2
    · rcases origin v inV r inR with ⟨v', inV', isR⟩ | rfl
      · exact (compatible v' inV' r isR).1
      · exact itself

section Live

variable (inv : h.NodeInv x durable pending (some ⟨P, V⟩))

include inv

/-- Nobody else was elected in a term in which a quorum has voted for a candidate. -/
theorem NodeInv.not_elected (valid : h.Valid quorum) (intersecting : Intersecting quorum)
    (role : V.role = .candidate) {voters : Set ν} (isQuorum : quorum voters)
    (voted : ∀ y ∈ voters, ∃ log n, h.votes y V.term x log n) : ¬ h.Elected V.term := by
  rintro ⟨e, member, term⟩
  obtain ⟨p, position⟩ := List.mem_iff_getElem?.1 member
  obtain ⟨otherQuorum, otherVotes⟩ := valid.electors position
  obtain ⟨y, inOther, inside⟩ := intersecting _ _ otherQuorum isQuorum
  obtain ⟨log, n, vote⟩ := voted y inside
  obtain ⟨log', n', vote', -⟩ := otherVotes y inOther
  rw [term] at vote'
  exact (inv.campaigning _ rfl role).2.1 e member term (valid.voteOnce vote' vote)

/-- The voters of a candidate have logs that are not more complete than its own. -/
theorem NodeInv.voters_upToDate (valid : h.Valid quorum) (role : V.role = .candidate) {y : ν}
    {log : List ε} {n : Nat} (vote : h.votes y V.term x log n) : h.Path log ∧ UpToDate log V.log := by
  have ownLog : ∀ {own m}, h.votes x V.term x own m → V.log = own := by
    intro own m own_vote
    exact ((inv.kept (p := .vote V.term x own) ⟨m, own_vote⟩).2 rfl).2 role
  obtain ⟨path, rfl | ⟨own, m, request, complete⟩⟩ := valid.voteSound vote
  · refine ⟨path, ?_⟩
    rw [ownLog vote]
    exact UpToDate.refl log
  · rw [ownLog request]
    exact ⟨path, complete⟩

/-- A history stays valid when a candidate wins. -/
theorem NodeInv.valid_elect (valid : h.Valid quorum) (intersecting : Intersecting quorum)
    (role : V.role = .candidate) {voters : Set ν} (isQuorum : quorum voters) (itself : x ∈ voters)
    (voted : ∀ y ∈ voters, ∃ log n, h.votes y V.term x log n) :
    (h.elect (victory x V voters)).Valid quorum := by
  have proper := inv.proper
  apply valid.elect _ proper.path (proper.candidate role) isQuorum itself
  · intro y inside
    obtain ⟨log, n, vote⟩ := voted y inside
    exact ⟨log, n, vote, inv.voters_upToDate valid role vote⟩
  · exact inv.not_elected valid intersecting role isQuorum voted

/-- A candidate that a quorum has voted for may become the leader of its term. -/
theorem NodeInv.elect (valid : h.Valid quorum) (intersecting : Intersecting quorum)
    (role : V.role = .candidate) {voters : Set ν} (isQuorum : quorum voters) (itself : x ∈ voters)
    (voted : ∀ y ∈ voters, ∃ log n, h.votes y V.term x log n) :
    (h.elect (victory x V voters)).NodeInv x durable pending (some ⟨P, { V with role := .leader }⟩) := by
  have fresh := inv.not_elected valid intersecting role isQuorum voted
  have valid' := inv.valid_elect valid intersecting role isQuorum itself voted
  have ext := valid.extends_elect (e := victory x V voters) fresh
  have proper := ext.proper inv.proper
  obtain ⟨-, -, candidates⟩ := inv.campaigning _ rfl role
  obtain ⟨own, n, ownVote⟩ := voted x itself
  have ownLog : V.log = own := ((inv.kept (p := .vote V.term x own) ⟨n, ownVote⟩).2 rfl).2 role
  refine ⟨?_, ?_, ?_⟩
  · rw [stages_some]
    refine (inv.faithful.extend ext valid valid').move ⟨proper.path, proper.terms, proper.bounded,
      proper.committed, fun candidate => by cases candidate⟩ (le_refl V.term) ?_
    intro _ _ p _ kept
    refine kept_within_term ?_ ?_ ?_ ?_ ?_ ?_ kept
    exacts [rfl, rfl, le_rfl, Or.inr rfl, fun follower => by (rw [role] at follower; cases follower),
      fun candidate => by cases candidate]
  · rintro s isLive -
    cases isLive
    refine ⟨(log_elect_self (e := victory x V voters)).symm,
      victory x V voters, by simp [History.elect], rfl, rfl,
      fun u inside => ?_⟩
    -- Every state to restart from dates from the candidacy, so it has the log that the votes were
    -- given for.
    have kept := inv.older_kept inside (p := .vote V.term x own) ⟨n, ownVote⟩
    have term : u.term = V.term := le_antisymm (inv.older_term inside) kept.1
    have log : u.log = V.log := ((kept.2 term.symm).2 (candidates u inside term)).trans ownLog.symm
    refine ⟨term, ?_, ?_⟩
    · rw [log]
      exact List.prefix_rfl
    · rw [log]
  · rintro s isLive candidate
    cases isLive
    cases candidate

theorem NodeInv.leader_log (role : V.role = .leader) :
    V.log = h.log V.term := (inv.leading _ rfl role).1

theorem NodeInv.leader_elected (role : V.role = .leader) :
    ∃ e ∈ h.elections, e.term = V.term ∧ e.leader = x := by
  obtain ⟨-, e, member, term, leader, -⟩ := inv.leading _ rfl role
  exact ⟨e, member, term, leader⟩

/-- A leader may append entries of its term. -/
theorem NodeInv.grow (valid : h.Valid quorum) (role : V.role = .leader) {ents : List ε}
    (terms : ∀ y ∈ ents, termOf y = V.term) :
    (h.grow V.term ents).NodeInv x durable pending (some ⟨P, { V with log := V.log ++ ents }⟩) := by
  obtain ⟨whole, e, member, term, leader, between⟩ := inv.leading _ rfl role
  have valid' := valid.grow ⟨e, member, term⟩ terms
  have ext := extends_grow h V.term ents
  have proper := ext.proper inv.proper
  have grown : (h.grow V.term ents).log V.term = V.log ++ ents := by
    rw [log_grow_self]
    exact congrArg (· ++ ents) whole.symm
  refine ⟨?_, ?_, ?_⟩
  · rw [stages_some]
    refine (inv.faithful.extend ext valid valid').move ⟨?_, ?_, ?_, ?_, ?_⟩ (le_refl V.term) ?_
    · have path := valid'.path_log V.term
      rwa [grown] at path
    · intro y inside
      rcases List.mem_append.1 inside with old | new
      · exact proper.terms y old
      · exact (terms y new).le
    · simp only [List.length_append]
      exact proper.bounded.trans (Nat.le_add_right _ _)
    · simp only [List.take_append_of_le_length proper.bounded]
      exact proper.committed
    · intro candidate
      rw [role] at candidate
      cases candidate
    · intro _ _ p _ kept
      cases p with
      | ack t i =>
          obtain ⟨le, covered, same⟩ := kept
          refine ⟨le, fun j below => ?_, fun now => ?_⟩
          · exact (covered j below).imp (fun holds => holds.of_start (List.prefix_append _ _)) id
          · exact (same now).of_start (List.prefix_append _ _)
      | floor t i => exact kept
      | vote t c log =>
          refine ⟨kept.1, fun now => ⟨(kept.2 now).1, fun candidate => ?_⟩⟩
          rw [role] at candidate
          cases candidate
  · rintro s isLive -
    cases isLive
    refine ⟨grown.symm, e, member, term, leader, fun u inside => ?_⟩
    obtain ⟨sameTerm, low, high⟩ := between u inside
    exact ⟨sameTerm, low, high.trans (List.prefix_append _ _)⟩
  · rintro s isLive candidate
    cases isLive
    rw [role] at candidate
    cases candidate

/-- The stages of a live leader hold the log of its term as far as they are written. -/
theorem NodeInv.leader_holds (role : V.role = .leader) {i : Nat}
    (written : ∀ u ∈ older durable pending, i ≤ u.log.length) {s : Stage ν ε}
    (inside : s ∈ h.stages x durable pending (some ⟨P, V⟩)) :
    s.replica.term = V.term ∧ h.Holds V.term i s.replica.log := by
  obtain ⟨whole, e, member, term, leader, between⟩ := inv.leading _ rfl role
  have fromOlder : ∀ u ∈ older durable pending, u.term = V.term ∧ h.Holds V.term i u.log := by
    intro u inOlder
    obtain ⟨sameTerm, -, high⟩ := between u inOlder
    have long := written u inOlder
    have onLog : u.log <+: h.log V.term := whole ▸ high
    refine ⟨sameTerm, long.trans onLog.length_le, ?_⟩
    exact List.prefix_of_prefix_length_le (List.take_prefix _ _) onLog (by rw [List.length_take]; omega)
  rw [stages_some, List.mem_append, List.mem_cons, List.mem_singleton] at inside
  rcases inside with (rfl | inPending) | rfl
  · exact fromOlder durable (by simp [older])
  · exact fromOlder s.replica (List.mem_cons_of_mem _ (List.mem_map_of_mem inPending))
  · obtain ⟨-, -, high⟩ := between durable (by simp [older])
    refine ⟨rfl, ?_⟩
    exact (fromOlder durable (by simp [older])).2.of_start high

theorem NodeInv.recordable_self (role : V.role = .leader) {i : Nat} :
    h.Recordable x {.ack V.term i} := by
  obtain ⟨whole, e, member, term, leader, between⟩ := inv.leading _ rfl role
  have elected : h.Elected V.term := ⟨e, member, term⟩
  constructor
  · rintro t c log impossible
    cases impossible
  · rintro t c log impossible
    cases impossible
  · rintro t j new t' c log old
    have bound : t' ≤ durable.term := (inv.older_kept (u := durable) (by simp [older]) old).1
    rcases new with same | impossible
    · cases same
      exact bound.trans (between durable (by simp [older])).1.le
    · cases impossible
  · rintro t j (same | impossible)
    · cases same
      exact elected
    · cases impossible
  · rintro t c log impossible
    cases impossible

/-- A leader may acknowledge its own log as far as every pending write and the store have it. -/
theorem NodeInv.acknowledge (valid : h.Valid quorum) (role : V.role = .leader) {i : Nat}
    (written : ∀ u ∈ older durable pending, i ≤ u.log.length) :
    (h.record x {.ack V.term i}).NodeInv x durable pending (some ⟨P, V⟩) := by
  have valid' := valid.record (inv.recordable_self role (i := i))
  have ext := extends_record h x {.ack V.term i}
  refine ⟨?_, ?_, ?_⟩
  · rw [stages, recorded_record]
    refine Faithful.extend ext valid valid' (Faithful.promise_first (s := ⟨h.recorded x, durable⟩)
      inv.toFaithful ?_ ?_ trivial ?_)
    · intro u member
      obtain ⟨term, holds⟩ := inv.leader_holds role written member
      exact ⟨term.ge, fun j le => Or.inl (holds.of_le le), fun _ => holds⟩
    · obtain ⟨e, member, term, -⟩ := inv.leader_elected role
      exact ⟨e, member, term⟩
    · intro u member q promised
      rw [← stages, stages_some] at member
      exact (inv.faithful.last_kept member promised).compatible_now rfl (by simp)
  · exact inv.leading
  · exact inv.campaigning

end Live

end RaftRs.Library.History

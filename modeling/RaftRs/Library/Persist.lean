import RaftRs.Library.NodeStep

namespace RaftRs.Library.History

open Termed

variable {ν ε : Type} [Termed ε] {quorum : Set ν → Prop} {h : History ν ε} {x : ν}
  {durable : Replica ν ε} {pending : List (Stage ν ε)} {P : Set (Promise ν ε)} {V : Replica ν ε}

/-- The states up to the latest write keep the promises made before it. -/
theorem NodeInv.prior (inv : h.NodeInv x durable pending (some ⟨P, V⟩)) {front : List (Stage ν ε)}
    {Q : Set (Promise ν ε)} (whole : (⟨h.recorded x, durable⟩ :: pending : List (Stage ν ε)) =
      front ++ [⟨Q, latest durable pending⟩]) :
      h.Faithful x (front ++ [⟨Q, latest durable pending⟩]) := by
  have faithful := inv.faithful
  rw [← whole]
  exact ⟨fun u member => faithful.settled u (List.mem_append_left _ member),
    (List.pairwise_append.1 faithful.ordered).1, fun u inU v inV =>
      faithful.compatible u (List.mem_append_left _ inU) v (List.mem_append_left _ inV)⟩

/-- A node that was elected in its term keeps its floors with the commit index of its latest
write. -/
theorem NodeInv.floors_of_elected (inv : h.NodeInv x durable pending (some ⟨P, V⟩))
    (valid : h.Valid quorum) (elected : ∃ e ∈ h.elections, e.term = V.term ∧ e.leader = x)
    {s : Stage ν ε} (inside : s ∈ (⟨h.recorded x, durable⟩ :: pending) ++ [⟨P, V⟩]) {t i : Nat}
    (promised : .floor t i ∈ s.promises) : i ≤ (latest durable pending).commit := by
  obtain ⟨front, Q, whole⟩ := exists_latest h x durable pending
  have faithful := inv.faithful
  have prior := inv.prior whole
  have sound := faithful.sound inside promised
  rw [List.mem_append, List.mem_singleton] at inside
  rcases inside with earlier | rfl
  · -- The latest write itself keeps the floors promised before it.
    rw [whole] at earlier
    exact (prior.last_kept earlier promised).2.1
  · -- A floor promised since then would belong to the term in which the node was elected.
    obtain ⟨e, member, term, leader⟩ := elected
    obtain ⟨log, n, vote⟩ := valid.leader_vote member
    rw [leader] at vote
    have voted : Promise.vote e.term x log ∈ h.recorded x := ⟨n, vote⟩
    have first : (⟨h.recorded x, durable⟩ : Stage ν ε) ∈ front ++ [⟨Q, latest durable pending⟩] := by
      rw [← whole]
      exact List.mem_cons_self
    have reached : e.term ≤ (latest durable pending).term := (prior.last_kept first voted).1
    have kept := faithful.last_kept (by simp) promised
    have fresh :=
      ((List.pairwise_append.1 faithful.ordered).2.2 ⟨Q, latest durable pending⟩ (by simp [whole])
      ⟨P, V⟩ (by simp)).fresh _ promised
    have same : t = e.term := term ▸ le_antisymm kept.1 ((term ▸ reached).trans fresh)
    obtain ⟨e', member', term', other⟩ := sound
    rw [valid.election_unique member' member (term'.trans same)] at other
    exact absurd leader other

/-- A leader or candidate stays one when it writes a copy of its own state or of one that it may
restart from. -/
theorem NodeInv.write (inv : h.NodeInv x durable pending (some ⟨P, V⟩)) {P' Q : Set (Promise ν ε)}
    {W : Replica ν ε}
    (faithful : h.Faithful x ((⟨h.recorded x, durable⟩ :: (pending ++ [⟨Q, W⟩])) ++ [⟨P', V⟩]))
    (copied : ∃ u ∈ V :: older durable pending, W.term = u.term ∧ W.log = u.log ∧ W.role = u.role) :
    h.NodeInv x durable (pending ++ [⟨Q, W⟩]) (some ⟨P', V⟩) := by
  have split : older durable (pending ++ [⟨Q, W⟩]) = older durable pending ++ [W] := by simp [older]
  obtain ⟨u, known, sameTerm, sameLog, sameRole⟩ := copied
  refine ⟨stages_some h x durable _ _ ▸ faithful, ?_, ?_⟩
  · rintro s isLive role
    cases isLive
    obtain ⟨log, e, member, term, leader, between⟩ := inv.leading ⟨P, V⟩ rfl role
    refine ⟨log, e, member, term, leader, fun v inside => ?_⟩
    rw [split, List.mem_append, List.mem_singleton] at inside
    rcases inside with old | rfl
    · exact between v old
    · rw [sameTerm, sameLog]
      rcases List.mem_cons.1 known with rfl | old
      · obtain ⟨-, low, high⟩ := between _ (latest_mem_older durable pending)
        exact ⟨rfl, low.trans high, List.prefix_rfl⟩
      · exact between u old
  · rintro s isLive role
    cases isLive
    obtain ⟨vote, notElected, candidates⟩ := inv.campaigning ⟨P, V⟩ rfl role
    refine ⟨vote, notElected, fun v inside term => ?_⟩
    rw [split, List.mem_append, List.mem_singleton] at inside
    rcases inside with old | rfl
    · exact candidates v old term
    · rw [sameRole]
      rcases List.mem_cons.1 known with rfl | old
      · exact role
      · exact candidates u old (sameTerm.symm.trans term)

/-- A node may write its state. In the term of its election it may write the commit index of its
latest write. -/
theorem NodeInv.seal (inv : h.NodeInv x durable pending (some ⟨P, V⟩)) (valid : h.Valid quorum) {c : Nat}
    (le : c ≤ V.commit) (source : c = V.commit ∨
      ((∃ e ∈ h.elections, e.term = V.term ∧ e.leader = x) ∧ c = (latest durable pending).commit)) :
    h.NodeInv x durable (pending ++ [⟨P, { V with commit := c }⟩]) (some ⟨∅, V⟩) := by
  have proper := inv.proper
  have floors : ∀ s ∈ (⟨h.recorded x, durable⟩ :: pending) ++ [⟨P, V⟩], ∀ t i, .floor t i ∈ s.promises →
      i ≤ c := by
    intro s inside t i promised
    rcases source with rfl | ⟨elected, rfl⟩
    · exact (inv.faithful.last_kept inside promised).2.1
    · exact inv.floors_of_elected valid elected inside promised
  have written :
      h.Faithful x ((⟨h.recorded x, durable⟩ :: pending) ++ [⟨P, { V with commit := c }⟩]) := by
    refine inv.faithful.move ⟨proper.path, proper.terms, le.trans proper.bounded, ?_, proper.candidate⟩
      (le_refl V.term) ?_
    · exact proper.committed.of_start (List.take_prefix_take_left le)
    · intro s inside p promised kept
      cases p with
      | ack t i => exact kept
      | floor t i => exact ⟨kept.1, floors s inside t i promised, kept.2.2⟩
      | vote t y log => exact kept
  have copied := written.copy proper rfl (by
    intro p kept
    refine kept_within_term ?_ ?_ ?_ ?_ ?_ ?_ kept
    exacts [rfl, rfl, le, Or.inr rfl, id, id])
  exact inv.write (by simpa using copied) ⟨V, List.mem_cons_self, rfl, rfl, rfl⟩

/-- A node may repeat its latest write with a larger commit index. -/
theorem NodeInv.rewrite (inv : h.NodeInv x durable pending (some ⟨P, V⟩)) {c : Nat}
    (up : (latest durable pending).commit ≤ c) (bounded : c ≤ (latest durable pending).log.length)
    (committed : h.Committed ((latest durable pending).log.take c)) :
    h.NodeInv x durable (pending ++ [⟨∅, { latest durable pending with commit := c }⟩])
    (some ⟨P, V⟩) := by
  obtain ⟨front, Q, whole⟩ := exists_latest h x durable pending
  have faithful := inv.faithful
  rw [whole, List.append_assoc] at faithful
  have proper := (faithful.settled ⟨Q, latest durable pending⟩ (by simp)).proper
  have copied := faithful.copy (W := { latest durable pending with commit := c })
    ⟨proper.path, proper.terms, bounded, committed, proper.candidate⟩ rfl (by
      intro p kept
      refine kept_within_term ?_ ?_ ?_ ?_ ?_ ?_ kept
      exacts [rfl, rfl, up, Or.inr rfl, id, id])
  refine inv.write ?_ ⟨_, List.mem_cons_of_mem _ (latest_mem_older durable pending), rfl, rfl, rfl⟩
  rw [← List.cons_append, whole]
  simpa using copied

/-- The history after promises of a node have become visible. -/
def record (h : History ν ε) (x : ν) (P : Set (Promise ν ε)) : History ν ε where
  log := h.log
  elections := h.elections
  votes y t c log n := h.votes y t c log n ∨ (y = x ∧ n = h.elections.length ∧ .vote t c log ∈ P)
  acks y t i := h.acks y t i ∨ (y = x ∧ .ack t i ∈ P)
  floors y t i := h.floors y t i ∨ (y = x ∧ .floor t i ∈ P)
  commits := h.commits

omit [Termed ε] in
theorem extends_record (h : History ν ε) (x : ν) (P : Set (Promise ν ε)) : h.Extends (h.record x P) :=
  ⟨fun _ => List.prefix_rfl, List.prefix_rfl, Or.inl, Or.inl, Or.inl, id⟩

omit [Termed ε] in
/-- The recorded promises of a node get the new ones. -/
theorem recorded_record (h : History ν ε) (x : ν) (P : Set (Promise ν ε)) :
    (h.record x P).recorded x = h.recorded x ∪ P := by
  ext p
  cases p with
  | ack t i => exact ⟨Or.imp id And.right, Or.imp id (And.intro rfl)⟩
  | floor t i => exact ⟨Or.imp id And.right, Or.imp id (And.intro rfl)⟩
  | vote t c log =>
      constructor
      · rintro ⟨n, old | ⟨-, -, new⟩⟩
        · exact Or.inl ⟨n, old⟩
        · exact Or.inr new
      · rintro (⟨n, old⟩ | new)
        · exact ⟨n, Or.inl old⟩
        · exact ⟨_, Or.inr ⟨rfl, rfl, new⟩⟩

omit [Termed ε] in
/-- The recorded promises of the other nodes do not change. -/
theorem recorded_record_ne (h : History ν ε) {x y : ν} (other : y ≠ x) (P : Set (Promise ν ε)) :
    (h.record x P).recorded y = h.recorded y := by
  ext p
  cases p with
  | ack t i => exact ⟨fun known => known.resolve_right fun new => other new.1, Or.inl⟩
  | floor t i => exact ⟨fun known => known.resolve_right fun new => other new.1, Or.inl⟩
  | vote t c log =>
      constructor
      · rintro ⟨n, known⟩
        exact ⟨n, known.resolve_right fun new => other new.1⟩
      · rintro ⟨n, known⟩
        exact ⟨n, Or.inl known⟩

/-- The promises of a node that can be recorded now. -/
structure Recordable (h : History ν ε) (x : ν) (P : Set (Promise ν ε)) : Prop where
  votes : ∀ {t c log}, .vote t c log ∈ P → ∀ {t' c' log'}, .vote t' c' log' ∈ h.recorded x ∪ P →
    t = t' → c = c'
  acks : ∀ {t c log}, .vote t c log ∈ P →
    ∀ {t' i}, (.ack t' i ∈ h.recorded x ∪ P ∨ .floor t' i ∈ h.recorded x ∪ P) →
    t' < t → h.Covered t' i log
  fresh : ∀ {t i}, (.ack t i ∈ P ∨ .floor t i ∈ P) → ∀ {t' c log}, .vote t' c log ∈ h.recorded x → t' ≤ t
  elected : ∀ {t i}, (.ack t i ∈ P ∨ .floor t i ∈ P) → h.Elected t
  sound : ∀ {t c log}, .vote t c log ∈ P →
    h.Path log ∧ (c = x ∨ ∃ own m, h.votes c t c own m ∧ UpToDate log own)

/-- A valid history stays valid when promises are recorded. -/
theorem Valid.record (valid : h.Valid quorum) (recordable : h.Recordable x P) :
    (h.record x P).Valid quorum where
  distinct := valid.distinct
  baseTerms := valid.baseTerms
  basePath := valid.basePath
  baseBefore := valid.baseBefore
  logExtends := valid.logExtends
  unelected := valid.unelected
  electors position := by
    obtain ⟨isQuorum, voted⟩ := valid.electors position
    refine ⟨isQuorum, fun y inside => ?_⟩
    obtain ⟨log, n, vote, rest⟩ := voted y inside
    exact ⟨log, n, Or.inl vote, rest⟩
  leaderVotes := valid.leaderVotes
  stamped := by
    rintro y t c log n (old | ⟨-, rfl, -⟩)
    · exact valid.stamped old
    · exact le_rfl
  voteSound := by
    rintro y t c log n (old | ⟨rfl, -, new⟩)
    · obtain ⟨path, source⟩ := valid.voteSound old
      refine ⟨path, source.imp id ?_⟩
      rintro ⟨own, m, vote, complete⟩
      exact ⟨own, m, Or.inl vote, complete⟩
    · obtain ⟨path, source⟩ := recordable.sound new
      refine ⟨path, source.imp id ?_⟩
      rintro ⟨own, m, vote, complete⟩
      exact ⟨own, m, Or.inl vote, complete⟩
  voteOnce := by
    rintro y t c c' log log' n n' (old | ⟨rfl, -, new⟩) (old' | ⟨same, -, new'⟩)
    · exact valid.voteOnce old old'
    · subst same
      exact (recordable.votes new' (Or.inl ⟨n, old⟩) rfl).symm
    · exact recordable.votes new (Or.inl ⟨n', old'⟩) rfl
    · exact recordable.votes new (Or.inr new') rfl
  compatible := by
    rintro y t i t' c log n acked (old | ⟨rfl, rfl, new⟩) later j le
    · rcases acked with (known | ⟨rfl, added⟩) | (known | ⟨rfl, added⟩)
      · exact valid.compatible (Or.inl known) old later j le
      · exact absurd (recordable.fresh (Or.inl added) ⟨n, old⟩) (by omega)
      · exact valid.compatible (Or.inr known) old later j le
      · exact absurd (recordable.fresh (Or.inr added) ⟨n, old⟩) (by omega)
    · have either : .ack t i ∈ h.recorded y ∪ P ∨ .floor t i ∈ h.recorded y ∪ P := by
        rcases acked with known | known
        · exact Or.inl (known.imp id And.right)
        · exact Or.inr (known.imp id And.right)
      refine (recordable.acks new either later j le).imp id ?_
      rintro ⟨e, member, rest⟩
      refine ⟨e, ?_, rest⟩
      change e ∈ h.elections.take h.elections.length
      rwa [List.take_length]
  ackElected := by
    rintro y t i ((known | ⟨-, added⟩) | (known | ⟨-, added⟩))
    · exact valid.ackElected (Or.inl known)
    · exact recordable.elected (Or.inl added)
    · exact valid.ackElected (Or.inr known)
    · exact recordable.elected (Or.inr added)
  decided known := by
    obtain ⟨elected, positive, bounded, own, Q, isQuorum, acked⟩ := valid.decided known
    refine ⟨elected, positive, bounded, own, Q, isQuorum, fun y inside => ?_⟩
    obtain ⟨j, le, ack⟩ := acked y inside
    exact ⟨j, le, (extends_record h x P).acked ack⟩

/-- The promises of the next write can be recorded. -/
theorem NodeInv.recordable {W : Replica ν ε} {live : Option (Stage ν ε)}
    (inv : h.NodeInv x durable (⟨P, W⟩ :: pending) live) : h.Recordable x P := by
  have first : (⟨h.recorded x, durable⟩ : Stage ν ε) ∈ h.stages x durable (⟨P, W⟩ :: pending) live := by
    simp [stages]
  have second : (⟨P, W⟩ : Stage ν ε) ∈ h.stages x durable (⟨P, W⟩ :: pending) live := by
    simp [stages]
  have before : h.Before ⟨h.recorded x, durable⟩ ⟨P, W⟩ :=
    (List.pairwise_cons.1 inv.ordered).1 _ (by simp)
  have place : ∀ q ∈ h.recorded x ∪ P, ∃ s ∈ h.stages x durable (⟨P, W⟩ :: pending) live, q ∈
      s.promises := by
    rintro q (old | new)
    · exact ⟨_, first, old⟩
    · exact ⟨_, second, new⟩
  constructor
  · intro t c log new t' c' log' known
    obtain ⟨s, inside, promised⟩ := place _ known
    exact inv.compatible _ second s inside _ new _ promised
  · rintro t c log new t' i (known | known)
    · obtain ⟨s, inside, promised⟩ := place _ known
      exact inv.compatible s inside _ second _ promised _ new
    · obtain ⟨s, inside, promised⟩ := place _ known
      exact inv.compatible s inside _ second _ promised _ new
  · intro t i new t' c log old
    have bound : t' ≤ durable.term := ((inv.settled _ first).kept _ old).1
    rcases new with new | new
    · exact bound.trans (before.fresh _ new)
    · exact bound.trans (before.fresh _ new)
  · rintro t i (new | new)
    · exact (inv.settled _ second).sound _ new
    · exact elected_of_floor ((inv.settled _ second).sound _ new)
  · exact fun new => (inv.settled _ second).sound _ new

/-- A write that reaches the store makes its promises visible. -/
theorem NodeInv.flush {W : Replica ν ε} {live : Option (Stage ν ε)}
    (inv : h.NodeInv x durable (⟨P, W⟩ :: pending) live) (valid : h.Valid quorum) :
    (h.record x P).NodeInv x W pending live := by
  have ext := extends_record h x P
  have valid' := valid.record inv.recordable
  have fewer : ∀ u ∈ older W pending, u ∈ older durable (⟨P, W⟩ :: pending) := by
    intro u inside
    exact List.mem_cons_of_mem _ inside
  refine ⟨?_, ?_, ?_⟩
  · have merged := Faithful.merge (s := ⟨h.recorded x, durable⟩) inv.toFaithful
    rw [stages, recorded_record]
    exact merged.extend ext valid valid'
  · intro s isLive role
    obtain ⟨whole, e, member, term, leader, between⟩ := inv.leading s isLive role
    exact ⟨whole, e, member, term, leader, fun u inside => between u (fewer u inside)⟩
  · intro s isLive role
    obtain ⟨vote, notElected, candidates⟩ := inv.campaigning s isLive role
    exact ⟨vote, notElected, fun u inside => candidates u (fewer u inside)⟩

end RaftRs.Library.History

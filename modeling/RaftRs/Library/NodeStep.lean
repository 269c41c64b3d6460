import RaftRs.Library.LiveStep

namespace RaftRs.Library.History

open Termed

variable {ν ε : Type} [Termed ε] {quorum : Set ν → Prop} {h : History ν ε} {x : ν}
  {durable : Replica ν ε} {pending : List (Stage ν ε)} {P : Set (Promise ν ε)} {V : Replica ν ε}

omit [Termed ε] in
theorem stages_some (h : History ν ε) (x : ν) (durable : Replica ν ε) (pending : List (Stage ν ε))
    (s : Stage ν ε) :
    h.stages x durable pending (some s) = (⟨h.recorded x, durable⟩ :: pending) ++ [s] := by
  simp [stages]

theorem NodeInv.faithful {s : Stage ν ε} (inv : h.NodeInv x durable pending (some s)) :
    h.Faithful x ((⟨h.recorded x, durable⟩ :: pending) ++ [s]) :=
  stages_some h x durable pending s ▸ inv.toFaithful

/-- A follower has nothing to show beyond its promises. -/
theorem Faithful.follower (faithful : h.Faithful x ((⟨h.recorded x, durable⟩ :: pending) ++ [⟨P, V⟩]))
    (role : V.role = .follower) : h.NodeInv x durable pending (some ⟨P, V⟩) := by
  refine ⟨stages_some h x durable pending _ ▸ faithful, ?_, ?_⟩
  · rintro s isLive leader
    cases isLive
    rw [role] at leader
    cases leader
  · rintro s isLive candidate
    cases isLive
    rw [role] at candidate
    cases candidate

theorem Proper.covers_floor (proper : h.Proper V) (valid : h.Valid quorum)
    (intersecting : Intersecting quorum) {t i : Nat} (elected : h.Elected t) (low : i ≤ V.commit) :
    h.Covered t i V.log := by
  intro j le
  exact valid.holds_or_excused intersecting elected proper.bounded proper.committed (le.trans low)

/-- A vote with the present log is compatible with the promises kept so far. -/
theorem Proper.vote_compatible (proper : h.Proper V) (valid : h.Valid quorum)
    (intersecting : Intersecting quorum) {t : Nat} {c : ν}
    (free : ∀ c' log', h.Kept V (.vote t c' log') → c' = c) {q : Promise ν ε} (sound : h.Sound x q)
    (kept : h.Kept V q) : h.Compatible (.vote t c V.log) q ∧ h.Compatible q (.vote t c V.log) := by
  cases q with
  | ack t' i => exact ⟨trivial, fun _ => kept.2.1⟩
  | floor t' i =>
      refine ⟨trivial, fun _ => ?_⟩
      exact proper.covers_floor valid intersecting (elected_of_floor sound) kept.2.1
  | vote t' c' log' =>
      refine ⟨?_, ?_⟩
      · rintro rfl
        exact (free c' log' kept).symm
      · rintro rfl
        exact free c' log' kept

omit [Termed ε] in
/-- A kept promise contradicts no acknowledgement of the present term: only a vote of a later term
would. -/
theorem Kept.compatible_now {p q : Promise ν ε} (kept : h.Kept V q) (fresh : p.term = V.term)
    (plain : ∀ t c log, p ≠ .vote t c log) : h.Compatible p q ∧ h.Compatible q p := by
  cases p with
  | vote t c log => exact absurd rfl (plain t c log)
  | _ =>
      cases q with
      | vote t c log => exact ⟨fun later => absurd (fresh ▸ later) (not_lt.2 kept.1), trivial⟩
      | _ => exact ⟨trivial, trivial⟩

section Live

variable (inv : h.NodeInv x durable pending (some ⟨P, V⟩))

include inv

theorem NodeInv.keep {P' : Set (Promise ν ε)} {V' : Replica ν ε}
    (faithful : h.Faithful x ((⟨h.recorded x, durable⟩ :: pending) ++ [⟨P', V'⟩]))
    (same : V'.term = V.term ∧ V'.vote = V.vote ∧ V'.role = V.role ∧ V'.log = V.log) :
    h.NodeInv x durable pending (some ⟨P', V'⟩) := by
  obtain ⟨term, vote, role, log⟩ := same
  refine ⟨stages_some h x durable pending _ ▸ faithful, ?_, ?_⟩
  · rintro s isLive leads
    cases isLive
    simp only [Leading, term, log]
    exact inv.leading ⟨P, V⟩ rfl (role.symm.trans leads)
  · rintro s isLive runs
    cases isLive
    simp only [Campaigning, term, vote]
    exact inv.campaigning ⟨P, V⟩ rfl (role.symm.trans runs)

theorem NodeInv.proper : h.Proper V :=
  (inv.settled ⟨P, V⟩ (by simp [stages])).proper

theorem NodeInv.kept {p : Promise ν ε} (promised : p ∈ h.recorded x) : h.Kept V p :=
  inv.faithful.last_kept (s := ⟨h.recorded x, durable⟩) (by simp) promised

/-- The live term is not below the term of a state that the node may restart from. -/
theorem NodeInv.older_term {u : Replica ν ε} (inside : u ∈ older durable pending) : u.term ≤ V.term := by
  rw [older, List.mem_cons, List.mem_map] at inside
  rcases inside with rfl | ⟨s, member, rfl⟩
  · exact inv.faithful.last_term (s := ⟨h.recorded x, u⟩) (by simp)
  · exact inv.faithful.last_term (by simp [member])

/-- A node in a later term has no vote and no leader. -/
theorem NodeInv.bump {T : Nat} (later : V.term < T) :
    h.NodeInv x durable pending (some ⟨P, ⟨T, none, .follower, V.log, V.commit⟩⟩) := by
  have proper := inv.proper
  apply Faithful.follower _ rfl
  refine inv.faithful.move ⟨proper.path, ?_, proper.bounded, ?_, ?_⟩ later.le ?_
  · exact fun e inside => (proper.terms e inside).trans later.le
  · exact proper.committed
  · exact fun role => by cases role
  · intro _ _ p _ kept
    refine kept_in_later_term ?_ ?_ ?_ kept
    exacts [later, rfl, le_rfl]

/-- A node may become a follower in its term. -/
theorem NodeInv.stepDown : h.NodeInv x durable pending (some ⟨P, { V with role := .follower }⟩) := by
  have proper := inv.proper
  apply Faithful.follower _ rfl
  refine inv.faithful.move ⟨proper.path, proper.terms, proper.bounded, proper.committed, ?_⟩ ?_ ?_
  · exact fun role => by cases role
  · exact le_refl V.term
  · intro _ _ p _ kept
    refine kept_within_term ?_ ?_ ?_ ?_ ?_ ?_ kept
    exacts [rfl, rfl, le_rfl, Or.inr rfl, fun _ => rfl, fun role => by cases role]

/-- A node was not elected in a term above its own. -/
theorem NodeInv.not_elected_above (valid : h.Valid quorum) {e : Election ν ε} (member : e ∈ h.elections)
    (above : V.term < e.term) : e.leader ≠ x := by
  rintro rfl
  obtain ⟨log, n, vote⟩ := valid.leader_vote member
  have kept := inv.kept (p := .vote e.term e.leader log) ⟨n, vote⟩
  exact absurd kept.1 (by simpa using above)

/-- A node may start an election in the next term. -/
theorem NodeInv.campaign (valid : h.Valid quorum)
    (intersecting : Intersecting quorum) :
    h.NodeInv x durable pending (some ⟨P ∪ {.vote (V.term + 1) x V.log},
      ⟨V.term + 1, some x, .candidate, V.log, V.commit⟩⟩) := by
  have proper := inv.proper
  refine ⟨?_, ?_, ?_⟩
  · rw [stages_some]
    refine inv.faithful.act ⟨proper.path, ?_, proper.bounded, ?_, ?_⟩ (Nat.le_succ _) ?_ ?_ ?_ ?_ ?_ ?_
    · exact fun e inside => (proper.terms e inside).trans (Nat.le_succ _)
    · exact proper.committed
    · exact fun _ e inside => Nat.lt_succ_of_le (proper.terms e inside)
    · intro _ _ p _ kept
      refine kept_in_later_term ?_ ?_ ?_ kept
      exacts [Nat.lt_succ_self _, rfl, le_rfl]
    · rintro p rfl
      exact ⟨le_rfl, fun _ => ⟨rfl, fun _ => rfl⟩⟩
    · rintro p rfl
      exact ⟨proper.path, Or.inl rfl⟩
    · rintro p rfl
      exact Nat.le_succ _
    · rintro p rfl q sound kept
      apply proper.vote_compatible valid intersecting _ sound kept
      rintro c' log' ⟨le, -⟩
      omega
    · rintro p rfl q rfl
      exact fun _ => rfl
  · rintro s isLive role
    cases isLive
    cases role
  · rintro s isLive -
    cases isLive
    refine ⟨rfl, fun e member term => ?_, fun u inside term => ?_⟩
    · apply inv.not_elected_above valid member
      rw [term]
      exact Nat.lt_succ_self _
    · have : u.term ≤ V.term := inv.older_term inside
      have : u.term = V.term + 1 := term
      omega

/-- A node that may still vote for another node is a follower. -/
theorem NodeInv.follower_of_free (valid : h.Valid quorum) {c : ν} (other : c ≠ x)
    (free : V.vote = none ∨ V.vote = some c) : V.role = .follower := by
  have notSelf : V.vote ≠ some x := by
    rcases free with none | same
    · simp [none]
    · simpa [same] using other
  cases role : V.role with
  | follower => rfl
  | candidate => exact absurd (inv.campaigning _ rfl role).1 notSelf
  | leader =>
      obtain ⟨-, e, member, term, rfl, -⟩ := inv.leading _ rfl role
      obtain ⟨log, n, vote⟩ := valid.leader_vote member
      have kept := inv.kept (p := .vote e.term e.leader log) ⟨n, vote⟩
      exact absurd (kept.2 term).1 notSelf

/-- A node may vote for a candidate whose log is at least as complete as its own. -/
theorem NodeInv.grant (valid : h.Valid quorum) (intersecting : Intersecting quorum) {c : ν}
    (other : c ≠ x) (free : V.vote = none ∨ V.vote = some c) {own : List ε} {n : Nat}
    (request : h.votes c V.term c own n) (complete : UpToDate V.log own) :
    h.NodeInv x durable pending (some ⟨P ∪ {.vote V.term c V.log}, { V with vote := some c }⟩) := by
  have proper := inv.proper
  have role := inv.follower_of_free valid other free
  refine Faithful.follower (V := { V with vote := some c }) ?_ role
  refine inv.faithful.act ⟨proper.path, proper.terms, proper.bounded, proper.committed, proper.candidate⟩
    (le_refl V.term) ?_ ?_ ?_ ?_ ?_ ?_
  · intro _ _ p _ kept
    refine kept_within_term ?_ ?_ ?_ ?_ ?_ ?_ kept
    exacts [rfl, rfl, le_rfl, free.imp id Eq.symm, id, id]
  · rintro p rfl
    exact ⟨le_rfl, fun _ => ⟨rfl, fun _ => rfl⟩⟩
  · rintro p rfl
    exact ⟨proper.path, Or.inr ⟨own, n, request, complete⟩⟩
  · rintro p rfl
    exact le_rfl
  · rintro p rfl q sound kept
    apply proper.vote_compatible valid intersecting _ sound kept
    rintro c' log' ⟨-, same⟩
    have voted := (same rfl).1
    rcases free with none | some
    · rw [none] at voted
      cases voted
    · rw [some] at voted
      exact (Option.some.inj voted).symm
  · rintro p rfl q rfl
    exact fun _ => rfl

/-- A follower may take over a beginning of its leader's log that its own log conflicts with. -/
theorem NodeInv.follow (valid : h.Valid quorum) (role : V.role = .follower)
    (elected : h.Elected V.term) {n : Nat} (bounded : n ≤ (h.log V.term).length)
    (conflict : ¬ (h.log V.term).take n <+: V.log) (above : V.commit ≤ n)
    (agrees : V.log.take V.commit = (h.log V.term).take V.commit) :
    h.NodeInv x durable pending (some ⟨P, { V with log := (h.log V.term).take n }⟩) := by
  have proper := inv.proper
  refine Faithful.follower (V := { V with log := (h.log V.term).take n }) ?_ role
  refine inv.faithful.move ⟨?_, ?_, ?_, ?_, ?_⟩ (le_refl V.term) ?_
  · exact valid.path_take (valid.path_log V.term) n
  · exact fun e inside => valid.log_terms (List.mem_of_mem_take inside)
  · simp only [List.length_take]
    omega
  · simp only [List.take_take, min_eq_left above, ← agrees]
    exact proper.committed
  · intro candidate
    rw [role] at candidate
    cases candidate
  · intro _ _ p _ kept
    exact valid.kept_after_follow elected role bounded conflict kept

/-- A node may advance its commit index over a committed beginning of its log. -/
theorem NodeInv.advance {i : Nat} (up : V.commit ≤ i) (bounded : i ≤ V.log.length)
    (committed : h.Committed (V.log.take i)) :
    h.NodeInv x durable pending (some ⟨P, { V with commit := i }⟩) := by
  have proper := inv.proper
  refine inv.keep (inv.faithful.move ⟨proper.path, proper.terms, bounded, committed, proper.candidate⟩
    (le_refl V.term) ?_) ⟨rfl, rfl, rfl, rfl⟩
  intro _ _ p _ kept
  refine kept_within_term ?_ ?_ ?_ ?_ ?_ ?_ kept
  exacts [rfl, rfl, up, Or.inr rfl, id, id]

/-- A promise without a change of state. -/
theorem NodeInv.promise {p : Promise ν ε} (kept : h.Kept V p) (sound : h.Sound x p)
    (fresh : p.term = V.term)
    (compatible : ∀ q, h.Sound x q → h.Kept V q → h.Compatible p q ∧ h.Compatible q p) :
    h.NodeInv x durable pending (some ⟨P ∪ {p}, V⟩) := by
  refine inv.keep (inv.faithful.act inv.proper (le_refl V.term) (fun _ _ _ _ => id) ?_ ?_ ?_ ?_ ?_)
    ⟨rfl, rfl, rfl, rfl⟩
  · rintro q rfl
    exact kept
  · rintro q rfl
    exact sound
  · rintro q rfl
    exact fresh.ge
  · rintro q rfl
    exact compatible
  · rintro q rfl q' rfl
    exact (compatible _ sound kept).1

/-- A node may acknowledge what it has of the log of the leader of its term. -/
theorem NodeInv.ack (elected : h.Elected V.term) {i : Nat} (holds : h.Holds V.term i V.log) :
    h.NodeInv x durable pending (some ⟨P ∪ {.ack V.term i}, V⟩) :=
  inv.promise ⟨le_rfl, fun _ le => Or.inl (holds.of_le le), fun _ => holds⟩ elected rfl
    fun _ _ kept => kept.compatible_now rfl (by simp)

theorem NodeInv.floor (role : V.role = .follower)
    (elected : ∃ e ∈ h.elections, e.term = V.term ∧ e.leader ≠ x) {i : Nat} (low : i ≤ V.commit) :
    h.NodeInv x durable pending (some ⟨P ∪ {.floor V.term i}, V⟩) :=
  inv.promise ⟨le_rfl, low, fun _ => role⟩ elected rfl fun _ _ kept => kept.compatible_now rfl (by simp)

end Live

/-- A stopped node keeps its durable state and its visible promises. -/
theorem NodeInv.crash {live : Option (Stage ν ε)} (inv : h.NodeInv x durable pending live) :
    h.NodeInv x durable [] none := by
  have inOld : ∀ s ∈ h.stages x durable [] none, s ∈ h.stages x durable pending live := by
    intro s inside
    rw [stages, List.nil_append, Option.toList_none, List.mem_singleton] at inside
    rw [stages, inside]
    exact List.mem_cons_self
  refine ⟨⟨?_, ?_, ?_⟩, ?_, ?_⟩
  · exact fun s inside => inv.settled s (inOld s inside)
  · simp [stages]
  · exact fun s inS s' inS' => inv.compatible s (inOld s inS) s' (inOld s' inS')
  · rintro s isLive
    cases isLive
  · rintro s isLive
    cases isLive

/-- A stopped node restarts as a follower from its durable state. -/
theorem NodeInv.restart (inv : h.NodeInv x durable [] none) :
    h.NodeInv x durable [] (some ⟨∅, { durable with role := .follower }⟩) := by
  have proper := (inv.settled ⟨h.recorded x, durable⟩ (by simp [stages])).proper
  have single : h.Faithful x ([] ++ [⟨h.recorded x, durable⟩]) := inv.toFaithful
  refine Faithful.follower (single.copy ?_ rfl ?_) rfl
  · exact ⟨proper.path, proper.terms, proper.bounded, proper.committed, fun role => by cases role⟩
  · intro p kept
    refine kept_within_term ?_ ?_ ?_ ?_ ?_ ?_ kept
    exacts [rfl, rfl, le_rfl, Or.inr rfl, fun _ => rfl, fun role => by cases role]

/-- The state that a node will have after all of its pending writes. -/
def latest (durable : Replica ν ε) (pending : List (Stage ν ε)) : Replica ν ε :=
  ((pending.map Stage.replica).getLast?).getD durable

omit [Termed ε] in
@[simp] theorem latest_append (durable : Replica ν ε) (pending : List (Stage ν ε)) (s : Stage ν ε) :
    latest durable (pending ++ [s]) = s.replica := by
  simp [latest]

omit [Termed ε] in
@[simp] theorem latest_cons (durable : Replica ν ε) (pending : List (Stage ν ε)) (s : Stage ν ε) :
    latest durable (s :: pending) = latest s.replica pending := by
  simp [latest, List.getLast?_cons]

omit [Termed ε] in
/-- The last of the stages before the live one has the latest state. -/
theorem exists_latest (h : History ν ε) (x : ν) (durable : Replica ν ε) (pending : List (Stage ν ε)) :
    ∃ front Q, (⟨h.recorded x, durable⟩ :: pending : List (Stage ν ε)) =
      front ++ [⟨Q, latest durable pending⟩] := by
  rcases List.eq_nil_or_concat pending with rfl | ⟨front, s, rfl⟩
  · exact ⟨[], _, rfl⟩
  · refine ⟨⟨h.recorded x, durable⟩ :: front, s.promises, ?_⟩
    simp [latest]

omit [Termed ε] in
theorem latest_mem_older (durable : Replica ν ε) (pending : List (Stage ν ε)) :
    latest durable pending ∈ older durable pending := by
  rcases List.eq_nil_or_concat pending with rfl | ⟨front, s, rfl⟩ <;> simp [latest, older]

end RaftRs.Library.History

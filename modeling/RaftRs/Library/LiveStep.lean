import RaftRs.Library.Replica

namespace RaftRs.Library.History

open Termed

variable {ν ε : Type} [Termed ε] {quorum : Set ν → Prop} {h : History ν ε} {x : ν}
  {earlier : List (Stage ν ε)}

theorem Faithful.sound {stages : List (Stage ν ε)} (faithful : h.Faithful x stages) {s : Stage ν ε}
    (inside : s ∈ stages) {p : Promise ν ε} (promised : p ∈ s.promises) : h.Sound x p :=
  (faithful.settled s inside).sound p promised

/-- The last state keeps every promise of the node. -/
theorem Faithful.last_kept {last : Stage ν ε} (faithful : h.Faithful x (earlier ++ [last]))
    {s : Stage ν ε} (inside : s ∈ earlier ++ [last]) {p : Promise ν ε} (promised : p ∈ s.promises) :
    h.Kept last.replica p := by
  rcases List.mem_append.1 inside with before | isLast
  · exact ((List.pairwise_append.1 faithful.ordered).2.2 s before last (by simp)).kept p promised
  · rw [List.mem_singleton] at isLast
    subst isLast
    exact (faithful.settled s inside).kept p promised

theorem Faithful.last_term {last : Stage ν ε} (faithful : h.Faithful x (earlier ++ [last]))
    {s : Stage ν ε} (inside : s ∈ earlier) : s.replica.term ≤ last.replica.term :=
  ((List.pairwise_append.1 faithful.ordered).2.2 s inside last (by simp)).term

/-- The last state may change and make promises that fit the ones made before. -/
theorem Faithful.act {P new : Set (Promise ν ε)} {V V' : Replica ν ε}
    (faithful : h.Faithful x (earlier ++ [⟨P, V⟩])) (proper : h.Proper V')
    (term : V.term ≤ V'.term)
    (evolves : ∀ s ∈ earlier ++ [⟨P, V⟩], ∀ p ∈ s.promises, h.Kept V p → h.Kept V' p)
    (newKept : ∀ p ∈ new, h.Kept V' p) (newSound : ∀ p ∈ new, h.Sound x p)
    (newFresh : ∀ p ∈ new, V.term ≤ p.term)
    (newCompatible : ∀ p ∈ new, ∀ q, h.Sound x q → h.Kept V q → h.Compatible p q ∧ h.Compatible q p)
    (newTogether : ∀ p ∈ new, ∀ q ∈ new, h.Compatible p q) :
    h.Faithful x (earlier ++ [⟨P ∪ new, V'⟩]) := by
  have liveOld : (⟨P, V⟩ : Stage ν ε) ∈ earlier ++ [⟨P, V⟩] := by simp
  obtain ⟨ordered, -, toLast⟩ := List.pairwise_append.1 faithful.ordered
  -- A promise of the new stages is an old one or a new one.
  have origin : ∀ s ∈ earlier ++ [⟨P ∪ new, V'⟩], ∀ p ∈ s.promises,
      (∃ s' ∈ earlier ++ [⟨P, V⟩], p ∈ s'.promises) ∨ p ∈ new := by
    intro s inside p promised
    rw [List.mem_append, List.mem_singleton] at inside
    rcases inside with old | rfl
    · exact Or.inl ⟨s, List.mem_append_left _ old, promised⟩
    · exact promised.imp (fun promised => ⟨_, liveOld, promised⟩) id
  constructor
  · intro s inside
    rw [List.mem_append, List.mem_singleton] at inside
    rcases inside with old | rfl
    · exact faithful.settled s (List.mem_append_left _ old)
    · refine ⟨proper, ?_, ?_⟩
      · rintro p (promised | promised)
        · exact evolves _ liveOld p promised (faithful.last_kept liveOld promised)
        · exact newKept p promised
      · rintro p (promised | promised)
        · exact faithful.sound liveOld promised
        · exact newSound p promised
  · refine List.pairwise_append.2 ⟨ordered, List.pairwise_singleton _ _, ?_⟩
    intro s inside live isLive
    rw [List.mem_singleton] at isLive
    subst isLive
    have before := toLast s inside ⟨P, V⟩ (by simp)
    refine ⟨before.term.trans term, fun p promised => ?_, ?_⟩
    · exact evolves s (List.mem_append_left _ inside) p promised (before.kept p promised)
    · rintro p (promised | promised)
      · exact before.fresh p promised
      · exact before.term.trans (newFresh p promised)
  · intro s inS s' inS' p inP q inQ
    rcases origin s inS p inP with ⟨t, inT, isP⟩ | isNew
    · rcases origin s' inS' q inQ with ⟨t', inT', isQ⟩ | isNew'
      · exact faithful.compatible t inT t' inT' p isP q isQ
      · exact (newCompatible q isNew' p (faithful.sound inT isP) (faithful.last_kept inT isP)).2
    · rcases origin s' inS' q inQ with ⟨t', inT', isQ⟩ | isNew'
      · exact (newCompatible p isNew q (faithful.sound inT' isQ) (faithful.last_kept inT' isQ)).1
      · exact newTogether p isNew q isNew'

/-- The last state may change without a new promise. -/
theorem Faithful.move {P : Set (Promise ν ε)} {V V' : Replica ν ε}
    (faithful : h.Faithful x (earlier ++ [⟨P, V⟩])) (proper : h.Proper V')
    (term : V.term ≤ V'.term)
    (evolves : ∀ s ∈ earlier ++ [⟨P, V⟩], ∀ p ∈ s.promises, h.Kept V p → h.Kept V' p) :
    h.Faithful x (earlier ++ [⟨P, V'⟩]) := by
  have moved : h.Faithful x (earlier ++ [⟨P ∪ ∅, V'⟩]) :=
    faithful.act proper term evolves (by simp) (by simp) (by simp) (by simp) (by simp)
  rwa [Set.union_empty] at moved

/-- A stage may be followed by one of the same term that makes no promises and keeps those of the
stage. -/
theorem Faithful.copy {s : Stage ν ε} {later : List (Stage ν ε)} {W : Replica ν ε}
    (faithful : h.Faithful x (earlier ++ s :: later)) (proper : h.Proper W)
    (term : W.term = s.replica.term) (evolves : ∀ p, h.Kept s.replica p → h.Kept W p) :
    h.Faithful x (earlier ++ s :: ⟨∅, W⟩ :: later) := by
  obtain ⟨first, second, across⟩ := List.pairwise_append.1 faithful.ordered
  obtain ⟨toLater, rest⟩ := List.pairwise_cons.1 second
  have known : s ∈ earlier ++ s :: later := by simp
  have inside : ∀ u ∈ earlier ++ s :: ⟨∅, W⟩ :: later, u ∈ earlier ++ s :: later ∨ u = ⟨∅, W⟩ := by
    intro u member
    simp only [List.mem_append, List.mem_cons] at member ⊢
    tauto
  constructor
  · intro u member
    rcases inside u member with old | rfl
    · exact faithful.settled u old
    · exact ⟨proper, by simp, by simp⟩
  · refine List.pairwise_append.2 ⟨first, List.pairwise_cons.2 ⟨?_, List.pairwise_cons.2 ⟨?_, rest⟩⟩, ?_⟩
    · intro u member
      rcases List.mem_cons.1 member with rfl | old
      · exact ⟨term.ge,
          fun p promised => evolves p ((faithful.settled s known).kept p promised), by simp⟩
      · exact toLater u old
    · intro u member
      have before := toLater u member
      exact ⟨term.le.trans before.term, by simp,
        fun p promised => term.le.trans (before.fresh p promised)⟩
    · intro u inEarlier v member
      simp only [List.mem_cons] at member
      rcases member with rfl | rfl | old
      · exact across u inEarlier v (by simp)
      · have before := across u inEarlier s (by simp)
        exact ⟨before.term.trans term.ge, fun p promised => evolves p (before.kept p promised), by simp⟩
      · exact across u inEarlier v (by simp [old])
  · intro u inU v inV p inP q inQ
    rcases inside u inU with oldU | rfl
    · rcases inside v inV with oldV | rfl
      · exact faithful.compatible u oldU v oldV p inP q inQ
      · exact absurd inQ (Set.notMem_empty q)
    · exact absurd inP (Set.notMem_empty p)

/-- Two successive stages may be merged into the later one. -/
theorem Faithful.merge {s s' : Stage ν ε} {later : List (Stage ν ε)}
    (faithful : h.Faithful x (s :: s' :: later)) :
    h.Faithful x (⟨s.promises ∪ s'.promises, s'.replica⟩ :: later) := by
  obtain ⟨fromFirst, rest⟩ := List.pairwise_cons.1 faithful.ordered
  obtain ⟨fromSecond, last⟩ := List.pairwise_cons.1 rest
  have first := faithful.settled s (by simp)
  have second := faithful.settled s' (by simp)
  -- A promise of the merged stages was a promise of one of the old ones.
  have origin : ∀ u ∈ (⟨s.promises ∪ s'.promises, s'.replica⟩ :: later : List (Stage ν ε)),
      ∀ p ∈ u.promises, ∃ u' ∈ s :: s' :: later, p ∈ u'.promises := by
    intro u member p promised
    rcases List.mem_cons.1 member with rfl | old
    · rcases promised with promised | promised
      · exact ⟨s, by simp, promised⟩
      · exact ⟨s', by simp, promised⟩
    · exact ⟨u, by simp [old], promised⟩
  constructor
  · intro u member
    rcases List.mem_cons.1 member with rfl | old
    · refine ⟨second.proper, ?_, ?_⟩
      · rintro p (promised | promised)
        · exact (fromFirst s' (by simp)).kept p promised
        · exact second.kept p promised
      · rintro p (promised | promised)
        · exact first.sound p promised
        · exact second.sound p promised
    · exact faithful.settled u (by simp [old])
  · refine List.pairwise_cons.2 ⟨fun u member => ?_, last⟩
    refine ⟨(fromSecond u member).term, ?_, (fromSecond u member).fresh⟩
    rintro p (promised | promised)
    · exact (fromFirst u (by simp [member])).kept p promised
    · exact (fromSecond u member).kept p promised
  · intro u inU v inV p inP q inQ
    obtain ⟨u', inU', isP⟩ := origin u inU p inP
    obtain ⟨v', inV', isQ⟩ := origin v inV q inQ
    exact faithful.compatible u' inU' v' inV' p isP q isQ

omit [Termed ε] in
/-- A change within a term keeps every promise when it keeps the log, the vote and the role of a
follower. -/
theorem kept_within_term {V V' : Replica ν ε} (term : V'.term = V.term) (log : V'.log = V.log)
    (commit : V.commit ≤ V'.commit) (vote : V.vote = none ∨ V'.vote = V.vote)
    (follower : V.role = .follower → V'.role = .follower)
    (candidate : V'.role = .candidate → V.role = .candidate) {p : Promise ν ε} (kept : h.Kept V p) :
    h.Kept V' p := by
  cases p with
  | ack t i =>
      obtain ⟨le, covered, same⟩ := kept
      refine ⟨by omega, ?_, ?_⟩
      · rw [log]
        exact covered
      · rw [log, term]
        exact same
  | floor t i =>
      obtain ⟨le, low, same⟩ := kept
      exact ⟨by omega, low.trans commit, fun now => follower (same (by omega))⟩
  | vote t c lg =>
      obtain ⟨le, same⟩ := kept
      refine ⟨by omega, fun now => ?_⟩
      obtain ⟨voted, whole⟩ := same (by omega)
      refine ⟨?_, fun role => log ▸ whole (candidate role)⟩
      rcases vote with none | unchanged
      · rw [none] at voted
        cases voted
      · rw [unchanged, voted]

omit [Termed ε] in
/-- A later term keeps every promise when the log is kept. -/
theorem kept_in_later_term {V V' : Replica ν ε} (term : V.term < V'.term) (log : V'.log = V.log)
    (commit : V.commit ≤ V'.commit) {p : Promise ν ε} (kept : h.Kept V p) : h.Kept V' p := by
  cases p with
  | ack t i =>
      obtain ⟨le, covered, -⟩ := kept
      refine ⟨by omega, ?_, fun now => by omega⟩
      rw [log]
      exact covered
  | floor t i =>
      obtain ⟨le, low, -⟩ := kept
      exact ⟨by omega, low.trans commit, fun now => by omega⟩
  | vote t c lg =>
      obtain ⟨le, -⟩ := kept
      exact ⟨by omega, fun now => by omega⟩

/-- A follower that takes over the log of its leader keeps what it has of earlier leaders or is
excused. -/
theorem Valid.holds_after_follow (valid : h.Valid quorum) {t n : Nat} (elected : h.Elected t)
    (bounded : n ≤ (h.log t).length) {log : List ε} (conflict : ¬ (h.log t).take n <+: log) {s j : Nat}
    (le : s ≤ t) (holds : h.Holds s j log) :
    h.Holds s j ((h.log t).take n) ∨ (s < t ∧ h.Excused s j) := by
  by_cases common : h.Holds s j (h.log t)
  · left
    have agree : (h.log s).take j = (h.log t).take j := common.take_eq.symm
    have short : j ≤ n := by
      by_contra long
      apply conflict
      apply List.IsPrefix.trans _ holds.2
      rw [agree]
      exact List.take_prefix_take_left (by omega)
    refine ⟨holds.1, ?_⟩
    rw [agree]
    exact List.take_prefix_take_left short
  · right
    obtain ⟨e, member, rfl⟩ := elected
    have lower : s < e.term := by
      rcases le.eq_or_lt with rfl | lower
      · exact absurd ⟨holds.1, List.take_prefix _ _⟩ common
      · exact lower
    refine ⟨lower, e, member, lower, fun inBase => common ?_⟩
    exact inBase.of_start (valid.base_start member)

/-- A follower that takes over the log of its leader keeps every promise. -/
theorem Valid.kept_after_follow (valid : h.Valid quorum) {V : Replica ν ε} {n : Nat}
    (elected : h.Elected V.term) (role : V.role = .follower) (bounded : n ≤ (h.log V.term).length)
    (conflict : ¬ (h.log V.term).take n <+: V.log) {p : Promise ν ε} (kept : h.Kept V p) :
    h.Kept { V with log := (h.log V.term).take n } p := by
  cases p with
  | ack t i =>
      obtain ⟨le, covered, same⟩ := kept
      refine ⟨le, fun j below => ?_, fun now => ?_⟩
      · rcases covered j below with holds | excused
        · exact (valid.holds_after_follow elected bounded conflict le holds).imp id And.right
        · exact Or.inr excused
      · rcases valid.holds_after_follow elected bounded conflict le (same now) with holds | ⟨lower, -⟩
        · exact holds
        · exact absurd now lower.ne
  | floor t i => exact kept
  | vote t c lg =>
      obtain ⟨le, same⟩ := kept
      refine ⟨le, fun now => ⟨(same now).1, fun candidate => ?_⟩⟩
      rw [role] at candidate
      cases candidate

end RaftRs.Library.History

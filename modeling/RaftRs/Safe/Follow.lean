import RaftRs.Safe.Send

namespace RaftRs

open Library

variable {cs : ConfState} {h : History Nat Entry} {x : Nat} {durable V V' : Replica Nat Entry}
  {pending : List (Stage Nat Entry)} {P P' : Set (Promise Nat Entry)} {inp : Input → Prop}
    {c c' : Core} {m : Message}

theorem Recounts.committed_path (recounts : Recounts cs h) {log : List Entry}
    (committed : h.Committed log) :
    h.Path log := by
  rcases committed with rfl | ⟨t, i, -, begins⟩
  · exact History.path_nil h
  · exact recounts.valid.path_of_start (recounts.valid.path_take (recounts.valid.path_log t) i) begins

/-- An accepted append follows a matching position. -/
theorem RaftLog.maybeAppend_matches {log log' : RaftLog} {idx term committed : Nat} {ents : List Entry}
    {result : Nat × Nat} (done : log.maybeAppend idx term committed ents = .ok (log', some result)) :
    log.matchTerm idx term = true := by
  unfold RaftLog.maybeAppend at done
  split at done
  next agrees => exact agrees
  · cases done

namespace Core

section Lives

variable (lives : c.Lives cs h x durable pending P V)

include lives

/-- A node that follows after a change of its replica. -/
theorem Lives.follower (inv : h.NodeInv x durable pending (some ⟨P', V'⟩)) (more : P ⊆ P')
    (picture : c'.Pictures V') (up : V.commit ≤ V'.commit) (store : c.log.store.Same c'.log.store)
    (same : c'.id = c.id ∧ c'.msgs = c.msgs)
    (still : c'.pendingRequestSnapshot = invalidIndex ∧ c'.batchAppend = c.batchAppend)
    (candidate : c'.state ≠ .candidate) (leader : c'.state ≠ .leader) :
    c'.Lives cs h x durable pending P' V' := by
  have mirrors := lives.mirrors
  refine ⟨lives.recounts, inv, same.1.trans mirrors.named, picture, mirrors.stored.same store,
    mirrors.saved.trans up, same.2 ▸ mirrors.means, fun m inside => ?_,
      fun role => absurd role leader, fun role => absurd role candidate,
    still.1, still.2.trans mirrors.unbatched⟩
  rw [same.2] at inside
  exact (mirrors.queue m inside).mono (Set.union_subset_union_right _ more)

/-- A node that enters a later term continues the history. -/
theorem Lives.bump {T : Nat} (later : c.term < T) :
    (c.asFollower T).Lives cs h x durable pending P ⟨T, none, .follower, V.log, V.commit⟩ := by
  have picture := lives.mirrors.picture
  refine lives.follower (lives.inv.bump (by rwa [picture.term])) (Set.Subset.refl _)
    ⟨rfl, ?_, rfl, picture.log.mark _ _ 0, picture.commit⟩ le_rfl (.of_eq rfl) ⟨rfl, rfl⟩
      ⟨lives.mirrors.unasked, rfl⟩ (by simp [asFollower]) (by simp [asFollower])
  have vote : (c.asFollower T).vote = invalidId := if_neg later.ne
  rw [vote, voteFor, if_pos rfl]

theorem Lives.stepDown :
    (c.asFollower c.term).Lives cs h x durable pending P { V with role := .follower } := by
  have picture := lives.mirrors.picture
  refine lives.follower lives.inv.stepDown (Set.Subset.refl _)
    ⟨picture.term, ?_, rfl, picture.log.mark _ _ 0, picture.commit⟩ le_rfl (.of_eq rfl) ⟨rfl, rfl⟩
      ⟨lives.mirrors.unasked, rfl⟩ (by simp [asFollower]) (by simp [asFollower])
  have vote : (c.asFollower c.term).vote = c.vote := if_pos rfl
  rw [vote]
  exact picture.vote

theorem Lives.preCampaign :
    c.asPreCandidate.Lives cs h x durable pending P { V with role := .follower } := by
  have picture := lives.mirrors.picture
  exact lives.follower lives.inv.stepDown (Set.Subset.refl _)
    ⟨picture.term, picture.vote, rfl, picture.log, picture.commit⟩ le_rfl (.of_eq rfl) ⟨rfl, rfl⟩
    ⟨lives.mirrors.unasked, rfl⟩ (by simp [asPreCandidate]) (by simp [asPreCandidate])

/-- A node that campaigns votes for itself in the next term. -/
theorem Lives.campaign (several : cs.NoSingleton) (positive : x ≠ invalidId) :
    c.asCandidate.Lives cs h x durable
    pending (P ∪ {.vote (V.term + 1) x V.log}) ⟨V.term + 1, some x, .candidate, V.log, V.commit⟩ := by
  have mirrors := lives.mirrors
  have picture := mirrors.picture
  have inv := lives.inv.campaign lives.recounts.valid several.intersecting
  refine ⟨lives.recounts, inv, mirrors.named,
    ⟨congrArg (· + 1) picture.term, ?_, rfl, picture.log, picture.commit⟩, mirrors.stored,
      mirrors.saved, mirrors.means, fun m inside => ?_, by simp [asCandidate], fun _ issued => ?_, rfl,
    mirrors.unbatched⟩
  · show some x = voteFor c.id
    rw [mirrors.named, voteFor, if_neg positive]
  · exact (mirrors.queue m inside).mono (Set.union_subset_union_right _ Set.subset_union_left)
  · -- No vote of the next term has been issued.
    obtain ⟨log, voted⟩ := issued
    have kept := (lives.kept voted).1
    rw [picture.term] at kept
    exact absurd kept (Nat.not_succ_le_self _)

/-- A node that advances its commit index over a committed beginning lives on; a leader has to
decide it. -/
theorem Lives.advance (recounts : Recounts cs h') (inv : h'.NodeInv x durable pending (some ⟨P, V⟩))
    (ext : h.Extends h') (recorded : h'.recorded x = h.recorded x) {i : Nat} (up : c.log.committed ≤ i)
    (bounded : i ≤ V.log.length) (committed : h'.Committed (V.log.take i))
    (decides : c.state = .leader → h'.Decides c.term i) :
    { c with log := { c.log with committed := i } }.Lives cs h' x durable pending P { V with
      commit := i } := by
  have mirrors := lives.mirrors
  have picture := mirrors.picture
  have view := picture.log.commit up (by rwa [← mirrors.length])
  have low : V.commit ≤ i := by rwa [picture.commit]
  refine ⟨recounts, inv.advance low bounded committed, mirrors.named,
    ⟨picture.term, picture.vote, picture.role, view, rfl⟩, mirrors.stored, mirrors.saved.trans low,
      fun m inside => (mirrors.means m inside).mono ext, ?_, fun role => ?_, ?_,
    mirrors.unasked, mirrors.unbatched⟩
  · rw [recorded]
    exact mirrors.queue
  · have rules := mirrors.rules role
    refine ⟨?_, fun id pos known => (rules.positions id pos known).mono ext, ?_, decides role⟩
    · rw [recorded]
      exact rules.queue
    · exact fun ctx status found => (rules.reads ctx status found).trans up
  · intro role issued
    refine mirrors.campaigns role (issued.imp fun log cast => cast.imp_left fun visible => ?_)
    rwa [recorded] at visible

/-- A node other than a leader that advances its commit index over a committed beginning lives
on. -/
theorem Lives.commit (role : c.state ≠ .leader) {i : Nat} (up : c.log.committed ≤ i)
    (bounded : i ≤ V.log.length) (committed : h.Committed (V.log.take i)) :
    { c with log := { c.log with committed := i } }.Lives cs h x durable pending P { V with
      commit := i } :=
  lives.advance lives.recounts lives.inv (.refl h) rfl up bounded committed
    fun leads => absurd leads role

/-- What a node has acknowledged to its leader it may commit. -/
theorem Lives.acked_committed {i j : Nat} (announced : Announces h c.term i) (le : i ≤ j)
    (acked : h.Acked x c.term j) : i ≤ V.log.length ∧ h.Committed (V.log.take i) := by
  have proper := lives.inv.proper
  rcases acked with acked | floor
  · have kept := lives.inv.kept (p := .ack c.term j) acked
    have holds := (kept.2.2 lives.mirrors.picture.term.symm).of_le le
    refine ⟨holds.length_le, ?_⟩
    rw [holds.take_eq]
    exact announced.2
  · have kept := lives.inv.kept (p := .floor c.term j) floor
    have low : i ≤ V.commit := le.trans kept.2.1
    exact ⟨low.trans proper.bounded, proper.committed.of_start (List.take_prefix_take_left low)⟩

/-- A node that commits up to an index at most continues the history. -/
theorem Lives.commitTo (role : c.state = .follower) {i : Nat} {log : RaftLog}
    (done : c.log.commitTo i = .ok log) (committed : c.log.committed < i → h.Committed (V.log.take i)) :
    { c with log }.Continues cs h x durable pending := by
  obtain ⟨rfl, inside, -⟩ := lives.mirrors.picture.log.commitTo done
  have proper := lives.inv.proper
  rcases Nat.lt_or_ge c.log.committed i with up | old
  · rw [max_eq_right up.le]
    exact (lives.commit (by simp [role]) up.le (inside up) (committed up)).continues
  · rw [max_eq_left old]
    exact lives.continues

theorem Lives.take_eq {t i : Nat} (inLeader : i ≤ (h.log t).length) (inside : i ≤ V.log.length)
    (term : termAt V.log i = termAt (h.log t) i) : V.log.take i = (h.log t).take i :=
  (lives.recounts.matching lives.inv.proper.path t i ⟨inLeader, inside, term.symm⟩).symm

/-- A heartbeat moves the commit index of a node that continues the history. -/
theorem Lives.heartbeat {log : RaftLog} (credible : m.Credible h x) (kind : m.msgType = .msgHeartbeat)
    (hears : c.Hears m) (role : c.state = .follower) (done : c.log.commitTo m.commit = .ok log) :
    { c with log }.Continues cs h x durable pending := by
  obtain ⟨same, -⟩ := lives.heard_leader credible (.inr (.inl kind)) hears
  obtain ⟨receiver, means, -⟩ := credible.sent (by simp [kind])
  have announced := means.commit (.inr kind)
  rw [same] at announced
  refine lives.commitTo role done fun up => ?_
  rcases means.heartbeat kind with zero | ⟨j, le, acked⟩
  · omega
  · rw [receiver, same] at acked
    exact (lives.acked_committed announced le acked).2

/-- A snapshot of a leader has a term unless it stands at the start of the log. -/
theorem Lives.snapshot_term (credible : m.Credible h x) (kind : m.msgType = .msgSnapshot)
    (nonzero : m.snapshot.metadata.index ≠ 0) : m.snapshot.metadata.term ≠ 0 := by
  obtain ⟨-, means, -⟩ := credible.sent (by simp [kind])
  obtain ⟨announced, term⟩ := means.snapshot kind
  intro zero
  exact nonzero ((lives.recounts.ordered m.term).eq_zero announced.1 (term.trans zero))

/-- A snapshot that a node has already moves its commit index. -/
theorem Lives.fastForward {log : RaftLog} (credible : m.Credible h x) (kind : m.msgType = .msgSnapshot)
    (role : c.state = .follower)
    (agrees : c.log.matchTerm m.snapshot.metadata.index m.snapshot.metadata.term = true)
    (done : c.log.commitTo m.snapshot.metadata.index = .ok log) :
    { c with log }.Continues cs h x durable pending := by
  obtain ⟨-, means, -⟩ := credible.sent (by simp [kind])
  obtain ⟨announced, term⟩ := means.snapshot kind
  refine lives.commitTo role done fun up => ?_
  have nonzero := lives.snapshot_term credible kind (by omega)
  obtain ⟨inside, same⟩ := lives.mirrors.picture.log.matched agrees nonzero
  rw [lives.take_eq announced.1 inside (same.trans term.symm)]
  exact announced.2

/-- A commit index that moves by a committed position. -/
theorem Lives.maybeCommit (role : c.state ≠ .leader) {i t : Nat} {log : RaftLog}
    (done : c.log.maybeCommit i t = .ok (log, true))
    (committed : i ≤ V.log.length → termAt V.log i = t → h.Committed (V.log.take i)) :
    { c with log }.Continues cs h x durable pending := by
  obtain ⟨rfl, up, inside, term, -⟩ := lives.mirrors.picture.log.maybeCommit done
  exact (lives.commit role up.le inside (committed inside term)).continues

/-- The commit position of a message of an election moves the commit index. -/
theorem Lives.commitByVote {log : RaftLog} (credible : m.Credible h x)
    (kind : m.IsVoteRequest ∨ m.IsVoteResponse) (role : c.state ≠ .leader) (nonzero : m.commitTerm ≠ 0)
    (done : c.log.maybeCommit m.commit m.commitTerm = .ok (log, true)) :
    { c with log }.Continues cs h x durable pending := by
  obtain ⟨-, means, -⟩ :=
    credible.sent (by rcases kind with (kind | kind) | (kind | kind) <;> simp [kind])
  obtain ⟨known, committed, length, last⟩ := means.vote kind nonzero
  refine lives.maybeCommit role done fun inside term => ?_
  have path := lives.recounts.valid.path_take lives.inv.proper.path m.commit
  have same : V.log.take m.commit = known := by
    refine History.path_ext path (lives.recounts.committed_path committed) ?_ (term.trans last.symm)
    rw [List.length_take, min_eq_left inside, length]
  rwa [same]

/-- An answered read moves the commit index. -/
theorem Lives.commitByRead {log : RaftLog} (credible : m.Credible h x)
    (kind : m.msgType = .msgReadIndexResp) (role : c.state ≠ .leader)
    (done : c.log.maybeCommit m.index m.term = .ok (log, true)) :
    { c with log }.Continues cs h x durable pending := by
  obtain ⟨-, means, -⟩ := credible.sent (by simp [kind])
  refine lives.maybeCommit role done fun inside term => ?_
  have path := lives.recounts.valid.path_take lives.inv.proper.path m.index
  have term : lastTerm (V.log.take m.index) = m.term := term
  rw [History.Path, term, List.length_take, min_eq_left inside] at path
  rw [path]
  exact (means.read kind).2

/-- An append that a node accepts is a part of its leader's log. -/
theorem Lives.accepts_slice (credible : m.Credible h x) (kind : m.msgType = .msgAppend)
    (hears : c.Hears m) (above : c.log.committed ≤ m.index)
    (agrees : c.log.matchTerm m.index m.logTerm = true) :
    SliceOf (h.log c.term) m := by
  obtain ⟨same, -⟩ := lives.heard_leader credible (.inl kind) hears
  obtain ⟨receiver, means, -⟩ := credible.sent (by simp [kind])
  have view := lives.mirrors.picture.log
  rcases means.append kind with slice | ⟨none, zero, j, le, acked⟩
  · exact same ▸ slice
  · -- The node has the probed index, and only the start of a log has no term.
    rw [receiver, same] at acked
    have inside : m.index ≤ V.log.length := by
      rcases acked with acked | floor
      · have kept := lives.inv.kept (p := .ack c.term j) acked
        exact le.trans (kept.2.2 lives.mirrors.picture.term.symm).length_le
      · have kept := lives.inv.kept (p := .floor c.term j) floor
        exact le.trans (kept.2.1.trans lives.inv.proper.bounded)
    have known := view.known lives.mirrors.anchored above (by rwa [← lives.mirrors.length])
    rw [zero] at agrees
    have untermed : termAt V.log m.index = 0 := by simpa [RaftLog.matchTerm, known] using agrees
    have first := (lives.recounts.ordered_path lives.inv.proper.path).eq_zero inside untermed
    exact ⟨by simp [first, none], by rw [zero, first]; rfl, by simp [none]⟩

/-- A node that matches the position of an append has the leader's log up to it. -/
theorem Lives.accepts_common (slice : SliceOf (h.log c.term) m) (above : c.log.committed ≤ m.index)
    (agrees : c.log.matchTerm m.index m.logTerm = true) : Common (h.log c.term) V.log m.index := by
  rw [slice.term] at agrees
  exact (lives.mirrors.picture.log.matchTerm_common lives.mirrors.anchored
    (lives.recounts.ordered _) above
    ((Nat.le_add_right _ _).trans slice.inside)).1 agrees

/-- A node takes over the entries of an append whose position it matches. -/
theorem Lives.accepts (slice : SliceOf (h.log c.term) m)
    (above : c.log.committed ≤ m.index) (agrees : c.log.matchTerm m.index m.logTerm = true) :
    ∃ mid whole, c.log.maybeAppend m.index m.logTerm m.commit m.entries =
        .ok ({ mid with committed := max c.log.committed (min m.commit (m.index + m.entries.length)) },
          some (c.log.findConflict m.entries, m.index + m.entries.length)) ∧
      RaftLog.Takes (h.log c.term) V.log c.log (m.index + m.entries.length) mid whole ∧
      RaftLog.Tracks (h.log c.term) whole
        { mid with committed := max c.log.committed (min m.commit (m.index + m.entries.length)) } := by
  have recounts := lives.recounts
  have matching := recounts.matching lives.inv.proper.path c.term
  have common := lives.accepts_common slice above agrees
  have tracks : RaftLog.Tracks (h.log c.term) V.log c.log :=
    ⟨lives.mirrors.picture.log, lives.mirrors.anchored, matching, (matching.agree common).mono above⟩
  exact tracks.accepts (recounts.ordered _) (recounts.numbered _) slice above common

/-- A follower that accepts an append acknowledges the log of its leader. -/
theorem Lives.accept {log : RaftLog} {conflict last : Nat} (credible : m.Credible h x)
    (kind : m.msgType = .msgAppend) (hears : c.Hears m) (role : c.state = .follower)
    (above : c.log.committed ≤ m.index)
    (done : c.log.maybeAppend m.index m.logTerm m.commit m.entries = .ok (log, some (conflict, last))) :
    ({ c with log }.push (c.ackFor m last log.committed)).Continues cs h x durable pending := by
  have agrees := RaftLog.maybeAppend_matches done
  have slice := lives.accepts_slice credible kind hears above agrees
  have recounts := lives.recounts
  have picture := lives.mirrors.picture
  obtain ⟨same, leader⟩ := lives.heard_leader credible (.inl kind) hears
  obtain ⟨-, means, -⟩ := credible.sent (by simp [kind])
  have announced := means.commit (.inl kind)
  rw [same] at announced
  have elected : h.Elected V.term := by
    obtain ⟨e, member, term, -⟩ := leader
    exact ⟨e, member, term⟩
  have agree :=
    (recounts.matching lives.inv.proper.path c.term).agree (lives.accepts_common slice above agrees)
  obtain ⟨mid, whole, accepted, takes, next⟩ := lives.accepts slice above agrees
  obtain ⟨rfl, found⟩ := ok_pair_inj (done.symm.trans accepted)
  obtain ⟨-, rfl⟩ := Prod.mk.inj (Option.some.inj found)
  have reached := takes.agree slice.inside
  have follows : V.role = .follower := by rw [picture.role, role]; rfl
  -- The node takes over the leader's log, commits in it and acknowledges it.
  have spliced : h.NodeInv x durable pending (some ⟨P, { V with log := whole }⟩) := by
    cases takes with
    | same => exact lives.inv
    | overwrite differs =>
        rw [← picture.term] at slice differs agree ⊢
        refine lives.inv.follow recounts.valid follows elected slice.inside ?_ ?_ ?_
        · rintro ⟨rest, same⟩
          refine differs ⟨slice.inside, ?_, ?_⟩
          · rw [← same, List.length_append, List.length_take, min_eq_left slice.inside]
            exact Nat.le_add_right _ _
          · rw [← same,
              List.take_append_of_le_length (by rw [List.length_take, min_eq_left slice.inside]),
                List.take_take, min_self]
        · rw [picture.commit]
          exact above.trans (Nat.le_add_right _ _)
        · rw [picture.commit]
          exact (agree.mono above).2.2.symm
  have moved : h.NodeInv x durable pending (some ⟨P, { V with
      log := whole, commit := max c.log.committed (min m.commit (m.index + m.entries.length)) }⟩) := by
    have proper := spliced.proper
    refine spliced.advance (by rw [picture.commit]; exact le_max_left _ _) ?_ ?_
    · rw [next.shows.length]
      exact next.shows.wf.high
    · rcases le_total c.log.committed (min m.commit (m.index + m.entries.length)) with up | old
      · rw [max_eq_right up, ← (reached.mono (min_le_right _ _)).2.2]
        exact (announced.of_le (min_le_left _ _)).2
      · rw [max_eq_left old, ← picture.commit]
        exact proper.committed
  have acked := moved.ack elected (i := m.index + m.entries.length) (by
    rw [← picture.term] at reached
    exact History.holds_of_take_eq reached.1 reached.2.2.symm)
  have changed : { c with log := { mid with
      committed := max c.log.committed (min m.commit (m.index + m.entries.length)) } }.Lives cs h x
        durable pending P _ :=
    lives.follower moved (Set.Subset.refl _) ⟨picture.term, picture.vote, picture.role, next.shows, rfl⟩
      (by rw [picture.commit]; exact le_max_left _ _)
      (.of_eq (by rw [(RaftLog.rooted_maybeAppend done).store])) ⟨rfl, rfl⟩
        ⟨lives.mirrors.unasked, rfl⟩ (by simp [role])
      (by simp [role])
  refine (changed.push Set.subset_union_left acked ?_ ⟨?_, ?_,
    fun _ _ _ => ⟨lives.mirrors.named, .inl ?_⟩⟩ ?_
    ?_).continues
  · refine Message.means_response (.inl rfl) ?_ rfl
    have other := credible.other (.inl (.inl kind))
    rw [← lives.mirrors.named] at other
    exact other
  · simp [Core.ackFor]
  · simp [Core.ackFor]
  · rw [picture.term]
    exact .inr (.inr rfl)
  · simp [role]
  · simp [role]

/-- A follower that restores a snapshot takes over the committed log of its leader. -/
theorem Lives.restore (several : cs.NoSingleton) {log : RaftLog}
    {conf : Configuration} {positions : Nat → Option Position} {votes : Nat → Option Bool}
    {promotable : Bool} (credible : m.Credible h x) (kind : m.msgType = .msgSnapshot)
    (hears : c.Hears m) (role : c.state = .follower)
    (fails : c.log.matchTerm m.snapshot.metadata.index m.snapshot.metadata.term = false)
    (done : c.log.restore m.snapshot = .ok log) :
    ({ c with log, conf, positions, votes, promotable, pendingRequestSnapshot := invalidIndex }.push
      (c.ackFor m log.lastIndex 0)).Continues cs h x durable pending := by
  have picture := lives.mirrors.picture
  have proper := lives.inv.proper
  obtain ⟨same, leader⟩ := lives.heard_leader credible (.inr (.inr kind)) hears
  obtain ⟨-, means, -⟩ := credible.sent (by simp [kind])
  obtain ⟨announced, term⟩ := means.snapshot kind
  rw [same, ← picture.term] at announced term
  have elected : h.Elected V.term := by
    obtain ⟨e, member, term, -⟩ := leader
    exact ⟨e, member, term⟩
  have length : ((h.log V.term).take m.snapshot.metadata.index).length = m.snapshot.metadata.index := by
    rw [List.length_take, min_eq_left announced.1]
  obtain ⟨above, committed, shows⟩ := picture.log.restore done length term
  have follows : V.role = .follower := by rw [picture.role, role]; rfl
  have low : V.commit ≤ m.snapshot.metadata.index := by rwa [picture.commit]
  have conflict : ¬ (h.log V.term).take m.snapshot.metadata.index <+: V.log := by
    intro begins
    have inside : m.snapshot.metadata.index ≤ V.log.length := length ▸ begins.length_le
    refine picture.log.unmatched lives.mirrors.anchored above fails inside ?_
    have same := List.prefix_iff_eq_take.1 begins
    rw [length] at same
    rw [termAt, ← same]
    exact term
  have agrees : V.log.take V.commit = (h.log V.term).take V.commit := by
    have both :=
      lives.recounts.valid.committed_take_eq several.intersecting proper.committed announced.2
        (i := V.commit)
      (by rw [List.length_take, min_eq_left proper.bounded]) (by rwa [length])
    rwa [List.take_take, min_self, List.take_take, min_eq_left low] at both
  have taken := lives.inv.follow lives.recounts.valid follows elected announced.1 conflict low agrees
  have moved := taken.advance (i := m.snapshot.metadata.index) low length.ge (by
    simp only [List.take_take, min_self]
    exact announced.2)
  have acked := moved.ack elected (i := m.snapshot.metadata.index) ⟨announced.1, List.prefix_refl _⟩
  have changed : { c with
      log, conf, positions, votes, promotable, pendingRequestSnapshot := invalidIndex }.Lives cs h x
      durable pending P _ :=
    lives.follower moved (Set.Subset.refl _) ⟨picture.term, picture.vote, picture.role, shows,
      committed.symm⟩ low
      (.of_eq (RaftLog.restore_rest done).1) ⟨rfl, rfl⟩ ⟨rfl, rfl⟩ (by simp [role]) (by simp [role])
  refine (changed.push Set.subset_union_left acked ?_ ⟨?_, ?_,
    fun _ _ _ => ⟨lives.mirrors.named, .inl ?_⟩⟩ ?_
    ?_).continues
  · refine Message.means_response (.inl rfl) ?_ rfl
    have other := credible.other (.inl (.inr (.inr kind)))
    rw [← lives.mirrors.named] at other
    exact other
  · simp [Core.ackFor]
  · simp [Core.ackFor]
  · rw [picture.term]
    have last : log.lastIndex = m.snapshot.metadata.index := by rw [← shows.length, length]
    simp only [Core.ackFor, last]
    exact .inr (.inr rfl)
  · simp [role]
  · simp [role]

/-- A node that grants a vote promises it. -/
theorem Lives.grant (several : cs.NoSingleton) (credible : m.Credible h x)
    (kind : m.msgType = .msgRequestVote) (term : m.term = c.term) (candidate : m.fromId ≠ invalidId)
    (free : c.vote = m.fromId ∨ c.vote = invalidId)
    (complete : c.log.isUpToDate m.index m.logTerm = .ok true) :
    ({ c with vote := m.fromId }.push { msgType := .msgRequestVoteResponse, toId := m.fromId,
                                        fromId := c.id
                                        term := m.term }).Continues cs h x durable pending := by
  have picture := lives.mirrors.picture
  have valid := lives.recounts.valid
  have other : m.fromId ≠ x := credible.other (.inr (.inl (.inl kind)))
  obtain ⟨-, -, backed⟩ := credible.sent (by simp [kind])
  obtain ⟨-, own, ⟨n, request⟩, length, last⟩ := backed.request kind
  have free : V.vote = none ∨ V.vote = some m.fromId := by
    rw [picture.vote]
    rcases free with same | unset
    · exact .inr (by rw [same, voteFor, if_neg candidate])
    · exact .inl (by rw [unset, voteFor, if_pos rfl])
  rw [term, ← picture.term] at request
  rw [← length, ← last] at complete
  have follows := lives.inv.follower_of_free valid other free
  have granted :=
    lives.inv.grant valid several.intersecting other free request (picture.log.upToDate complete)
  have state : c.state ≠ .candidate ∧ c.state ≠ .leader := by
    rw [picture.role] at follows
    constructor
    · intro role
      simp [role, StateRole.role] at follows
    · intro role
      simp [role, StateRole.role] at follows
  have vote : some m.fromId = voteFor m.fromId := by rw [voteFor, if_neg candidate]
  have changed : { c with
      vote := m.fromId }.Lives cs h x durable pending (P ∪ {Promise.vote V.term m.fromId V.log})
      { V with vote := some m.fromId } :=
    lives.follower granted Set.subset_union_left ⟨picture.term, vote, picture.role, picture.log,
      picture.commit⟩ le_rfl
      (.of_eq rfl) ⟨rfl, rfl⟩ ⟨lives.mirrors.unasked, rfl⟩ state.1 state.2
  refine (changed.push (Set.Subset.refl _) granted ?_
    ⟨?_, fun _ _ => ⟨lives.mirrors.named, V.log, ?_⟩, ?_⟩ ?_
    fun _ same => same).continues
  · exact Message.means_vote (.inr (.inl rfl)) (by simp [Message.IsVoteRequest]) (by simp)
  · simp
  · simp only
    rw [term, ← picture.term]
    exact .inr (.inr rfl)
  · simp
  · exact fun role => absurd role state.2

end Lives

end Core

end RaftRs

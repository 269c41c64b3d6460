import RaftRs.Peer.Reject

namespace RaftRs

open Library

/-- Two whole logs agree up to an index. -/
def Agree (leader follower : List Entry) (i : Nat) : Prop :=
  i ≤ leader.length ∧ i ≤ follower.length ∧ leader.take i = follower.take i

/-- A message carries entries of a log and the position before them. -/
structure SliceOf (leader : List Entry) (m : Message) : Prop where
  inside : m.index + m.entries.length ≤ leader.length
  term : m.logTerm = termAt leader m.index
  entries : m.entries = (leader.drop m.index).take m.entries.length

variable {leader follower : List Entry} {m : Message} {i : Nat}

theorem Agree.mono (agree : Agree leader follower i) {j : Nat} (le : j ≤ i) :
    Agree leader follower j := by
  obtain ⟨inLeader, inFollower, same⟩ := agree
  refine ⟨le.trans inLeader, le.trans inFollower, ?_⟩
  rw [← min_eq_left le, ← List.take_take, same, List.take_take]

theorem Agree.common (agree : Agree leader follower i) : Common leader follower i :=
  common_of_take agree.1 agree.2.1 agree.2.2

theorem Matching.agree (matching : Matching leader follower) (common : Common leader follower i) :
    Agree leader follower i :=
  ⟨common.1, common.2.1, matching i common⟩

theorem agree_take (inside : i ≤ leader.length) : Agree leader (leader.take i) i := by
  refine ⟨inside, by rw [List.length_take, min_eq_left inside], ?_⟩
  rw [List.take_take, min_self]

theorem matching_take (leader : List Entry) (n : Nat) : Matching leader (leader.take n) := by
  rintro j ⟨-, inside, -⟩
  rw [List.length_take] at inside
  rw [List.take_take, min_eq_left (by omega)]

theorem SliceOf.grow {sent : List Entry} (slice : SliceOf sent m) (grown : sent <+: leader) :
    SliceOf leader m := by
  obtain ⟨rest, rfl⟩ := grown
  have inside := slice.inside
  refine ⟨?_, ?_, ?_⟩
  · rw [List.length_append]
    omega
  · rw [slice.term, termAt, termAt, List.take_append_of_le_length (by omega)]
  · rw [List.drop_append_of_le_length (by omega),
      List.take_append_of_le_length (by rw [List.length_drop]; omega)]
    exact slice.entries

theorem SliceOf.contiguous (slice : SliceOf leader m) (numbered : Contiguous 1 leader) :
    Contiguous (m.index + 1) m.entries := by
  rw [slice.entries, Nat.add_comm]
  exact (numbered.drop m.index).take _

/-- An entry of a slice is that of the log. -/
theorem SliceOf.entry (slice : SliceOf leader m) {k : Nat} {e : Entry}
    (present : m.entries[k]? = some e) :
    leader[m.index + k]? = some e := by
  rw [slice.entries, List.getElem?_take] at present
  split at present
  · rw [List.getElem?_drop] at present
    exact present
  · cases present

theorem SliceOf.termAt (slice : SliceOf leader m) {k : Nat} {e : Entry}
    (present : m.entries[k]? = some e) :
    termAt leader (m.index + k + 1) = e.term :=
  lastTerm_of_getElem? (slice.entry present)

/-- The rest of a slice completes a beginning of the log. -/
theorem SliceOf.splice (slice : SliceOf leader m) {k : Nat} (inside : k ≤ m.entries.length) :
    leader.take (m.index + k) ++ m.entries.drop k = leader.take (m.index + m.entries.length) := by
  rw [slice.entries, List.drop_take, List.drop_drop, ← List.take_add, ← slice.entries]
  congr 1
  omega

namespace RaftLog

variable {log log' : RaftLog}

theorem commitTo_total {toCommit : Nat} (inside : toCommit ≤ log.lastIndex) :
    log.commitTo toCommit = .ok { log with committed := max log.committed toCommit } := by
  unfold RaftLog.commitTo
  split
  · rename_i old
    rw [max_eq_left old]
  · rename_i new
    rw [if_neg (by omega), max_eq_right (by omega)]

/-- The term of the commit index stays known while the boundary stays. -/
theorem WF.anchored (wf : log.WF) (wf' : log'.WF) (first : log'.firstIndex = log.firstIndex)
    (boundary : log'.boundaryTerm = log.boundaryTerm) (up : log.committed ≤ log'.committed)
    (known : ∃ t, log.term log.committed = .ok t) : ∃ t, log'.term log'.committed = .ok t := by
  have low := wf.low
  have low' := wf'.low
  rcases Nat.lt_or_ge log'.committed log'.firstIndex with before | retained
  · obtain ⟨t, known⟩ := known
    rw [wf.term_boundary (by omega)] at known
    rw [wf'.term_boundary (by omega), boundary]
    exact ⟨t, known⟩
  · obtain ⟨entry, present⟩ := wf'.exists_entry retained wf'.high
    exact ⟨_, wf'.term_of_entryAt present⟩

/-- A follower's log matches that of the leader and agrees with it up to the commit index. -/
structure Tracks (leader follower : List Entry) (log : RaftLog) : Prop where
  shows : log.Shows follower
  anchored : ∃ t, log.term log.committed = .ok t
  matching : Matching leader follower
  agreed : Agree leader follower log.committed

/-- A splice takes over the log of the leader up to the end of the slice or finds it there
already. -/
inductive Takes (leader follower : List Entry) (log : RaftLog) (last : Nat) :
    RaftLog → List Entry → Prop where
  | same (agree : Agree leader follower last) : Takes leader follower log last log follower
  | overwrite {mid : RaftLog} (differs : ¬ Agree leader follower last)
      (committed : mid.committed = log.committed) :
      Takes leader follower log last mid (leader.take last)

/-- An entry of a slice matches exactly where the follower has the leader's term. -/
theorem Tracks.matchTerm_entry (tracks : Tracks leader follower log) (ordered : Ordered leader)
    (numbered : Contiguous 1 leader) (slice : SliceOf leader m) (low : log.committed ≤ m.index)
    {k : Nat} {e : Entry} (present : m.entries[k]? = some e) :
    log.matchTerm e.index e.term = true ↔ Common leader follower (m.index + k + 1) := by
  have inside := (List.getElem?_eq_some_iff.1 (slice.entry present)).1
  have index : e.index = m.index + k + 1 := by
    have := numbered _ e (slice.entry present)
    omega
  rw [index, ← slice.termAt present]
  exact tracks.shows.matchTerm_common tracks.anchored ordered (by omega) (by omega)

/-- The entries of a slice after a common position are spliced into the follower's log. -/
theorem Tracks.splice (tracks : Tracks leader follower log) (ordered : Ordered leader)
    (numbered : Contiguous 1 leader) (slice : SliceOf leader m) (low : log.committed ≤ m.index)
    (common : Common leader follower m.index) :
    ∃ mid follower', log.appendFrom m.index (log.findConflict m.entries) m.entries = .ok mid ∧
      Takes leader follower log (m.index + m.entries.length) mid follower' ∧
        Tracks leader follower' mid := by
  have matches_iff := fun k e => tracks.matchTerm_entry ordered numbered slice low (k := k) (e := e)
  -- The follower has the leader's log up to the end of entries that all match.
  have reached : ∀ k ≤ m.entries.length, (∀ e ∈ m.entries.take k, log.matchTerm e.index e.term = true) →
      Agree leader follower (m.index + k) := by
    intro k inside all
    cases k with
    | zero => exact tracks.matching.agree common
    | succ k =>
        have present := List.getElem?_eq_getElem (Nat.lt_of_succ_le inside)
        have member : m.entries[k] ∈ m.entries.take (k + 1) := by
          rw [List.mem_take_iff_getElem]
          exact ⟨k, by omega, rfl⟩
        exact tracks.matching.agree ((matches_iff k _ present).1 (all _ member))
  rcases log.findConflict_spec (slice.contiguous numbered) (by omega) with
    ⟨none, all⟩ | ⟨k, inside, found, before, e, present, fails⟩
  · have agree := reached m.entries.length le_rfl (by rwa [List.take_length])
    rw [none]
    exact ⟨log, follower, rfl, .same agree, tracks⟩
  · have agree := reached k inside.le before
    have differs : ¬ Agree leader follower (m.index + m.entries.length) := by
      intro whole
      have common := (whole.mono (j := m.index + k + 1) (by omega)).common
      rw [(matches_iff k e present).2 common] at fails
      cases fails
    have reach : m.index + 1 + k ≤ log.lastIndex + 1 := by
      have := agree.2.1
      rw [tracks.shows.length] at this
      omega
    have nonempty : m.entries.drop k ≠ [] := by
      rw [ne_eq, List.drop_eq_nil_iff]
      omega
    obtain ⟨mid, done, appended⟩ := tracks.shows.wf.append_total nonempty
      ((slice.contiguous numbered).drop k) (by omega) reach
    have shows := tracks.shows.append appended
    rw [show m.index + 1 + k - 1 = m.index + k by omega, ← agree.2.2, slice.splice inside.le] at shows
    have committed : mid.committed = log.committed := by rw [appended.rest]
    have anchored :=
      tracks.shows.wf.anchored appended.wf appended.firstIndex appended.boundary committed.ge
      tracks.anchored
    have agreed := (agree_take slice.inside).mono (j := mid.committed) (by omega)
    rw [found, appendFrom_conflict inside (by omega), done]
    exact ⟨_, _, rfl, .overwrite differs committed,
      shows.persist _, anchored, matching_take leader _, agreed⟩

/-- The follower has the leader's log up to the end of the slice. -/
theorem Takes.agree {mid : RaftLog} {follower' : List Entry} {last : Nat}
    (takes : Takes leader follower log last mid follower') (inside : last ≤ leader.length) :
    Agree leader follower' last := by
  cases takes with
  | same agree => exact agree
  | overwrite => exact agree_take inside

/-- A splice keeps the commit index. -/
theorem Takes.committed {mid : RaftLog} {follower' : List Entry} {last : Nat}
    (takes : Takes leader follower log last mid follower') : mid.committed = log.committed := by
  cases takes with
  | same => rfl
  | overwrite _ committed => exact committed

/-- The follower's log keeps every beginning whose terms are those of the leader. -/
theorem Takes.kept {mid : RaftLog} {follower' : List Entry} {last k : Nat}
    (takes : Takes leader follower log last mid follower') (matching : Matching leader follower)
    (bounded : last ≤ leader.length) (inside : k ≤ follower.length)
    (same : ∀ x ≤ k, x ≤ leader.length → termAt leader x = termAt follower x) :
    follower'.take k = follower.take k := by
  cases takes with
  | same => rfl
  | overwrite differs =>
      have short : k < last := by
        by_contra long
        have le : last ≤ k := not_lt.1 long
        exact differs (matching.agree ⟨bounded, le.trans inside, same last le bounded⟩)
      have common : Common leader follower k := ⟨by omega, inside, same k le_rfl (by omega)⟩
      rw [List.take_take, min_eq_left short.le]
      exact matching k common

/-- The commit index of a follower moves inside of what it has in common with the leader. -/
theorem Tracks.commitTo (tracks : Tracks leader follower log) {toCommit : Nat}
    (agree : Agree leader follower toCommit) :
    log.commitTo toCommit = .ok { log with committed := max log.committed toCommit } ∧
      Tracks leader follower { log with committed := max log.committed toCommit } := by
  have inside : toCommit ≤ log.lastIndex := by
    rw [← tracks.shows.length]
    exact agree.2.1
  have shows := tracks.shows.commit (le_max_left _ _) (max_le tracks.shows.wf.high inside)
  refine ⟨commitTo_total inside, shows, ?_, tracks.matching, ?_⟩
  · exact tracks.shows.wf.anchored shows.wf rfl rfl (le_max_left _ _) tracks.anchored
  · rcases le_total log.committed toCommit with up | down
    · simp only [max_eq_right up]
      exact agree
    · simp only [max_eq_left down]
      exact tracks.agreed

/-- A slice after a common position is accepted. -/
theorem Tracks.accepts (tracks : Tracks leader follower log) (ordered : Ordered leader)
    (numbered : Contiguous 1 leader) (slice : SliceOf leader m) (low : log.committed ≤ m.index)
    (common : Common leader follower m.index) :
    ∃ mid follower', log.maybeAppend m.index m.logTerm m.commit m.entries =
        .ok ({ mid with committed := max log.committed (min m.commit (m.index + m.entries.length)) },
          some (log.findConflict m.entries, m.index + m.entries.length)) ∧
      Takes leader follower log (m.index + m.entries.length) mid follower' ∧
      Tracks leader follower'
        { mid with committed := max log.committed (min m.commit (m.index + m.entries.length)) } := by
  obtain ⟨mid, follower', spliced, takes, next⟩ := tracks.splice ordered numbered slice low common
  have agree : Agree leader follower' (min m.commit (m.index + m.entries.length)) :=
    (takes.agree slice.inside).mono (min_le_right _ _)
  have inside : m.index ≤ leader.length := (Nat.le_add_right _ _).trans slice.inside
  have agrees : log.matchTerm m.index m.logTerm = true := by
    rw [slice.term]
    exact (tracks.shows.matchTerm_common tracks.anchored ordered low inside).2 common
  obtain ⟨moved, last⟩ := next.commitTo agree
  rw [takes.committed] at moved last
  refine ⟨mid, follower', ?_, takes, last⟩
  unfold RaftLog.maybeAppend
  rw [if_pos agrees]
  simp only [spliced, ok_bind, moved]
  rfl

end RaftLog

namespace Raft

variable {f f' : Raft}

/-- A follower that waits for no snapshot tracks the leader's log. -/
structure Follows (leader follower : List Entry) (f : Raft) : Prop where
  log : f.raftLog.Tracks leader follower
  unasked : f.pendingRequestSnapshot = invalidIndex

/-- A follower has all that a message brings. -/
def Settled (leader follower : List Entry) (f : Raft) (m : Message) : Prop :=
  m.index < f.raftLog.committed ∨ (Agree leader follower (m.index + m.entries.length) ∧
    min m.commit (m.index + m.entries.length) ≤ f.raftLog.committed)

/-- A delivered message destroys nothing that the follower has in common with the leader. -/
structure Harmless (leader follower follower' : List Entry) (m : Message) (f f' : Raft) : Prop where
  entry : ∀ (k : Nat) (e : Entry), leader[k]? = some e → follower[k]? = some e → follower'[k]? = some e
  removed : ∀ k ≤ follower.length, (∀ x ≤ k, x ≤ leader.length → termAt leader x = termAt follower x) →
    follower'.take k = follower.take k
  answer : ∃ a, f'.msgs = f.msgs ++ [a] ∧ a.msgType = .msgAppendResponse ∧
    (a.reject = false → Agree leader follower' a.index ∧ Settled leader follower' f' m)
  commits : f.raftLog.committed ≤ m.index → Common leader follower m.index →
    f'.raftLog.committed = max f.raftLog.committed (min m.commit (m.index + m.entries.length))
  stays : ¬ (f.raftLog.committed ≤ m.index ∧ Common leader follower m.index) →
    f'.raftLog.committed = f.raftLog.committed
  committed : Agree leader follower' f'.raftLog.committed
  settled : Settled leader follower f m → f'.raftLog = f.raftLog

/-- A message that leaves the log alone is harmless. -/
theorem Follows.untouched (follows : Follows leader follower f) {a : Message}
    (ignored : ¬ (f.raftLog.committed ≤ m.index ∧ Common leader follower m.index))
    (kind : a.msgType = .msgAppendResponse)
    (answered : a.reject = false → Agree leader follower a.index ∧ Settled leader follower f m) :
    Harmless leader follower follower m f { f with msgs := f.msgs ++ [a] } where
  entry _ _ _ present := present
  removed _ _ _ := rfl
  answer := ⟨a, rfl, kind, answered⟩
  commits low common := absurd ⟨low, common⟩ ignored
  stays _ := rfl
  committed := follows.log.agreed
  settled _ := rfl

/-- A message from before the commit index is answered with the commit index. -/
theorem Follows.stale (follows : Follows leader follower f) (old : m.index < f.raftLog.committed) :
    ∃ f', f.handleAppendEntries m = .ok f' ∧ Follows leader follower f' ∧
      Harmless leader follower follower m f f' := by
  have handled : f.handleAppendEntries m = .ok { f with
      msgs := f.msgs ++
        [{ msgType := .msgAppendResponse, toId := m.fromId, fromId := f.id, term := f.term
           index := f.raftLog.committed, commit := f.raftLog.committed }] } := by
    unfold handleAppendEntries
    rw [if_neg (not_not.2 follows.unasked), if_pos old]
    rfl
  refine ⟨_, handled, ⟨follows.log, follows.unasked⟩, follows.untouched ?_ rfl ?_⟩
  · rintro ⟨low, -⟩
    exact absurd old (not_lt.2 low)
  · intro _
    exact ⟨follows.log.agreed, Or.inl old⟩

/-- A message after a position that the follower does not have is rejected. -/
theorem Follows.rejects (follows : Follows leader follower f) (ordered : Ordered leader)
    (slice : SliceOf leader m) (low : f.raftLog.committed ≤ m.index)
    (differs : ¬ Common leader follower m.index) :
    ∃ f', f.handleAppendEntries m = .ok f' ∧ Follows leader follower f' ∧
      Harmless leader follower follower m f f' := by
  obtain ⟨tracks, unasked⟩ := follows
  have inside : m.index ≤ leader.length := (Nat.le_add_right _ _).trans slice.inside
  obtain ⟨hint, searched, -⟩ := tracks.shows.hint tracks.anchored ordered tracks.agreed.2.2 low inside
  have mismatch : f.raftLog.matchTerm m.index m.logTerm = false := by
    rw [slice.term, Bool.eq_false_iff, ne_eq,
      tracks.shows.matchTerm_common tracks.anchored ordered low inside]
    exact differs
  rw [← slice.term] at searched
  refine ⟨_, handleAppendEntries_reject unasked low mismatch searched, ⟨tracks, unasked⟩,
    Follows.untouched ⟨tracks, unasked⟩ (fun both => differs both.2) rfl ?_⟩
  nofun

/-- A message after a common position is accepted. -/
theorem Follows.accepts (follows : Follows leader follower f) (ordered : Ordered leader)
    (numbered : Contiguous 1 leader) (slice : SliceOf leader m) (low : f.raftLog.committed ≤ m.index)
    (common : Common leader follower m.index) :
    ∃ f' follower', f.handleAppendEntries m = .ok f' ∧ Follows leader follower' f' ∧
      Harmless leader follower follower' m f f' := by
  obtain ⟨tracks, unasked⟩ := follows
  obtain ⟨mid, follower', done, takes, next⟩ := tracks.accepts ordered numbered slice low common
  generalize moved : { mid with committed := _ } = log at done next
  have committed : log.committed = max f.raftLog.committed
      (min m.commit (m.index + m.entries.length)) := by
    rw [← moved]
  have kept := fun k => takes.kept tracks.matching slice.inside (k := k)
  have handled : f.handleAppendEntries m = .ok { f with
      raftLog := log
      msgs := f.msgs ++
        [{ msgType := .msgAppendResponse, toId := m.fromId, fromId := f.id, term := f.term
           index := m.index + m.entries.length, commit := log.committed }] } := by
    unfold handleAppendEntries
    rw [if_neg (not_not.2 unasked), if_neg (not_lt.2 low), done]
    rfl
  refine ⟨_, follower', handled, ⟨next, unasked⟩, ?_, kept, ?_, ?_, ?_, next.agreed, ?_⟩
  · intro k e inLeader inFollower
    have first := (List.getElem?_eq_some_iff.1 inLeader).1
    have second := (List.getElem?_eq_some_iff.1 inFollower).1
    have same : Common leader follower (k + 1) := by
      refine ⟨first, second, ?_⟩
      rw [termAt, termAt, lastTerm_of_getElem? inLeader, lastTerm_of_getElem? inFollower]
    have agree := tracks.matching.agree same
    have beginning := kept (k + 1) second fun x le _ => (agree.mono le).common.2.2
    rw [← List.getElem?_take_of_lt (Nat.lt_succ_self k), beginning,
      List.getElem?_take_of_lt (Nat.lt_succ_self k)]
    exact inFollower
  · refine ⟨_, rfl, rfl, fun _ => ⟨takes.agree slice.inside, Or.inr ⟨takes.agree slice.inside, ?_⟩⟩⟩
    rw [committed]
    exact le_max_right _ _
  · intro _ _
    exact committed
  · intro ignored
    exact absurd ⟨low, common⟩ ignored
  · rintro (old | ⟨agree, up⟩)
    · exact absurd old (not_lt.2 low)
    · cases takes with
      | same => rw [← moved, max_eq_left up]
      | overwrite differs => exact absurd agree differs

/-- A slice of the leader's log is delivered harmlessly. -/
theorem Follows.deliver (follows : Follows leader follower f) (ordered : Ordered leader)
    (numbered : Contiguous 1 leader) (slice : SliceOf leader m) :
    ∃ f' follower', f.handleAppendEntries m = .ok f' ∧ Follows leader follower' f' ∧
      Harmless leader follower follower' m f f' := by
  rcases Nat.lt_or_ge m.index f.raftLog.committed with old | low
  · obtain ⟨f', result⟩ := follows.stale old
    exact ⟨f', follower, result⟩
  by_cases common : Common leader follower m.index
  · exact follows.accepts ordered numbered slice low common
  · obtain ⟨f', result⟩ := follows.rejects ordered slice low common
    exact ⟨f', follower, result⟩

theorem Harmless.committed_mono {follower' : List Entry}
    (harmless : Harmless leader follower follower' m f f') :
    f.raftLog.committed ≤ f'.raftLog.committed := by
  by_cases taken : f.raftLog.committed ≤ m.index ∧ Common leader follower m.index
  · rw [harmless.commits taken.1 taken.2]
    exact le_max_left _ _
  · exact (harmless.stays taken).ge

/-- What a message has brought is there after every later delivery. -/
theorem Harmless.settled_kept {follower' : List Entry} {s : Message}
    (harmless : Harmless leader follower follower' s f f') (settled : Settled leader follower f m) :
    Settled leader follower' f' m := by
  have up := harmless.committed_mono
  rcases settled with old | ⟨agree, covered⟩
  · exact Or.inl (old.trans_le up)
  · obtain ⟨inLeader, inFollower, same⟩ := agree
    have kept := harmless.removed _ inFollower fun x le _ =>
      (Agree.mono ⟨inLeader, inFollower, same⟩ le).common.2.2
    have long : m.index + m.entries.length ≤ follower'.length := by
      have lengths := congrArg List.length kept
      rw [List.length_take, List.length_take] at lengths
      omega
    exact Or.inr ⟨⟨inLeader, long, by rw [kept, same]⟩, covered.trans up⟩

/-- A message is a slice of the leader's log at the time when it was sent. -/
def SentBy (leader : List Entry) (m : Message) : Prop := ∃ sent, sent <+: leader ∧ SliceOf sent m

/-- Messages of the leader that are delivered in any order are all handled, and what was brought
stays. -/
theorem Follows.deliverAll {ms : List Message} (follows : Follows leader follower f)
    (ordered : Ordered leader) (numbered : Contiguous 1 leader) (slices : ∀ m ∈ ms, SentBy leader m) :
    ∃ f' follower', ms.foldlM handleAppendEntries f = .ok f' ∧ Follows leader follower' f' ∧
      ∀ m, Settled leader follower f m → Settled leader follower' f' m := by
  induction ms generalizing f follower with
  | nil => exact ⟨f, follower, rfl, follows, fun _ settled => settled⟩
  | cons s rest ih =>
      obtain ⟨sent, grown, slice⟩ := slices s List.mem_cons_self
      obtain ⟨f₁, follower₁, done, next, harmless⟩ := follows.deliver ordered numbered (slice.grow grown)
      obtain ⟨f₂, follower₂, rests, last, kept⟩ :=
        ih next fun m member => slices m (List.mem_cons_of_mem s member)
      refine ⟨f₂, follower₂, ?_, last, fun m settled => kept m (harmless.settled_kept settled)⟩
      rw [List.foldlM_cons, done, ok_bind, rests]

/-- Reordered, repeated and old entries of a leader are harmless to a follower. -/
theorem reordered_appends_harmless {before : List Message} (ordered : Ordered leader)
    (numbered : Contiguous 1 leader) (follows : Follows leader follower f)
    (slices : ∀ s ∈ before ++ [m], SentBy leader s) :
    ∃ f₁ follower₁ f₂ follower₂, before.foldlM handleAppendEntries f = .ok f₁ ∧
      f₁.raftLog.Shows follower₁ ∧ f₁.handleAppendEntries m = .ok f₂ ∧ f₂.raftLog.Shows follower₂ ∧
      Harmless leader follower₁ follower₂ m f₁ f₂ ∧
      ∀ later : List Message, (∀ s ∈ later, SentBy leader s) →
        (∃ a ∈ f₂.msgs.getLast?, a.reject = false) →
        ∃ f₃ f₄, later.foldlM handleAppendEntries f₂ = .ok f₃ ∧ f₃.handleAppendEntries m = .ok f₄ ∧
          f₄.raftLog = f₃.raftLog := by
  obtain ⟨f₁, follower₁, done, next, -⟩ :=
    follows.deliverAll ordered numbered fun s member => slices s (List.mem_append_left _ member)
  obtain ⟨sent, grown, slice⟩ := slices m (List.mem_append_right _ (List.mem_singleton_self m))
  have slice := slice.grow grown
  obtain ⟨f₂, follower₂, delivered, last, harmless⟩ := next.deliver ordered numbered slice
  refine ⟨f₁, follower₁, f₂, follower₂, done, next.log.shows, delivered, last.log.shows, harmless, ?_⟩
  rintro later slices ⟨a, sentLast, accepted⟩
  obtain ⟨b, msgs, -, answered⟩ := harmless.answer
  have same : b = a := by
    rw [msgs, List.getLast?_concat, Option.mem_some_iff] at sentLast
    exact sentLast
  have settled := (answered (by rw [same]; exact accepted)).2
  obtain ⟨f₃, follower₃, rests, after, kept⟩ := last.deliverAll ordered numbered slices
  obtain ⟨f₄, follower₄, again, -, unchanged⟩ := after.deliver ordered numbered slice
  exact ⟨f₃, f₄, rests, again, unchanged.settled (kept m settled)⟩

/-- The last entry of the leader arrives before the two that a diverged follower lacks. -/
theorem reordered_appends_harmless_late :
    ∃ f₁ f₂ follower₂, [{ index := 2, logTerm := 3, entries := thirdTerm.drop 2, commit := 3 }].foldlM
        handleAppendEntries diverged = .ok f₁ ∧
      f₁.handleAppendEntries { index := 1, logTerm := 1, entries := thirdTerm.drop 1,
                               commit := 3 } = .ok f₂ ∧
      f₂.raftLog.Shows follower₂ ∧ Agree thirdTerm follower₂ f₂.raftLog.committed := by
  have numbered : Contiguous 1 thirdTerm := by simp [thirdTerm, contiguous_cons]
  have shows : diverged.raftLog.Shows secondTerm :=
    (MemStorage.shows_entries (by simp [secondTerm, contiguous_cons])).new 0
  have agreed : Agree thirdTerm secondTerm diverged.raftLog.committed :=
    ⟨Nat.zero_le _, Nat.zero_le _, rfl⟩
  have follows : Follows thirdTerm secondTerm diverged :=
    ⟨⟨shows, ⟨0, rfl⟩, matching_thirdTerm, agreed⟩, rfl⟩
  have slices : ∀ s ∈ [{ index := 2, logTerm := 3, entries := thirdTerm.drop 2, commit := 3 }] ++
      [{ index := 1, logTerm := 1, entries := thirdTerm.drop 1, commit := 3 }], SentBy thirdTerm s := by
    rintro s (_ | ⟨_, _ | ⟨_, ⟨⟩⟩⟩)
    · exact ⟨thirdTerm, ⟨[], rfl⟩, by decide, rfl, rfl⟩
    · exact ⟨thirdTerm, ⟨[], rfl⟩, by decide, rfl, rfl⟩
  obtain ⟨f₁, follower₁, f₂, follower₂, first, -, second, last, harmless, -⟩ :=
    reordered_appends_harmless ⟨by simp [thirdTerm], by simp [thirdTerm]⟩ numbered follows slices
  exact ⟨f₁, f₂, follower₂, first, second, last, harmless.committed⟩

end Raft

end RaftRs

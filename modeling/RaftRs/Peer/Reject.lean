import RaftRs.Act.Send
import RaftRs.Log.Page
import RaftRs.Log.Probe

namespace RaftRs

open Library

theorem Progress.updateState_probe {pr : Progress} (probe : pr.state = .probe) (last : Nat) :
    pr.updateState last = .ok pr.pause := by
  unfold updateState
  rw [probe]

namespace Raft

variable {l l' f : Raft} {m : Message} {pr : Progress} {id i n : Nat}

theorem get_put_own {prs : ProgressTracker} {pr' : Progress} (known : prs.get id = some pr) :
    (prs.put id pr').get id = some pr' := by
  have present : prs.progress.get? id = some pr := known
  simp [ProgressTracker.put, ProgressTracker.get, present]

/-- Entries that join a queued message pause a probed follower. -/
theorem batchInto_probe (probe : pr.state = .probe) (committed toId : Nat) (ents : List Entry)
    (msgs : List Message) :
    batchInto committed toId pr ents msgs = .ok none ∨
      ∃ msgs' paused, batchInto committed toId pr ents msgs =
        .ok (some (msgs', { pr with paused })) := by
  induction msgs with
  | nil => exact .inl rfl
  | cons msg rest ih =>
      unfold batchInto
      split
      · split
        · exact .inr ⟨_, pr.paused, rfl⟩
        · split
          · rw [Progress.updateState_probe probe]
            exact .inr ⟨_, true, rfl⟩
          · exact .inl rfl
      · rcases ih with none | ⟨msgs', paused, batched⟩
        · rw [none]
          exact .inl rfl
        · rw [batched]
          exact .inr ⟨_, paused, rfl⟩

/-- A call for a probed follower only queues messages and pauses the follower. -/
def Probes (l : Raft) (pr : Progress) (run : Except Fatal (Raft × Progress × Bool)) : Prop :=
  ∃ msgs paused sent, run = .ok ({ l with msgs }, { pr with paused }, sent)

theorem sendEntries_probe (probe : pr.state = .probe) (toId term : Nat) (ents : List Entry) :
    Probes l pr (l.sendEntries toId pr term ents) := by
  unfold sendEntries prepareSendEntries
  simp only
  split
  · rw [ok_bind, send_append l rfl rfl]
    exact ⟨_, pr.paused, true, rfl⟩
  · rw [Progress.updateState_probe probe]
    simp only [ok_bind, pure_bind]
    rw [send_append l rfl rfl]
    exact ⟨_, true, true, rfl⟩

/-- The log of a leader supplies a follower from an index on: no snapshot is asked for, and the log
has the entries from the index and the term before it. -/
structure Supplies (l : Raft) (pr : Progress) (next : Nat) : Prop where
  unasked : pr.pendingRequestSnapshot = invalidIndex
  first : l.raftLog.firstIndex ≤ next
  term : ∃ t, l.raftLog.term (next - 1) = .ok t

/-- A log that supplies a follower from an index on supplies it from every later one. -/
theorem Supplies.later {low next : Nat} (supplies : l.Supplies pr low) (wf : l.raftLog.WF)
    (above : low ≤ next) (inside : next ≤ l.raftLog.lastIndex + 1) : l.Supplies pr next := by
  refine ⟨supplies.unasked, supplies.first.trans above, ?_⟩
  rcases Nat.eq_or_lt_of_le above with rfl | later
  · exact supplies.term
  · have first := supplies.first
    obtain ⟨entry, present⟩ := wf.exists_entry (i := next - 1) (by omega) (by omega)
    exact ⟨_, wf.term_of_entryAt present⟩

/-- A snapshot for a follower can be read. -/
def HasSnapshot (l : Raft) (pr : Progress) : Prop :=
  ∃ log s, l.raftLog.snapshot pr.pendingRequestSnapshot = .ok (log, .ok s) ∧ s.metadata.index ≠ 0

/-- A probed follower is sent entries, or a snapshot where the log does not supply it. -/
theorem maybeSendAppend_probe (wf : l.raftLog.WF) (probe : pr.state = .probe) (toId : Nat) :
    Probes l pr (l.maybeSendAppend toId pr true) ∨
      (l.maybeSendAppend toId pr true = l.sendSnapshot toId pr ∧ ¬ l.Supplies pr pr.nextIdx) := by
  unfold maybeSendAppend
  split
  · exact .inl ⟨l.msgs, pr.paused, false, rfl⟩
  split
  next asked => exact .inr ⟨rfl, fun supplies => asked supplies.unasked⟩
  simp only [Bool.not_true, Bool.false_and, Bool.false_eq_true, if_false]
  have read : ∃ ents, l.raftLog.entries pr.nextIdx (some l.maxMsgSize)
      (.sendAppend toId l.term false) = .ok ents ∧
      ∀ e, ents = .error e → pr.nextIdx < l.raftLog.firstIndex ∨ e = .logTemporarilyUnavailable := by
    rcases wf.entries_cases pr.nextIdx (some l.maxMsgSize) (.sendAppend toId l.term false) with
      ⟨-, read⟩ | ⟨e, why, read⟩ | ⟨-, -, read⟩
    · exact ⟨_, read, nofun⟩
    · refine ⟨_, read, ?_⟩
      rintro _ ⟨⟩
      exact why
    · exact ⟨_, read, nofun⟩
  obtain ⟨found, read, why⟩ := read
  rw [read, ok_bind]
  split
  next term ents _ =>
    left
    split
    · rcases batchInto_probe probe l.raftLog.committed toId ents l.msgs with none
        | ⟨msgs, paused, batched⟩
      · rw [tryBatching, none]
        exact sendEntries_probe probe toId term ents
      · rw [tryBatching, batched]
        exact ⟨msgs, paused, true, rfl⟩
    · exact sendEntries_probe probe toId term ents
  · exact .inl ⟨l.msgs, pr.paused, false, rfl⟩
  next found _ _ available unread =>
    refine .inr ⟨rfl, fun supplies => ?_⟩
    obtain ⟨term, known⟩ := supplies.term
    cases found with
    | ok ents => exact unread term ents known rfl
    | error e =>
        rcases why e rfl with compacted | rfl
        · exact absurd supplies.first (not_le.2 compacted)
        · exact available rfl

/-- A snapshot for a follower keeps its next index and the tracker. -/
theorem sendSnapshot_next (toId : Nat) (pr : Progress) :
    Yields (l.sendSnapshot toId pr) fun x => x.2.1.nextIdx = pr.nextIdx ∧ x.1.prs = l.prs := by
  unfold sendSnapshot prepareSendSnapshot
  split
  · exact ⟨rfl, rfl⟩
  · cases taken : l.raftLog.snapshot pr.pendingRequestSnapshot with
    | error e => exact not_false
    | ok result =>
        obtain ⟨log, result⟩ := result
        simp only [ok_bind]
        split
        · exact ⟨rfl, rfl⟩
        · exact not_false
        · split
          · exact not_false
          · simp only [pure_bind]
            rw [send_append _ rfl rfl]
            exact ⟨rfl, rfl⟩

theorem HasSnapshot.sends (supplied : l.HasSnapshot pr) (toId : Nat) :
    ∃ x, l.sendSnapshot toId pr = .ok x := by
  obtain ⟨log, s, taken, filled⟩ := supplied
  unfold sendSnapshot prepareSendSnapshot
  split
  · exact ⟨_, rfl⟩
  · rw [taken]
    simp only [ok_bind, if_neg filled, pure_bind]
    rw [send_append _ rfl rfl]
    exact ⟨_, rfl⟩

/-- The next entries are sent to a probed follower, or a snapshot; its next index stays. -/
theorem sendAppend_probe (wf : l.raftLog.WF) (known : l.prs.get id = some pr)
    (probe : pr.state = .probe) :
    (∀ l', l.sendAppend id = .ok l' → ∃ pr', l'.prs.get id = some pr' ∧ pr'.nextIdx = pr.nextIdx) ∧
      (l.HasSnapshot pr → ∃ l', l.sendAppend id = .ok l') ∧
      (l.Supplies pr pr.nextIdx → ∃ msgs paused,
        l.sendAppend id = .ok { l with msgs, prs := l.prs.put id { pr with paused } }) := by
  unfold sendAppend withProgress
  simp only [known]
  rcases maybeSendAppend_probe wf probe id with ⟨msgs, paused, sent, done⟩ | ⟨snapshot, unsupplied⟩
  · rw [done]
    refine ⟨?_, fun _ => ⟨_, rfl⟩, fun _ => ⟨msgs, paused, rfl⟩⟩
    rintro _ ⟨⟩
    exact ⟨_, get_put_own known, rfl⟩
  · rw [snapshot]
    refine ⟨?_, fun supplied => ?_, fun supplies => absurd supplies unsupplied⟩
    · intro l' done
      obtain ⟨⟨l₁, pr₁⟩, sent, done⟩ := bind_eq_ok.1 done
      obtain ⟨⟨l₂, pr₂, moved⟩, message, same⟩ := bind_eq_ok.1 sent
      obtain ⟨rfl, rfl⟩ := ok_pair_inj same
      obtain ⟨next, prs⟩ := (sendSnapshot_next id pr).of_eq_ok message
      obtain rfl := Except.ok.inj done
      have known : l₂.prs.get id = some pr := prs ▸ known
      exact ⟨pr₂, get_put_own known, next⟩
    · obtain ⟨x, done⟩ := supplied.sends id
      rw [done]
      exact ⟨_, rfl⟩

/-- The rejection that a follower sends. -/
def rejection (f : Raft) (m : Message) (hint hintTerm : Nat) : Message :=
  { msgType := .msgAppendResponse, toId := m.fromId, fromId := f.id, term := f.term, index := m.index
    reject := true, rejectHint := hint, logTerm := hintTerm, commit := f.raftLog.committed }

/-- A follower rejects entries after a position that it does not have. -/
theorem handleAppendEntries_reject {hint hintTerm : Nat}
    (unasked : f.pendingRequestSnapshot = invalidIndex) (low : f.raftLog.committed ≤ m.index)
    (mismatch : f.raftLog.matchTerm m.index m.logTerm = false)
    (searched : f.raftLog.findConflictByTerm (min m.index f.raftLog.lastIndex) m.logTerm =
      .ok (hint, some hintTerm)) :
    f.handleAppendEntries m = .ok { f with msgs := f.msgs ++ [f.rejection m hint hintTerm] } := by
  have unmatched : f.raftLog.maybeAppend m.index m.logTerm m.commit m.entries =
      .ok (f.raftLog, none) := by
    unfold RaftLog.maybeAppend
    rw [mismatch]
    rfl
  unfold handleAppendEntries
  rw [if_neg (not_not.2 unasked), if_neg (not_lt.2 low), unmatched, ok_bind]
  simp only
  unfold rejectAppend
  rw [searched, ok_bind]
  rfl

/-- The progress of a follower that has answered. -/
def heard (pr : Progress) (commit : Nat) : Progress :=
  { pr with recentActive := true }.updateCommitted commit

theorem heard_eq (pr : Progress) (commit : Nat) :
    ∃ committedIndex, heard pr commit = { pr with recentActive := true, committedIndex } := by
  unfold heard Progress.updateCommitted
  split <;> exact ⟨_, rfl⟩

/-- The progress of a probed follower after a rejection. -/
def probed (pr : Progress) (i n : Nat) : Progress :=
  { pr with nextIdx := max (min i (n + 1)) (pr.matched + 1), paused := false }

/-- A rejected probe lowers the next index of its follower. -/
theorem maybeDecrTo_probe (probe : pr.state = .probe) (next : pr.nextIdx = i + 1)
    (fits : pr.nextIdx < 2 ^ 64) (unmatched : pr.matched < i) (below : n ≤ i) :
    pr.maybeDecrTo i n invalidIndex = .ok (probed pr i n, true) := by
  unfold Progress.maybeDecrTo
  rw [if_neg (by simp [probe]), if_neg (by omega), if_pos rfl, checkedAdd_ok.2 ⟨by omega, rfl⟩, ok_bind,
    checkedAdd_ok.2 ⟨by omega, rfl⟩]
  rfl

/-- The leader takes the next index of a probed follower from a rejection and sends to it from
there. -/
theorem handleAppendResponse_reject (rejects : m.reject = true) (index : m.index = i)
    (unasked : m.requestSnapshot = invalidIndex) (known : l.prs.get m.fromId = some pr)
    (probe : pr.state = .probe) (next : pr.nextIdx = i + 1) (fits : pr.nextIdx < 2 ^ 64)
    (unmatched : pr.matched < i) (below : n ≤ i) (search : l.nextProbeIndex m = .ok n) :
    l.handleAppendResponse m =
      { l with prs := l.prs.put m.fromId (probed (heard pr m.commit) i n) }.sendAppend m.fromId := by
  obtain ⟨committedIndex, same⟩ := heard_eq pr m.commit
  have decreased : (heard pr m.commit).maybeDecrTo i n invalidIndex =
      .ok (probed (heard pr m.commit) i n, true) := by
    rw [same]
    exact maybeDecrTo_probe probe next fits unmatched below
  have state : (probed (heard pr m.commit) i n).state = .probe := by
    rw [same]
    exact probe
  unfold handleAppendResponse
  rw [search, ok_bind, known]
  simp only [rejects, if_true]
  unfold handleAppendRejection
  rw [index, unasked]
  have decreased : ({ pr with recentActive := true }.updateCommitted m.commit).maybeDecrTo i n
      invalidIndex = _ :=
    decreased
  rw [decreased, ok_bind]
  simp only [state, reduceCtorEq, if_false]

/-- A leader probes a follower at an index. -/
structure Probing (leader follower : List Entry) (f l : Raft) (pr : Progress) (i : Nat) : Prop where
  paired : RaftLog.Paired l.raftLog f.raftLog leader follower
  unasked : f.pendingRequestSnapshot = invalidIndex
  known : l.prs.get f.id = some pr
  probe : pr.state = .probe
  next : pr.nextIdx = i + 1
  fits : pr.nextIdx < 2 ^ 64
  low : f.raftLog.committed ≤ i
  high : i ≤ leader.length

variable {leader follower : List Entry}

/-- Both sides handle a rejected probe: the follower finds a hint, the leader an index from which it
sends next. -/
theorem Probing.rejected (probing : Probing leader follower f l pr i) (unmatched : pr.matched < i)
    (mismatch : f.raftLog.matchTerm i (termAt leader i) = false) :
    ∃ hint n, n ≤ i ∧ (∀ j, Common leader follower j → j ≤ i → j ≤ n) ∧
      ∀ m msgs, m.index = i → m.logTerm = termAt leader i →
        let response := f.rejection m hint (termAt follower hint)
        { f with msgs }.handleAppendEntries m = .ok { f with msgs := msgs ++ [response] } ∧
        l.nextProbeIndex response = .ok n ∧ l.handleAppendResponse response =
          { l with prs := l.prs.put f.id (probed (heard pr f.raftLog.committed) i n) }.sendAppend
            f.id := by
  obtain ⟨hint, n, found, searched, search, below, reached⟩ :=
    probing.paired.search probing.low probing.high
  refine ⟨hint, n, below, reached, fun m msgs index term => ?_⟩
  have nextProbe : l.nextProbeIndex (f.rejection m hint (termAt follower hint)) = .ok n := by
    unfold nextProbeIndex
    by_cases positive : termAt follower hint > 0
    · rw [if_pos positive] at search
      rw [if_pos ⟨rfl, positive⟩]
      simp only [rejection, search, ok_bind]
      rfl
    · rw [if_neg positive] at search
      rw [if_neg fun both => positive both.2]
      exact congrArg (fun x => Except.ok x.1) (Except.ok.inj search)
  refine ⟨?_, nextProbe, ?_⟩
  · refine handleAppendEntries_reject (f := { f with msgs }) probing.unasked (index ▸ probing.low) ?_ ?_
    · rw [index, term]
      exact mismatch
    · rw [index, term]
      exact searched
  · exact handleAppendResponse_reject (m := f.rejection m hint _) rfl index rfl probing.known
      probing.probe probing.next
      probing.fits unmatched below nextProbe

/-- A follower rejects the probe of a leader, whatever else the probe carries, and the leader
handles the rejection. -/
def ProbeRound (leader : List Entry) (f l l' : Raft) : Prop :=
  ∃ pr, l.prs.get f.id = some pr ∧ pr.state = .probe ∧
    ∀ m msgs, m.index + 1 = pr.nextIdx → m.logTerm = termAt leader m.index →
      ∃ response, response.reject = true ∧ { f with msgs }.handleAppendEntries m = .ok { f with
        msgs := msgs ++ [response] } ∧ l.handleAppendResponse response = .ok l'

/-- A rejected probe is followed by an earlier one that passes no common index. -/
theorem Probing.round (probing : Probing leader follower f l pr i)
    (supplies : l.Supplies pr (pr.matched + 1)) (unmatched : pr.matched < i)
    (mismatch : f.raftLog.matchTerm i (termAt leader i) = false) :
    ∃ l' pr' next, ProbeRound leader f l l' ∧ Probing leader follower f l' pr' next ∧
      pr'.matched = pr.matched ∧ l'.Supplies pr' (pr.matched + 1) ∧ pr.matched ≤ next ∧ next < i ∧
      ∀ j, Common leader follower j → j < i → j ≤ next := by
  obtain ⟨hint, n, below, reached, handle⟩ := probing.rejected unmatched mismatch
  obtain ⟨committedIndex, same⟩ := heard_eq pr f.raftLog.committed
  rw [same] at handle
  have wf := probing.paired.leads.wf
  have length := probing.paired.leads.length
  have high := probing.high
  have fits := probing.fits
  have next := probing.next
  generalize lowered : probed { pr with recentActive := true, committedIndex } i n = q at handle
  have matched : q.matched = pr.matched := by rw [← lowered]; rfl
  have ahead : q.nextIdx = max (min i (n + 1)) (pr.matched + 1) := by rw [← lowered]; rfl
  have state : q.state = .probe := by rw [← lowered]; exact probing.probe
  have asked : q.pendingRequestSnapshot = pr.pendingRequestSnapshot := by rw [← lowered]; rfl
  have supplied : { l with prs := l.prs.put f.id q }.Supplies q q.nextIdx := by
    have least : { l with prs := l.prs.put f.id q }.Supplies q (pr.matched + 1) :=
      ⟨asked.trans supplies.unasked, supplies.first, supplies.term⟩
    refine least.later wf (by omega) ?_
    change _ ≤ l.raftLog.lastIndex + 1
    omega
  obtain ⟨msgs, paused, sent⟩ := (sendAppend_probe (l := { l with prs := l.prs.put f.id q }) wf
    (get_put_own probing.known) state).2.2 supplied
  have base : f.raftLog.committed ≤ q.nextIdx - 1 := by
    have common := probing.paired.base
    have uncommon : f.raftLog.committed ≠ i := by
      rintro rfl
      have accepts :=
        (probing.paired.follows.matchTerm_common probing.paired.anchored probing.paired.leaderTerms
          le_rfl
        high).2 common
      rw [accepts] at mismatch
      cases mismatch
    have := reached _ common probing.low
    have := probing.low
    omega
  refine ⟨{ l with msgs, prs := (l.prs.put f.id q).put f.id { q with paused } }, { q with paused },
    q.nextIdx - 1, ⟨pr, probing.known, probing.probe, fun m queued index term => ?_⟩, ?_, matched,
      ⟨asked.trans supplies.unasked, supplies.first, supplies.term⟩, by
        omega, by omega, fun j common inside => ?_⟩
  · obtain rfl : m.index = i := by omega
    obtain ⟨rejects, -, handled⟩ := handle m queued rfl term
    exact ⟨_, rfl, rejects, handled.trans sent⟩
  · exact ⟨probing.paired, probing.unasked, get_put_own (get_put_own probing.known),
      state, by change q.nextIdx = _; omega,
      by change q.nextIdx < _; omega, base, by omega⟩
  · have := reached j common inside.le
    omega

/-- Repeated probes end at the largest common index. -/
theorem Probing.rounds (probing : Probing leader follower f l pr i)
    (supplies : l.Supplies pr (pr.matched + 1)) (known : Common leader follower pr.matched)
    (above : pr.matched ≤ i) :
    ∃ k l' pr', Relation.ReflTransGen (ProbeRound leader f) l l' ∧ l'.prs.get f.id = some pr' ∧
      pr'.state = .probe ∧
      pr'.nextIdx = k + 1 ∧ f.raftLog.matchTerm k (termAt leader k) = true ∧ Common leader follower k ∧
      ∀ j, Common leader follower j → j ≤ i → j ≤ k := by
  -- The induction is on the probed index, which every round lowers down to the matched one at the least.
  induction i using Nat.strongRecOn generalizing l pr with
  | _ i ih =>
      have accepts :=
        probing.paired.follows.matchTerm_common probing.paired.anchored probing.paired.leaderTerms
        probing.low probing.high
      cases accepted : f.raftLog.matchTerm i (termAt leader i) with
      | true =>
          exact ⟨i, l, pr, .refl, probing.known, probing.probe, probing.next, accepted,
            accepts.1 accepted, fun _ _ inside => inside⟩
      | false =>
          have uncommon : ¬ Common leader follower i := by
            rw [← accepts, accepted]
            nofun
          have unmatched : pr.matched < i := by
            refine Nat.lt_of_le_of_ne above ?_
            rintro rfl
            exact uncommon known
          obtain ⟨l₁, pr₁, next, round, again, matched, supplied, kept, smaller, reached⟩ :=
            probing.round supplies unmatched accepted
          obtain ⟨k, l', pr', steps, present, probe, ahead, accepts, common, largest⟩ :=
            ih next smaller again (matched ▸ supplied) (matched ▸ known) (matched ▸ kept)
          refine ⟨k, l', pr', .head round steps, present, probe, ahead, accepts, common,
            fun j shared inside => ?_⟩
          refine largest j shared (reached j shared (Nat.lt_of_le_of_ne inside ?_))
          rintro rfl
          exact uncommon shared

/-- A rejected probe is followed by an earlier one at or above every common index, down to the
largest one. The leader handles the rejection when its log supplies the follower or a snapshot can
be read. -/
theorem rejected_probe_reaches_common (paired : RaftLog.Paired l.raftLog f.raftLog leader follower)
    (matching : Matching leader follower) (unasked : f.pendingRequestSnapshot = invalidIndex)
    (known : l.prs.get f.id = some pr) (probe : pr.state = .probe) (next : pr.nextIdx = i + 1)
    (fits : pr.nextIdx < 2 ^ 64) (unmatched : pr.matched < i) (low : f.raftLog.committed ≤ i)
    (high : i ≤ l.raftLog.lastIndex) (index : m.index = i) (term : m.logTerm = termAt leader i)
    (mismatch : f.raftLog.matchTerm i (termAt leader i) = false) :
    ∃ hint n, let response := f.rejection m hint (termAt follower hint)
      f.handleAppendEntries m = .ok { f with msgs := f.msgs ++ [response] } ∧
      l.nextProbeIndex response = .ok n ∧ pr.maybeDecrTo i n invalidIndex = .ok (probed pr i n, true) ∧
      l.handleAppendResponse response =
        { l with prs := l.prs.put f.id (probed (heard pr f.raftLog.committed) i n) }.sendAppend f.id ∧
      (∀ l', l.handleAppendResponse response = .ok l' →
        ∃ pr', l'.prs.get f.id = some pr' ∧ pr'.nextIdx = (probed pr i n).nextIdx) ∧
      (l.Supplies pr (pr.matched + 1) ∨ l.HasSnapshot pr →
        ∃ l', l.handleAppendResponse response = .ok l') ∧
      (probed pr i n).nextIdx ≤ i ∧
      (∀ j, j < i → Common leader follower j → j ≤ (probed pr i n).nextIdx - 1) ∧
      (Common leader follower pr.matched → l.Supplies pr (pr.matched + 1) → ∃ k l' pr',
        Relation.ReflTransGen (ProbeRound leader f) l l' ∧ l'.prs.get f.id = some pr' ∧
          pr'.state = .probe ∧
        pr'.nextIdx = k + 1 ∧ f.raftLog.matchTerm k (termAt leader k) = true ∧
          leader.take k = follower.take k ∧
        ∀ j, Common leader follower j → j ≤ i → j ≤ k) := by
  rw [← paired.leads.length] at high
  have probing : Probing leader follower f l pr i :=
    ⟨paired, unasked, known, probe, next, fits, low, high⟩
  obtain ⟨hint, n, below, reached, handle⟩ := probing.rejected unmatched mismatch
  obtain ⟨rejects, search, handled⟩ := handle m f.msgs index term
  obtain ⟨committedIndex, same⟩ := heard_eq pr f.raftLog.committed
  obtain ⟨nextIdx, snapshot, entries⟩ :=
    sendAppend_probe
      (l := { l with prs := l.prs.put f.id (probed (heard pr f.raftLog.committed) i n) }) paired.leads.wf
      (get_put_own known) (by rw [same]; exact probe)
  rw [← handled] at nextIdx snapshot entries
  refine ⟨hint, n, rejects, search, maybeDecrTo_probe probe next fits unmatched below, handled, ?_,
    ?_, ?_, ?_, ?_⟩
  · intro l' done
    obtain ⟨pr', present, kept⟩ := nextIdx l' done
    exact ⟨pr', present, kept.trans (by rw [same]; rfl)⟩
  · have length := paired.leads.length
    rintro (supplies | supplied)
    · have supplied : l.Supplies pr (probed pr i n).nextIdx :=
        supplies.later paired.leads.wf (le_max_right _ _) (by simp only [probed]; omega)
      obtain ⟨msgs, paused, done⟩ :=
        entries (by rw [same]; exact ⟨supplied.unasked, supplied.first, supplied.term⟩)
      exact ⟨_, done⟩
    · exact snapshot (by rw [same]; exact supplied)
  · simp only [probed]
    omega
  · intro j inside common
    have := reached j common inside.le
    simp only [probed]
    omega
  · intro common supplies
    obtain ⟨k, l', pr', steps, present, state, ahead, accepts, shared, largest⟩ :=
      probing.rounds supplies common unmatched.le
    exact ⟨k, l', pr', steps, present, state, ahead, accepts, matching k shared, largest⟩

/-- The entries of a leader whose last two are of the third term. -/
def thirdTerm : List Entry :=
  [{ index := 1, term := 1 }, { index := 2, term := 3 }, { index := 3, term := 3 }]

/-- The entries of a follower whose last two are of the second term. -/
def secondTerm : List Entry :=
  [{ index := 1, term := 1 }, { index := 2, term := 2 }, { index := 3, term := 2 }]

/-- The two logs have only their first entry in common. -/
theorem matching_thirdTerm : Matching thirdTerm secondTerm := by
  rintro i ⟨inLeader, -, same⟩
  change i ≤ 3 at inLeader
  interval_cases i
  · rfl
  · rfl
  · cases same
  · cases same

/-- A leader that probes the second node at its last index. -/
def prober : Raft :=
  { Raft.blank { id := 1 } { entries := thirdTerm } fun _ => 0 with
    state := .leader, term := 3
    prs := { ProgressTracker.new 1 with progress := KeyMap.empty.insert 2 (Progress.new 4 1) } }

/-- A follower with another end of its log. -/
def diverged : Raft := { Raft.blank { id := 2 } { entries := secondTerm } fun _ => 0 with term := 3 }

/-- The probe of the third index is followed by one at the first index, which is the largest common
one. -/
theorem rejected_probe_reaches_common_first :
    ∃ hint n,
      let response := diverged.rejection { index := 3, logTerm := 3 } hint (termAt secondTerm hint)
      prober.nextProbeIndex response = .ok n ∧ (∃ l', prober.handleAppendResponse response = .ok l') ∧
      (probed (Progress.new 4 1) 3 n).nextIdx ≤ 3 ∧
      (∀ j, j < 3 → Common thirdTerm secondTerm j → j ≤ (probed (Progress.new 4 1) 3 n).nextIdx - 1) ∧
      ∃ l' pr', Relation.ReflTransGen (ProbeRound thirdTerm diverged) prober l' ∧
        l'.prs.get 2 = some pr' ∧ pr'.state = .probe ∧ pr'.nextIdx = 2 := by
  have leads : prober.raftLog.Shows thirdTerm :=
    (MemStorage.shows_entries (by simp [thirdTerm, contiguous_cons])).new 0
  have follows : diverged.raftLog.Shows secondTerm :=
    (MemStorage.shows_entries (by simp [secondTerm, contiguous_cons])).new 0
  have paired : RaftLog.Paired prober.raftLog diverged.raftLog thirdTerm secondTerm :=
    ⟨leads, follows, ⟨by simp [thirdTerm], by simp [thirdTerm]⟩,
      ⟨by simp [secondTerm], by simp [secondTerm]⟩,
      ⟨0, rfl⟩, rfl, Nat.zero_le _⟩
  have known : prober.prs.get diverged.id = some (Progress.new 4 1) := rfl
  have supplies : prober.Supplies (Progress.new 4 1) 1 := ⟨rfl, le_rfl, 0, rfl⟩
  obtain ⟨hint, n, -, search, -, -, -, returns, bound, reached, rounds⟩ :=
    rejected_probe_reaches_common (m := { index := 3, logTerm := 3 })
      (i := 3) paired matching_thirdTerm rfl known rfl rfl
      (by decide) (by decide) (by decide) (by decide) rfl rfl rfl
  obtain ⟨k, l', pr', steps, present, probe, next, -, shared, largest⟩ :=
    rounds (common_of_take (Nat.zero_le _) (Nat.zero_le _) rfl) supplies
  have least : 1 ≤ k := largest 1 ⟨by decide, by decide, rfl⟩ (by decide)
  have most : k < 2 := by
    by_contra beyond
    have second := congrArg (fun es => es[1]?) shared
    simp [thirdTerm, secondTerm, show 1 < k by omega] at second
  obtain rfl : k = 1 := by omega
  exact ⟨hint, n, search, returns (.inl supplies), bound, reached, l', pr', steps, present, probe, next⟩

end Raft

end RaftRs

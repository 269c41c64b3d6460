import RaftRs.Safe.Meaning

namespace RaftRs

open Library

namespace ReadOnly

/-- The waiting requests of a leader have read at most an index. -/
def Below (ro : ReadOnly) (bound : Nat) : Prop :=
  ∀ ctx status, ro.pendingReadIndex.get? ctx = some status → status.index ≤ bound

variable {ro ro' : ReadOnly} {bound : Nat}

theorem below_new (option : ReadOnlyOption) (bound : Nat) : (new option).Below bound := by
  intro ctx status found
  cases found

/-- A new request has read at most the bound. -/
theorem Below.addRequest (below : ro.Below bound) {index selfId : Nat} {req : Message}
    (low : index ≤ bound) (done : ro.addRequest index req selfId = .ok ro') : ro'.Below bound := by
  unfold ReadOnly.addRequest at done
  split at done
  · cases done
  simp only at done
  split at done
  · obtain rfl := Except.ok.inj done
    exact below
  · obtain rfl := Except.ok.inj done
    intro ctx status found
    simp only [KeyMap.get?_insert] at found
    split at found
    · obtain rfl := Option.some.inj found
      exact low
    · exact below ctx status found

theorem Below.recvAck (below : ro.Below bound) (id : Nat) (ctx : Bytes) :
    (ro.recvAck id ctx).1.Below bound := by
  unfold ReadOnly.recvAck
  split
  · exact below
  · intro other status found
    simp only [KeyMap.get?_modify] at found
    split at found
    · obtain ⟨old, present, rfl⟩ := Option.map_eq_some_iff.1 found
      exact below other old present
    · exact below other status found

/-- The first requests leave with their read indexes. -/
theorem Below.popFront (below : ro.Below bound) {count : Nat} {released : List ReadIndexStatus}
    (done : ro.popFront count = .ok (ro', released)) :
    ro'.Below bound ∧ ∀ rs ∈ released, rs.index ≤ bound := by
  induction count generalizing ro released with
  | zero =>
      obtain ⟨rfl, rfl⟩ := ok_pair_inj done
      exact ⟨below, List.forall_mem_nil _⟩
  | succ count ih =>
      unfold ReadOnly.popFront at done
      split at done
      · cases done
      next ctx rest queue =>
        split at done
        · cases done
        next status found =>
          obtain ⟨⟨last, later⟩, popped, done⟩ := bind_eq_ok.1 done
          obtain ⟨rfl, rfl⟩ := ok_pair_inj done
          have rest : ReadOnly.Below { ro with
              pendingReadIndex := ro.pendingReadIndex.remove ctx, readIndexQueue := rest } bound := by
            intro other status present
            simp only [KeyMap.get?_remove] at present
            split at present
            · cases present
            · exact below other status present
          obtain ⟨after, lower⟩ := ih rest popped
          exact ⟨after, List.forall_mem_cons.2 ⟨below ctx status found, lower⟩⟩

/-- The confirmed requests leave with their read indexes. -/
theorem Below.advance (below : ro.Below bound) {ctx : Bytes} {released : List ReadIndexStatus}
    (done : ro.advance ctx = .ok (ro', released)) :
    ro'.Below bound ∧ ∀ rs ∈ released, rs.index ≤ bound := by
  obtain ⟨found, -, done⟩ := bind_eq_ok.1 done
  cases found with
  | none =>
      obtain ⟨rfl, rfl⟩ := ok_pair_inj done
      exact ⟨below, List.forall_mem_nil _⟩
  | some i => exact below.popFront done

end ReadOnly

theorem MemStorage.Pictures.same {store store' : MemStorage} {v : Replica Nat Entry}
    (pictures : store.Pictures v) (same : store.Same store') : store'.Pictures v := by
  obtain ⟨raftState, entries, snapshotMetadata, snapUnavailable, logUnavailable⟩ := store
  obtain ⟨raftState', entries', snapshotMetadata', snapUnavailable', logUnavailable'⟩ := store'
  obtain ⟨sameEntries, sameMetadata, sameState⟩ := same
  simp only at sameEntries sameMetadata sameState
  subst sameEntries sameMetadata sameState
  exact ⟨pictures.term, pictures.vote,
    ⟨⟨pictures.log.wf.contiguous, pictures.log.wf.after⟩, pictures.log.length, pictures.log.entry,
      pictures.log.base⟩, pictures.commit, pictures.anchored⟩

/-- The promises that a node has made visible or handed to a pending write. -/
def issuedPromises (h : History Nat Entry) (x : Nat) (pending : List (Stage Nat Entry)) :
    Set (Promise Nat Entry) :=
  fun p => p ∈ h.recorded x ∨ ∃ s ∈ pending, p ∈ s.promises

/-- The positions that a leader tracks for a node rest on what the node has acknowledged. -/
structure Position.Rests (h : History Nat Entry) (t id last : Nat) (pos : Position) : Prop where
  matched : pos.matched = 0 ∨ ∃ j, pos.matched ≤ j ∧ h.Acked id t j
  next : pos.nextIdx ≤ max (last + 1) (pos.matched + 1)
  snapshot : pos.pendingSnapshot ≤ last
  request : pos.pendingRequestSnapshot = 0

theorem Position.Rests.mono {h h' : History Nat Entry} {t id last : Nat} {pos : Position}
    (rests : pos.Rests h t id last) (ext : h.Extends h') : pos.Rests h' t id last where
  matched := rests.matched.imp_right fun found => found.imp fun _ both => ⟨both.1, ext.acked both.2⟩
  next := rests.next
  snapshot := rests.snapshot
  request := rests.request

/-- An acknowledged index raises the positions that rest on it. -/
theorem Position.Rests.raise {h : History Nat Entry} {t id last : Nat} {pos : Position}
    (rests : pos.Rests h t id last) {index : Nat} (acked : index ≠ 0 → h.Acked id t index) :
    (pos.raise index).Rests h t id last := by
  refine ⟨?_, ?_, rests.snapshot, rests.request⟩
  · rcases Nat.lt_or_ge pos.matched index with up | down
    · simp only [Position.raise, max_eq_right up.le]
      exact .inr ⟨index, le_rfl, acked (Nat.ne_zero_of_lt up)⟩
    · simp only [Position.raise, max_eq_left down]
      exact rests.matched
  · have next := rests.next
    simp only [Position.raise]
    omega

namespace Core

/-- What a leader may rely on. -/
structure Rules (h : History Nat Entry) (x : Nat) (c : Core) : Prop where
  queue : ∀ m ∈ c.msgs, m.Backed x (h.recorded x)
  positions : ∀ id pos, c.positions id = some pos → pos.Rests h c.term id c.log.lastIndex
  reads : c.readOnly.Below c.log.committed
  decides : h.Decides c.term c.log.committed

/-- A node has the state of a replica, and its messages say and promise what the history knows. -/
structure Mirrors (h : History Nat Entry) (x : Nat) (durable : Replica Nat Entry)
    (pending : List (Stage Nat Entry)) (P : Set (Promise Nat Entry)) (V : Replica Nat Entry)
    (c : Core) : Prop where
  named : c.id = x
  picture : c.Pictures V
  stored : c.log.store.Pictures (History.latest durable pending)
  saved : (History.latest durable pending).commit ≤ V.commit
  means : ∀ m ∈ c.msgs, m.Means h
  queue : ∀ m ∈ c.msgs, m.Backed x (h.recorded x ∪ P)
  rules : c.state = .leader → c.Rules h x
  /-- A candidate whose own vote is on its way makes no other promise. -/
  campaigns : c.state = .candidate → (∃ log, .vote c.term x log ∈ issuedPromises h x pending) →
    P ⊆ {.vote c.term x V.log}
  unasked : c.pendingRequestSnapshot = invalidIndex
  unbatched : c.batchAppend = false

/-- A node that is part of a safe history. -/
structure Lives (cs : ConfState) (h : History Nat Entry) (x : Nat) (durable : Replica Nat Entry)
    (pending : List (Stage Nat Entry)) (P : Set (Promise Nat Entry)) (V : Replica Nat Entry)
    (c : Core) : Prop where
  recounts : Recounts cs h
  inv : h.NodeInv x durable pending (some ⟨P, V⟩)
  mirrors : c.Mirrors h x durable pending P V

/-- A node continues a safe history. -/
def Continues (cs : ConfState) (h : History Nat Entry) (x : Nat) (durable : Replica Nat Entry)
    (pending : List (Stage Nat Entry)) (c : Core) : Prop :=
  ∃ h' P V, h.Frame x h' ∧ c.Lives cs h' x durable pending P V

variable {cs : ConfState} {h h' : History Nat Entry} {x : Nat} {durable V : Replica Nat Entry}
  {pending : List (Stage Nat Entry)} {P : Set (Promise Nat Entry)} {c c' : Core} {m : Message}

theorem Lives.continues (lives : c.Lives cs h x durable pending P V) :
    c.Continues cs h x durable pending :=
  ⟨h, P, V, .refl x h, lives⟩

theorem Mirrors.anchored (mirrors : c.Mirrors h x durable pending P V) :
    ∃ t, c.log.term c.log.committed = .ok t := by
  refine mirrors.picture.log.wf.anchored_of_store (mirrors.stored.anchored.imp_left fun retained => ?_)
  have saved := mirrors.saved
  rw [mirrors.stored.commit, mirrors.picture.commit] at saved
  exact retained.trans saved

theorem Rules.keep (rules : c.Rules h x) (same : c'.term = c.term ∧ c'.msgs = c.msgs)
    (last : c'.log.lastIndex = c.log.lastIndex) (committed : c'.log.committed = c.log.committed)
    (positions : c'.positions = c.positions) (reads : c'.readOnly = c.readOnly) : c'.Rules h x where
  queue := same.2 ▸ rules.queue
  positions := by
    rw [same.1, last, positions]
    exact rules.positions
  reads := by
    rw [reads, committed]
    exact rules.reads
  decides := by
    rw [same.1, committed]
    exact rules.decides

theorem Mirrors.keep (mirrors : c.Mirrors h x durable pending P V)
    (same : c'.id = c.id ∧ c'.term = c.term ∧ c'.vote = c.vote ∧ c'.state = c.state ∧ c'.msgs = c.msgs)
    (log : c'.log.Shows V.log) (committed : c'.log.committed = c.log.committed)
    (store : c.log.store.Same c'.log.store)
    (still : c'.pendingRequestSnapshot = c.pendingRequestSnapshot ∧ c'.batchAppend = c.batchAppend)
    (rules : c'.state = .leader → c.Rules h x → c'.Rules h x) : c'.Mirrors h x durable pending P V := by
  obtain ⟨id, term, vote, state, msgs⟩ := same
  have picture := mirrors.picture
  refine ⟨id.trans mirrors.named, ⟨?_, ?_, ?_, log, ?_⟩, mirrors.stored.same store, mirrors.saved,
    ?_, ?_, ?_, ?_, ?_, ?_⟩
  · rw [term]
    exact picture.term
  · rw [vote]
    exact picture.vote
  · rw [state]
    exact picture.role
  · rw [committed]
    exact picture.commit
  · rw [msgs]
    exact mirrors.means
  · rw [msgs]
    exact mirrors.queue
  · exact fun leads => rules leads (mirrors.rules (state ▸ leads))
  · rw [state, term]
    exact mirrors.campaigns
  · exact still.1.trans mirrors.unasked
  · exact still.2.trans mirrors.unbatched

/-- Every promise of a node is kept by its live state. -/
theorem Lives.kept (lives : c.Lives cs h x durable pending P V) {p : Promise Nat Entry}
    (issued : p ∈ issuedPromises h x pending) : h.Kept V p := by
  rcases issued with recorded | ⟨s, inside, promised⟩
  · exact lives.inv.kept recorded
  · exact lives.inv.faithful.last_kept (List.mem_append_left _ (List.mem_cons_of_mem _ inside)) promised

theorem Mirrors.length (mirrors : c.Mirrors h x durable pending P V) : V.log.length = c.log.lastIndex :=
  mirrors.picture.log.length

theorem Lives.leader_log (lives : c.Lives cs h x durable pending P V) (role : c.state = .leader) :
    V.log = h.log c.term := by
  have leads : V.role = .leader := by rw [lives.mirrors.picture.role, role]; rfl
  rw [← lives.mirrors.picture.term]
  exact lives.inv.leader_log leads

/-- A live leader was elected in its term. -/
theorem Lives.leader_elected (lives : c.Lives cs h x durable pending P V) (role : c.state = .leader) :
    ∃ e ∈ h.elections, e.term = c.term ∧ e.leader = x := by
  have leads : V.role = .leader := by rw [lives.mirrors.picture.role, role]; rfl
  rw [← lives.mirrors.picture.term]
  exact lives.inv.leader_elected leads

/-- A leader may announce what it has committed. -/
theorem Lives.announces (lives : c.Lives cs h x durable pending P V) (role : c.state = .leader) {i : Nat}
    (low : i ≤ c.log.committed) : Announces h c.term i := by
  have proper := lives.inv.proper
  have whole : Announces h c.term c.log.committed := by
    rw [Announces, ← lives.leader_log role, ← lives.mirrors.picture.commit]
    exact ⟨proper.bounded, proper.committed⟩
  exact whole.of_le low

/-- The commit position of a node is that of a committed log. -/
theorem Lives.commitInfo (lives : c.Lives cs h x durable pending P V) {commit commitTerm : Nat}
    (info : c.log.commitInfo = .ok (commit, commitTerm)) :
    ∃ log, h.Committed log ∧ log.length = commit ∧ lastTerm log = commitTerm := by
  obtain ⟨rfl, term⟩ := lives.mirrors.picture.log.commitInfo info
  have proper := lives.inv.proper
  have commit := lives.mirrors.picture.commit
  refine ⟨V.log.take V.commit, proper.committed, ?_, commit ▸ term⟩
  rw [List.length_take, min_eq_left proper.bounded, commit]

/-- A leader stays part of a history that grows with its own invariant. -/
theorem Lives.extend (lives : c.Lives cs h x durable pending P V) (role : c.state = .leader)
    (recounts : Recounts cs h') (inv : h'.NodeInv x durable pending (some ⟨P, V⟩)) (ext : h.Extends h')
    (commits : ∀ j, h'.commits c.term j → h.commits c.term j) : c.Lives cs h' x durable pending P V := by
  have mirrors := lives.mirrors
  have rules := mirrors.rules role
  refine ⟨recounts, inv, mirrors.named, mirrors.picture, mirrors.stored, mirrors.saved,
    fun m inside => (mirrors.means m inside).mono ext,
    fun m inside => (mirrors.queue m inside).mono (Set.union_subset_union_left _ (ext.recorded x)),
    fun _ => ⟨fun m inside => (rules.queue m inside).mono (ext.recorded x),
      fun id pos known => (rules.positions id pos known).mono ext, rules.reads,
        rules.decides.mono ext commits⟩, ?_, mirrors.unasked, mirrors.unbatched⟩
  simp [role]

end Core

end RaftRs

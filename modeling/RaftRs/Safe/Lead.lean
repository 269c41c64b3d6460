import RaftRs.Safe.Follow

namespace RaftRs

open Library

variable {cs : ConfState} {h : History Nat Entry} {x : Nat} {durable V : Replica Nat Entry}
  {pending : List (Stage Nat Entry)} {P : Set (Promise Nat Entry)} {inp : Input → Prop}
    {c c' : Core} {m : Message}
  {net : List Message}

/-- A sent vote is recorded. -/
theorem Voted.recorded (sent : ∀ m ∈ net, m.Backed m.fromId (h.recorded m.fromId))
    {candidate term voter : Nat} (voted : Voted net candidate term voter) :
    ∃ log n, h.votes voter term candidate log n := by
  obtain ⟨m, inside, votes, rfl, same, rfl⟩ := voted
  rcases votes with request | ⟨response, granted⟩
  · rw [Message.candidate, if_pos request] at same
    obtain ⟨-, log, ⟨n, vote⟩, -⟩ := (sent m inside).request request
    exact ⟨log, n, same ▸ vote⟩
  · rw [Message.candidate, if_neg (by simp [response])] at same
    obtain ⟨-, log, n, vote⟩ := (sent m inside).grant response granted
    exact ⟨log, n, same ▸ vote⟩

namespace Core

/-- A candidate with the votes of a quorum leads its term with its log. -/
theorem Lives.lead (several : cs.NoSingleton) (sent : ∀ m ∈ net, m.Backed m.fromId (h.recorded m.fromId))
    (lives : c.Lives cs h x durable pending P V) (role : c.state = .candidate) (nonzero : c.term ≠ 0)
    (settled : c.log.lastIndex = c.log.persisted)
    (voted : Voted net x c.term x ∧ cs.jointConfig.Agrees (Voted net x c.term)) :
    c.asLeader.Continues cs h x durable pending := by
  have mirrors := lives.mirrors
  have picture := mirrors.picture
  have valid := lives.recounts.valid
  have intersecting := several.intersecting
  have runs : V.role = .candidate := by rw [picture.role, role]; rfl
  let voters : Set Nat := fun y => Voted net x c.term y
  have quorum : cs.Quorum voters := voted.2
  have itself : x ∈ voters := voted.1
  have votes : ∀ y ∈ voters, ∃ log n, h.votes y V.term x log n := by
    intro y chosen
    rw [picture.term]
    exact Voted.recorded sent chosen
  have fresh := lives.inv.not_elected valid intersecting runs quorum votes
  have validElect := lives.inv.valid_elect valid intersecting runs quorum itself votes
  have elect := lives.inv.elect valid intersecting runs quorum itself votes
  have recountsElect :=
    lives.recounts.elect (by rw [← picture.term] at nonzero; exact nonzero) lives.inv.proper.path
    validElect
  -- Every state that the leader may restart from has its log, so the leader has acknowledged it.
  have written : ∀ u ∈ History.older durable pending, V.log.length ≤ u.log.length := by
    obtain ⟨-, e, member, term, -, all⟩ := elect.leading _ rfl rfl
    have won : History.victory x V voters ∈ (h.elect (History.victory x V voters)).elections :=
      List.mem_append_right _ (List.mem_singleton.2 rfl)
    obtain rfl := validElect.election_unique member won term
    exact fun u inside => (all u inside).2.1.length_le
  have inv := elect.acknowledge validElect rfl written
  have recounts := recountsElect.record (elect.recordable_self (i := V.log.length) rfl)
  have frameElect : h.Frame x (h.elect (History.victory x V voters)) :=
    valid.frame_elect (e := History.victory x V voters) fresh
  have frame := frameElect.trans (History.frame_record x _ {.ack V.term V.log.length})
  have ext := frame.toExtends
  have more := ext.recorded x
  refine ⟨_, P, _, frame, recounts, inv, mirrors.named,
    ⟨picture.term, ?_, rfl, picture.log, picture.commit⟩, mirrors.stored, mirrors.saved,
      fun m inside => (mirrors.means m inside).mono ext, fun m inside => ?_,
        fun _ => ⟨fun m inside => ?_, ?_, ?_, ?_, ?_⟩,
    by simp [asLeader], rfl, mirrors.unbatched⟩
  · show V.vote = voteFor (if c.term = c.term then c.vote else invalidId)
    rw [if_pos rfl]
    exact picture.vote
  · exact (mirrors.queue m inside).mono (Set.union_subset_union_left _ more)
  · -- The own vote is the only promise that the queue may need.
    obtain ⟨own, n, vote⟩ := votes x itself
    have kept := lives.inv.kept (p := .vote V.term x own) ⟨n, vote⟩
    obtain rfl := (kept.2 rfl).2 runs
    have only := mirrors.campaigns role ⟨V.log, .inl ⟨n, picture.term ▸ vote⟩⟩
    refine (mirrors.queue m inside).mono (Set.union_subset more fun p promised => ?_)
    obtain rfl := only promised
    exact ⟨n, .inl (picture.term ▸ vote)⟩
  · intro id pos known
    change Function.update c.freshPositions c.id _ id = some pos at known
    show pos.Rests _ c.term id c.log.lastIndex
    by_cases same : id = c.id
    · subst same
      rw [Function.update_self] at known
      obtain rfl := Option.some.inj known
      refine ⟨.inr ⟨V.log.length, ?_, .inl (.inr ⟨mirrors.named, ?_⟩)⟩, ?_, Nat.zero_le _, rfl⟩
      · rw [mirrors.length, settled]
      · rw [← picture.term]
        rfl
      · simp only [settled]
        exact le_max_left _ _
    · rw [Function.update_of_ne same, freshPositions] at known
      obtain ⟨old, -, rfl⟩ := Option.map_eq_some_iff.1 known
      rw [if_neg same]
      exact ⟨.inl rfl, le_max_left _ _, Nat.zero_le _, rfl⟩
  · exact ReadOnly.below_new _ _
  · refine ⟨History.victory x V voters, List.mem_append_right _ (List.mem_singleton.2 rfl),
      picture.term, fun beyond => ?_⟩
    have within := lives.inv.proper.bounded
    rw [picture.commit] at within
    exact absurd within (Nat.not_le.2 beyond)
  · intro j decided
    have elected := (valid.decided (t := c.term) decided).1
    rw [← picture.term] at elected
    exact absurd elected fresh

/-- A leader that appends entries to its log grows the log of its term. -/
theorem Lives.grow (lives : c.Lives cs h x durable pending P V) (role : c.state = .leader)
    {es : List Entry} {log : RaftLog}
    (done : c.log.append (Raft.assignPositions c.term c.log.lastIndex es) = .ok log)
    (pendingConfIndex : Nat) :
    { c with log, pendingConfIndex }.Continues cs h x durable pending := by
  have mirrors := lives.mirrors
  have picture := mirrors.picture
  have rules := mirrors.rules role
  have leads : V.role = .leader := by rw [picture.role, role]; rfl
  have terms : ∀ e ∈ Raft.assignPositions c.term c.log.lastIndex es, e.term = V.term := by
    intro e inside
    rw [picture.term]
    exact term_assignPositions inside
  obtain ⟨e, member, term, leader⟩ := lives.inv.leader_elected leads
  have whole : V.log = h.log V.term := lives.inv.leader_log leads
  have numbered : Contiguous ((h.log V.term).length + 1)
      (Raft.assignPositions c.term c.log.lastIndex es) := by
    rw [← whole, mirrors.length]
    exact contiguous_assignPositions c.term c.log.lastIndex es
  have inv := lives.inv.grow lives.recounts.valid leads terms
  have recounts := lives.recounts.grow ⟨e, member, term⟩ terms numbered
  have frame := lives.recounts.valid.frame_grow member (Raft.assignPositions c.term c.log.lastIndex es)
  rw [leader, term] at frame
  obtain ⟨shows, committed⟩ := picture.log.grow done
  have last : c.log.lastIndex ≤ log.lastIndex := by
    rw [← shows.length, List.length_append, mirrors.length]
    exact Nat.le_add_right _ _
  have store : log.store = c.log.store := (RaftLog.rooted_append done).store
  refine ⟨_, P, _, frame, recounts, inv, mirrors.named,
    ⟨picture.term, picture.vote, picture.role, shows, picture.commit.trans committed.symm⟩, ?_,
      mirrors.saved,
    fun m inside => (mirrors.means m inside).mono frame.toExtends, mirrors.queue,
      fun _ => ⟨rules.queue, ?_, ?_, ?_⟩, ?_,
    mirrors.unasked, mirrors.unbatched⟩
  · exact mirrors.stored.same (.of_eq store)
  · intro id pos known
    have rests := rules.positions id pos known
    exact ⟨rests.matched, rests.next.trans (max_le_max_right _ (Nat.succ_le_succ last)),
      rests.snapshot.trans last, rests.request⟩
  · exact fun ctx status found => (rules.reads ctx status found).trans committed.ge
  · rw [committed]
    exact rules.decides.mono frame.toExtends fun _ decided => decided
  · simp [role]

/-- A leader that a quorum has acknowledged concludes an index of its term. -/
theorem Lives.conclude (lives : c.Lives cs h x durable pending P V) (role : c.state = .leader)
    {i : Nat} {log : RaftLog}
    (acked : cs.jointConfig.Agrees fun id => ∃ pos, c.positions id = some pos ∧ i ≤ pos.matched)
    (done : c.log.maybeCommit i c.term = .ok (log, true)) :
    { c with log }.Continues cs h x durable pending := by
  have mirrors := lives.mirrors
  have picture := mirrors.picture
  have rules := mirrors.rules role
  obtain ⟨e, member, term, leader⟩ := lives.leader_elected role
  have whole := lives.leader_log role
  obtain ⟨rfl, up, inside, own, -⟩ := picture.log.maybeCommit done
  have quorum : cs.Quorum fun id => ∃ pos, c.positions id = some pos ∧ i ≤ pos.matched := acked
  have valid :=
    lives.recounts.valid.conclude ⟨e, member, term⟩ (by omega) (whole ▸ inside) (whole ▸ own) quorum (by
    rintro y ⟨pos, known, le⟩
    rcases (rules.positions y pos known).matched with zero | ⟨j, matched, found⟩
    · omega
    · exact ⟨j, le.trans matched, found⟩)
  have frame := History.frame_conclude ⟨e, member, term, leader⟩ i
  have decided : (h.conclude c.term i).commits c.term i := .inr ⟨rfl, rfl⟩
  refine ⟨_, P, _, frame,
    lives.advance (lives.recounts.conclude valid) (lives.inv.conclude lives.recounts.valid valid)
    frame.toExtends rfl up.le inside ?_ fun _ => ⟨⟨e, member, term, fun _ => decided⟩, ?_⟩⟩
  · rw [whole]
    exact .inr ⟨c.term, i, decided, List.prefix_refl _⟩
  · rintro j (old | ⟨-, rfl⟩)
    · exact (rules.decides.highest j old).trans up.le
    · exact le_rfl

/-- A leader that moves the positions of a node. -/
theorem Lives.at' (lives : c.Lives cs h x durable pending P V) {id : Nat} {pos : Position}
    (rests : c.state = .leader → pos.Rests h c.term id c.log.lastIndex) :
    (c.at' id pos).Lives cs h x durable pending P V := by
  refine ⟨lives.recounts, lives.inv,
    lives.mirrors.keep ⟨rfl, rfl, rfl, rfl, rfl⟩ lives.mirrors.picture.log rfl (.of_eq rfl)
    ⟨rfl, rfl⟩ fun role rules => ⟨rules.queue, ?_, rules.reads, rules.decides⟩⟩
  intro other found known
  change Function.update c.positions id (some pos) other = some found at known
  by_cases same : other = id
  · subst same
    rw [Function.update_self] at known
    obtain rfl := Option.some.inj known
    exact rests role
  · rw [Function.update_of_ne same] at known
    exact rules.positions other found known

/-- An acknowledged index raises the positions of a node. -/
theorem Lives.acknowledge (lives : c.Lives cs h x durable pending P V) {pos : Position}
    (credible : m.Credible h x) (kind : m.msgType = .msgAppendResponse)
    (accepted : m.reject = false) (hears : c.Hears m) (known : c.positions m.fromId = some pos) :
    (c.at' m.fromId (pos.raise m.index)).Lives cs h x durable pending P V := by
  refine lives.at' fun role => ((lives.mirrors.rules role).positions m.fromId pos known).raise
    fun nonzero => ?_
  obtain ⟨-, -, backed⟩ := credible.sent (by simp [kind])
  have acked : h.Acked m.fromId m.term m.index := (backed.ack kind accepted nonzero).2
  have elected := lives.recounts.elected_ne (lives.recounts.valid.ackElected acked)
  rwa [hears.resolve_right elected] at acked

/-- A leader that moves the positions of a node inside of their bounds. -/
theorem Lives.move (heard : ∀ m, inp (.message m) → m.Credible h x)
    (lives : c.Lives cs h x durable pending P V) {id : Nat} {pos pos' : Position}
    (known : c.positions id = some pos) (moves : Moves inp c pos pos') :
    (c.at' id pos').Lives cs h x durable pending P V := by
  refine lives.at' fun role => ?_
  have rests := (lives.mirrors.rules role).positions id pos known
  have next := rests.next
  have bound := moves.next
  have snapshot := rests.snapshot
  refine ⟨moves.matched ▸ rests.matched, ?_, ?_, ?_⟩
  · rw [moves.matched]
    omega
  · rcases moves.snapshot with same | zero <;> omega
  · rcases moves.request with same | zero | ⟨m, stepped, kind, same⟩
    · exact same.trans rests.request
    · exact zero
    · obtain ⟨-, means, -⟩ := (heard m stepped).sent (by simp [kind])
      exact same.trans (means.unasked kind)

/-- A leader that has sent entries moves on behind them. -/
theorem Lives.sent (lives : c.Lives cs h x durable pending P V) {toId : Nat} {pos : Position}
    {ents : List Entry} {last : Entry} {maxSize : Option Nat} {context : GetEntriesFor}
    (known : c.positions toId = some pos)
    (read : c.log.entries pos.nextIdx maxSize context = .ok (.ok ents))
    (ends : ents.getLast? = some last) :
    (c.at' toId { pos with nextIdx := last.index + 1 }).Lives cs h x durable pending P V := by
  refine lives.at' fun role => ?_
  have rests := (lives.mirrors.rules role).positions toId pos known
  have wf := lives.mirrors.picture.log.wf
  obtain ⟨reads, -⟩ := wf.entries read
  have nonempty : ents ≠ [] := by
    rintro rfl
    cases ends
  rw [List.getLast?_eq_getElem?] at ends
  have present := reads _ last ends
  have bounds := wf.bounds present
  have index := wf.entryAt_index present
  exact ⟨rests.matched, by simp only; omega, rests.snapshot, rests.request⟩

/-- A leader sends a snapshot of its committed log. -/
theorem Lives.sendSnapshot (heard : ∀ m, inp (.message m) → m.Credible h x)
    (lives : c.Lives cs h x durable pending P V) {toId : Nat} {pos : Position} {snapshot : Snapshot}
    (role : c.state = .leader) (other : Addressee inp c toId) (known : c.positions toId = some pos)
    (taken : c.log.snapshot pos.pendingRequestSnapshot = .ok (c.log, .ok snapshot)) :
    ((c.push { msgType := .msgSnapshot, toId, fromId := c.id, term := c.term, snapshot }).at' toId
      { pos with pendingSnapshot := snapshot.metadata.index }).Lives cs h x durable pending P V := by
  have mirrors := lives.mirrors
  have picture := mirrors.picture
  have rests := (mirrors.rules role).positions toId pos known
  have leads : V.role = .leader := by rw [picture.role, role]; rfl
  have heard' : ∀ m, inp (.message m) → m.Credible h c.id := by rwa [mirrors.named]
  have elected := lives.leader_elected role
  rw [← mirrors.named] at elected
  rw [rests.request] at taken
  -- The snapshot is the pending one or stands at the commit index of the last write.
  have taken : Announces h c.term snapshot.metadata.index ∧
      termAt (h.log c.term) snapshot.metadata.index = snapshot.metadata.term := by
    rw [Announces, ← lives.leader_log role]
    rcases RaftLog.snapshot_source taken with waiting | ⟨store, stored⟩
    · have low := picture.log.wf.low
      rw [RaftLog.firstIndex_of_snapshot waiting] at low
      have announced := lives.announces role (Nat.le_of_succ_le_succ low)
      rw [Announces, ← lives.leader_log role] at announced
      exact ⟨announced, picture.log.pending snapshot waiting⟩
    · have older := History.latest_mem_older durable pending
      obtain ⟨-, e, -, -, -, all⟩ := lives.inv.leading _ rfl leads
      obtain ⟨-, -, begins⟩ := all _ older
      obtain ⟨index, bounded, term⟩ := mirrors.stored.log.snapshot stored
      have same : V.log.take snapshot.metadata.index =
          (History.latest durable pending).log.take snapshot.metadata.index := by
        obtain ⟨rest, whole⟩ := begins
        rw [← whole, List.take_append_of_le_length bounded]
      refine ⟨⟨bounded.trans begins.length_le, ?_⟩, ?_⟩
      · rw [same, index, ← mirrors.stored.commit]
        exact (lives.inv.older_proper older).committed
      · rw [termAt, same]
        exact term
  have bounded := taken.1.1
  rw [← lives.leader_log role, mirrors.length] at bounded
  have plain : ∀ P, Message.Backed x P { msgType := .msgSnapshot, toId, fromId := c.id,
                                         term := c.term, snapshot } :=
    fun _ => Message.backed_of_plain (by simp) (by simp) (by simp)
  have pushed :=
    lives.push (Set.Subset.refl _) lives.inv
      (Message.means_snapshot rfl elected (other.other heard') taken)
    (plain _) (fun _ => plain _) fun _ same => same
  exact pushed.at' fun _ => ⟨rests.matched, rests.next, bounded, rests.request⟩

end Core

end RaftRs

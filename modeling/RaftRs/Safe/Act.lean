import RaftRs.Safe.Lead

namespace RaftRs

open Library

variable {cs : ConfState} {h h' : History Nat Entry} {x : Nat} {durable V : Replica Nat Entry}
  {pending : List (Stage Nat Entry)} {P : Set (Promise Nat Entry)} {inp : Input → Prop}
    {c c' : Core} {m : Message}
  {net issued : List Message}

/-- A persisted snapshot moves only the persisted index. -/
theorem RaftLog.maybePersistSnap_mark {log log' : RaftLog} {index : Nat} {moved : Bool}
    (done : log.maybePersistSnap index = .ok (log', moved)) :
    ∃ persisted, log' = { log with persisted } := by
  unfold RaftLog.maybePersistSnap at done
  split at done
  · split at done
    · cases done
    split at done
    · cases done
    · exact ⟨index, (ok_pair_inj done).1.symm⟩
  · exact ⟨log.persisted, (ok_pair_inj done).1.symm⟩

/-- An applied index moves only the applied index. -/
theorem RaftLog.appliedTo_mark {log log' : RaftLog} {index : Nat}
    (done : log.appliedTo index = .ok log') :
    ∃ applied, log' = { log with applied } := by
  unfold RaftLog.appliedTo at done
  split at done
  · exact ⟨log.applied, (Except.ok.inj done).symm⟩
  split at done
  · cases done
  · exact ⟨index, (Except.ok.inj done).symm⟩

namespace Core

/-- What a leader has stored of the terms before its own lies in the log that it was elected
with. -/
theorem Lives.written_before (lives : c.Lives cs h x durable pending P V) (role : c.state = .leader)
    {index term : Nat} (stored : c.log.store.term index = .ok term) (earlier : term ≠ c.term) :
    ∀ u ∈ History.older durable pending, index ≤ u.log.length := by
  have mirrors := lives.mirrors
  have leads : V.role = .leader := by rw [mirrors.picture.role, role]; rfl
  obtain ⟨inside, same⟩ := mirrors.stored.log.term stored
  obtain ⟨whole, e, member, electedTerm, -, all⟩ := lives.inv.leading _ rfl leads
  obtain ⟨tail, grown, terms⟩ := lives.recounts.valid.logExtends e member
  obtain ⟨-, -, begins⟩ := all _ (History.latest_mem_older durable pending)
  have low : index ≤ e.base.length := by
    by_contra above
    have grown : V.log = e.base ++ tail := by rw [whole, ← electedTerm, grown]
    obtain ⟨k, rfl⟩ : ∃ k, index = e.base.length + k + 1 := ⟨index - e.base.length - 1, by omega⟩
    have bound : e.base.length + k < V.log.length := Nat.lt_of_lt_of_le inside begins.length_le
    have entry := List.getElem?_eq_getElem bound
    have last : termAt V.log (e.base.length + k + 1) = term := by
      obtain ⟨rest, joined⟩ := begins
      rw [← same, termAt, termAt, ← joined, List.take_append_of_le_length inside]
    rw [termAt, lastTerm_of_getElem? entry] at last
    have inTail : V.log[e.base.length + k] ∈ tail := by
      have found : tail[k]? = some V.log[e.base.length + k] := by
        rw [← entry, grown, List.getElem?_append_right (Nat.le_add_right _ _), Nat.add_sub_cancel_left]
      exact List.mem_of_getElem? found
    refine earlier ?_
    rw [← last, ← mirrors.picture.term, ← electedTerm]
    exact terms _ inTail
  exact fun u older => low.trans (all u older).2.1.length_le

/-- A leader counts what every state that it may restart from holds. -/
theorem Lives.persist (lives : c.Lives cs h x durable pending P V) {index term : Nat} {log : RaftLog}
    (written : c.state = .leader → term = c.term →
      ∀ u ∈ History.older durable pending, index ≤ u.log.length)
    (done : c.log.maybePersist index term = (log, true)) :
    ({ c with log }.countOwn index).Continues cs h x durable pending := by
  have mirrors := lives.mirrors
  obtain ⟨no, -⟩ | ⟨-, rfl, -, stored, -⟩ := RaftLog.maybePersist_ok done
  · cases no
  have marked : { c with log := { c.log with persisted := index } }.Lives cs h x durable pending P V :=
    ⟨lives.recounts, lives.inv,
      mirrors.keep ⟨rfl, rfl, rfl, rfl, rfl⟩ (mirrors.picture.log.persist index) rfl (.of_eq rfl)
      ⟨rfl, rfl⟩ fun _ rules => rules.keep ⟨rfl, rfl⟩ rfl rfl rfl rfl⟩
  unfold countOwn
  split
  next role =>
    split
    next pos known =>
      have leads : V.role = .leader := by rw [marked.mirrors.picture.role, role]; rfl
      have all : ∀ u ∈ History.older durable pending, index ≤ u.log.length := by
        by_cases same : term = c.term
        · exact written role same
        · exact lives.written_before role stored same
      have frame := History.frame_record x h {.ack V.term index}
      have acked := marked.extend role (lives.recounts.record (lives.inv.recordable_self leads))
        (lives.inv.acknowledge lives.recounts.valid leads all) frame.toExtends fun _ decided => decided
      refine ⟨_, P, V, frame,
        acked.at' fun _ => ((acked.mirrors.rules role).positions _ pos known).raise fun _ => ?_⟩
      refine .inl (.inr ⟨mirrors.named, ?_⟩)
      rw [← mirrors.picture.term]
      rfl
    · exact marked.continues
  · exact marked.continues

/-- A leader answers a read of what it has committed. -/
theorem Lives.respond (lives : c.Lives cs h x durable pending P V) (role : c.state = .leader)
    (req : Message) {index : Nat} (low : index ≤ c.log.committed) :
    (c.respond req index).Lives cs h x durable pending P V := by
  have mirrors := lives.mirrors
  have elected := lives.leader_elected role
  rw [← mirrors.named] at elected
  unfold Core.respond
  split
  · split
    · exact lives
    · exact ⟨lives.recounts, lives.inv,
        mirrors.keep ⟨rfl, rfl, rfl, rfl, rfl⟩ mirrors.picture.log rfl (.of_eq rfl) ⟨rfl, rfl⟩
        fun _ rules => rules.keep ⟨rfl, rfl⟩ rfl rfl rfl rfl⟩
  · have plain : ∀ P, Message.Backed x P { msgType := .msgReadIndexResp, toId := req.fromId,
                                           fromId := c.id, term := c.term
                                           index, entries := req.entries } :=
      fun _ => Message.backed_of_plain (by simp) (by simp) (by simp)
    exact lives.push (Set.Subset.refl _) lives.inv
      (Message.means_read rfl elected (lives.announces role low)) (plain _)
      (fun _ => plain _) fun _ same => same

/-- A leader answers confirmed reads. -/
theorem Lives.responds {confirmed : List ReadIndexStatus} (lives : c.Lives cs h x durable pending P V)
    (role : c.state = .leader) (low : ∀ rs ∈ confirmed, rs.index ≤ c.log.committed) :
    (confirmed.foldl (fun c rs => c.respond rs.req rs.index) c).Lives cs h x durable pending P V := by
  induction confirmed generalizing c with
  | nil => exact lives
  | cons status rest ih =>
      obtain ⟨first, others⟩ := List.forall_mem_cons.1 low
      obtain ⟨_, _, same⟩ := c.respond_rest status.req status.index
      rw [List.foldl_cons]
      refine ih (lives.respond role status.req first) ?_ ?_
      · rw [same]
        exact role
      · rw [same]
        exact others

/-- A change of the marks and switches of a log. -/
theorem Lives.mark (lives : c.Lives cs h x durable pending P V) {log : RaftLog}
    (log_shows : log.Shows V.log) (committed : log.committed = c.log.committed)
    (store : c.log.store.Same log.store) :
    { c with log }.Lives cs h x durable pending P V := by
  have mirrors := lives.mirrors
  have last : log.lastIndex = c.log.lastIndex := by rw [← log_shows.length, mirrors.length]
  exact ⟨lives.recounts, lives.inv,
    mirrors.keep ⟨rfl, rfl, rfl, rfl, rfl⟩ log_shows committed store ⟨rfl, rfl⟩
    fun _ rules => rules.keep ⟨rfl, rfl⟩ last committed rfl rfl⟩

theorem Lives.same (lives : c.Lives cs h x durable pending P V)
    (same : c'.id = c.id ∧ c'.term = c.term ∧ c'.vote = c.vote ∧ c'.state = c.state ∧ c'.msgs = c.msgs)
    (log : c'.log = c.log)
    (still : c'.pendingRequestSnapshot = c.pendingRequestSnapshot ∧ c'.batchAppend = c.batchAppend)
    (positions : c'.positions = c.positions)
    (reads : c.readOnly.Below c.log.committed → c'.readOnly.Below c.log.committed) :
    c'.Lives cs h x durable pending P V := by
  refine ⟨lives.recounts, lives.inv, lives.mirrors.keep same (log ▸ lives.mirrors.picture.log)
    (by rw [log])
    (.of_eq (by rw [log])) still fun _ rules => ⟨same.2.2.2.2 ▸ rules.queue, ?_, ?_, ?_⟩⟩
  · rw [same.2.1, log, positions]
    exact rules.positions
  · rw [log]
    exact reads rules.reads
  · rw [same.2.1, log]
    exact rules.decides

end Core

/-- What a call of a node may use in a history: credible messages, and no change of the
configuration, of the batching and no requested snapshot. -/
structure Supplied (inp : Input → Prop) (net : List Message) (h : History Nat Entry) (x : Nat) :
    Prop where
  credible : ∀ m, inp (.message m) → m.Credible h x
  heard : ∀ m, inp (.message m) → Heard net x m
  sent : ∀ m ∈ net, m.Backed m.fromId (h.recorded m.fromId)
  fixed : ∀ cc, ¬ inp (.confChange cc)
  unasked : ¬ inp .requestSnapshot
  unbatched : ∀ enabled, inp (.batching enabled) → enabled = false

theorem Supplied.mono (supplied : Supplied inp net h x) (ext : h.Extends h') :
    Supplied inp net h' x where
  credible m input := (supplied.credible m input).mono ext
  heard := supplied.heard
  sent m inside := (supplied.sent m inside).mono (ext.recorded _)
  fixed := supplied.fixed
  unasked := supplied.unasked
  unbatched := supplied.unbatched

/-- Every atomic change of a node continues the history. -/
theorem Act.continues (several : cs.NoSingleton) (supplied : Supplied inp net h x)
    (uniform : c.Uniform cs) (sworn : c.Sworn cs net x issued) (inside : net ⊆ issued)
    (grounded : c.Grounded)
    (written : ∀ index term, inp (.persisted index term) → c.state = .leader → term = c.term →
      ∀ u ∈ History.older durable pending, index ≤ u.log.length)
    (lives : c.Lives cs h x durable pending P V) (act : Act inp c c') :
    c'.Continues cs h x durable pending := by
  have credible := supplied.credible
  have all : ∀ m ∈ net, m.Asked net := fun m sent => sworn.asked m (List.mem_append_left _ (inside sent))
  have whole := lives.mirrors.picture.log
  have leads := act.leads several uniform all sworn
  cases act with
  | send sends =>
      exact lives.send several credible supplied.unasked (fun role => sworn.own (.inl role))
        sworn.positive sends
  | bump stepped later => exact (lives.bump later).continues
  | stepDown => exact lives.stepDown.continues
  | campaign may role cause => exact (lives.campaign several sworn.positive).continues
  | preCampaign may role eligible => exact lives.preCampaign.continues
  | countSelf | countVote | reserve | prioritise | learnRead =>
      exact Core.Lives.continues
        (lives.same ⟨rfl, rfl, rfl, rfl, rfl⟩ rfl ⟨rfl, rfl⟩ rfl fun below => below)
  | lead may role won settled known =>
      exact lives.lead several supplied.sent role (grounded.roles (.inl role)) settled (leads rfl)
  | grow role admitted done source => exact lives.grow role done c.pendingConfIndex
  | leave role free done given => exact lives.grow role done _
  | grant stepped kind term nonzero free complete =>
      have sent := ((supplied.heard _ stepped).sent (.inl (.inl kind))).1
      have candidate := (all _ sent).cast (.inl kind)
      rw [Message.candidate, if_pos kind] at candidate
      exact lives.grant several (credible _ stepped) kind term candidate free complete
  | accept stepped kind hears role unasked above done =>
      exact lives.accept (credible _ stepped) kind hears role above done
  | heartbeat stepped kind hears role done =>
      exact lives.heartbeat (credible _ stepped) kind hears role done
  | restore stepped kind hears role fresh done same rostered =>
      have fails := fresh.resolve_left fun asked => asked lives.mirrors.unasked
      exact lives.restore several (credible _ stepped) kind hears role fails done
  | fastForward stepped kind hears role agrees done =>
      exact lives.fastForward (credible _ stepped) kind role agrees done
  | commitByVote stepped kind role nonzero done =>
      exact lives.commitByVote (credible _ stepped) kind role nonzero done
  | commitByRead stepped kind hears role done =>
      exact lives.commitByRead (credible _ stepped) kind (by simp [role]) done
  | commitByQuorum role acked done => exact lives.conclude role (uniform.conf.agrees acked) done
  | acknowledge stepped kind accepted hears role known =>
      exact (lives.acknowledge (credible _ stepped) kind accepted hears known).continues
  | move known moves => exact (lives.move credible known moves).continues
  | sent known read ends => exact (lives.sent known read ends).continues
  | sendSnapshot role other known taken nonempty =>
      exact (lives.sendSnapshot credible role other known taken).continues
  | batch role enabled =>
      rw [lives.mirrors.unbatched] at enabled
      cases enabled
  | persist reported done => exact lives.persist (written _ _ reported) done
  | persistSnap reported done =>
      obtain ⟨persisted, rfl⟩ := RaftLog.maybePersistSnap_mark done
      exact Core.Lives.continues (lives.mark (whole.mark _ _ _) rfl (.of_eq rfl))
  | apply given done =>
      obtain ⟨applied, rfl⟩ := RaftLog.appliedTo_mark done
      exact Core.Lives.continues (lives.mark (whole.mark _ _ _) rfl (.of_eq rfl))
  | trigger => exact Core.Lives.continues (lives.mark (whole.trigger _ _) rfl ⟨rfl, rfl, rfl⟩)
  | limit set => exact Core.Lives.continues (lives.mark (whole.mark _ _ _) rfl (.of_eq rfl))
  | batching set =>
      have still := (supplied.unbatched _ set).trans lives.mirrors.unbatched.symm
      exact Core.Lives.continues
        (lives.same ⟨rfl, rfl, rfl, rfl, rfl⟩ rfl ⟨rfl, still⟩ rfl fun below => below)
  | reconfigure changed => exact absurd changed (supplied.fixed _)
  | askSnapshot asked => exact absurd asked supplied.unasked
  | addRead stepped kind role current done =>
      exact Core.Lives.continues
        (lives.same ⟨rfl, rfl, rfl, rfl, rfl⟩ rfl ⟨rfl, rfl⟩ rfl fun below => below.addRequest
          le_rfl done)
  | ackRead role source =>
      exact Core.Lives.continues
        (lives.same ⟨rfl, rfl, rfl, rfl, rfl⟩ rfl ⟨rfl, rfl⟩ rfl fun below => below.recvAck _ _)
  | @confirm ctx status readOnly confirmed role waiting acked done =>
      obtain ⟨rest, low⟩ := (lives.mirrors.rules role).reads.advance done
      have released : { c with readOnly }.Lives cs h x durable pending P V :=
        lives.same ⟨rfl, rfl, rfl, rfl, rfl⟩ rfl ⟨rfl, rfl⟩ rfl fun _ => rest
      exact (released.responds role low).continues
  | respondNow stepped kind role immediate => exact (lives.respond role _ le_rfl).continues

/-- Without an election only a node that has led before leads, and in the same term. -/
theorem Acts.leader_before (unelected : ¬ inp .election) (acts : Acts inp c c')
    (role : c'.state = .leader) :
    c.state = .leader ∧ c'.term = c.term := by
  induction acts with
  | refl => exact ⟨role, rfl⟩
  | tail before act ih =>
      obtain ⟨term, led | ⟨may, -⟩⟩ := act.leader_turns role
      · exact ⟨(ih led).1, term.trans (ih led).2⟩
      · exact absurd may unelected

/-- Every sequence of atomic changes of a node continues the history. -/
theorem Acts.continues (several : cs.NoSingleton) (supplied : Supplied inp net h x)
    (heard : ∀ m, inp (.message m) → m.Uniform cs ∧ m.Termed) (uniform : c.Uniform cs)
    (sworn : c.Sworn cs net x issued) (inside : net ⊆ issued) (grounded : c.Grounded)
    (written : ∀ index term, inp (.persisted index term) → ¬ inp .election ∧
      (c.state = .leader → term = c.term →
      ∀ u ∈ History.older durable pending, index ≤ u.log.length))
    (lives : c.Lives cs h x durable pending P V) (acts : Acts inp c c') :
    c'.Continues cs h x durable pending := by
  induction acts with
  | refl => exact lives.continues
  | tail before act ih =>
      obtain ⟨h', P', V', frame, lives'⟩ := ih
      have voters : ∀ m, inp (.message m) → m.Uniform cs := fun m input => (heard m input).1
      obtain ⟨h'', P'', V'', frame', lives''⟩ := act.continues several (supplied.mono frame.toExtends)
        (Acts.uniform voters supplied.fixed uniform before)
        (Acts.sworn supplied.heard several voters supplied.fixed uniform inside sworn before) inside
        (Acts.grounded (fun m input => (heard m input).2) grounded before)
        (fun index term reported role same => by
          obtain ⟨unelected, all⟩ := written index term reported
          obtain ⟨led, kept⟩ := Acts.leader_before unelected before role
          exact all led (same.trans kept)) lives'
      exact ⟨h'', P'', V'', frame.trans frame', lives''⟩

end RaftRs

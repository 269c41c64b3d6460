import RaftRs.Node.Ready

namespace RaftRs

open Library

/-- A log without a gap whose pending snapshot has a position. -/
structure RaftLog.Sound (log : RaftLog) : Prop where
  wf : log.WF
  positioned : ∀ s, log.unstable.snapshot = some s → s.metadata.index ≠ 0

namespace RaftLog

variable {log log' : RaftLog}

theorem Sound.of_snapshot (sound : log.Sound)
    (kept : log'.WF ∧ log'.unstable.snapshot = log.unstable.snapshot) :
    log'.Sound :=
  ⟨kept.1, fun s pending => sound.positioned s (kept.2 ▸ pending)⟩

theorem Sound.commitTo (sound : log.Sound) {toCommit : Nat}
    (done : log.commitTo toCommit = .ok log') : log'.Sound := by
  refine sound.of_snapshot ⟨sound.wf.commitTo done, ?_⟩
  obtain ⟨rfl, -⟩ := commitTo_ok done
  rfl

/-- The commit index moves by position inside of a sound log. -/
theorem Sound.maybeCommit (sound : log.Sound) {maxIndex term : Nat} {moved : Bool}
    (done : log.maybeCommit maxIndex term = .ok (log', moved)) : log'.Sound := by
  unfold RaftLog.maybeCommit at done
  split at done
  · obtain ⟨middle, committed, done⟩ := bind_eq_ok.1 done
    cases done
    exact sound.commitTo committed
  · cases done
    exact sound

/-- A snapshot with a position replaces a sound log. -/
theorem Sound.restore (sound : log.Sound) {snapshot : Snapshot}
    (positioned : snapshot.metadata.index ≠ 0) (done : log.restore snapshot = .ok log') :
    log'.Sound := by
  unfold RaftLog.restore at done
  simp only at done
  split at done
  · cases done
  · obtain rfl := Except.ok.inj done
    refine ⟨⟨sound.wf.store, contiguous_nil _, ?_, nofun, ?_, ?_⟩, ?_⟩
    · intro s pending
      cases pending
      rfl
    · rw [firstIndex_of_snapshot rfl]
    · simp [RaftLog.lastIndex, Unstable.restore, Unstable.maybeLastIndex]
    · intro s pending
      cases pending
      exact positioned

/-- The marks and the switches of a log have no part in its shape. -/
theorem Sound.mark (sound : log.Sound) (persisted applied limit : Nat)
    (snapUnavailable logUnavailable : Bool) :
    Sound { log with
      persisted, applied, maxApplyUnpersistedLogLimit := limit
      store := { log.store with
        triggerSnapUnavailable := snapUnavailable, triggerLogUnavailable := logUnavailable } } :=
  ⟨⟨⟨sound.wf.store.contiguous, sound.wf.store.after⟩, sound.wf.contiguous, sound.wf.snapshot,
    sound.wf.joined, sound.wf.low, sound.wf.high⟩, sound.positioned⟩

/-- A persisted position keeps the shape. -/
theorem Sound.maybePersist (sound : log.Sound) {index term : Nat} {moved : Bool}
    (done : log.maybePersist index term = (log', moved)) : log'.Sound := by
  rcases maybePersist_ok done with ⟨-, rfl⟩ | ⟨-, rfl, -⟩
  · exact sound
  · exact sound.of_snapshot ⟨sound.wf.persist _, rfl⟩

/-- A persisted snapshot keeps the shape. -/
theorem Sound.maybePersistSnap (sound : log.Sound) {index : Nat} {moved : Bool}
    (done : log.maybePersistSnap index = .ok (log', moved)) : log'.Sound := by
  unfold RaftLog.maybePersistSnap at done
  split_ifs at done
  · cases done
    exact sound.of_snapshot ⟨sound.wf.persist _, rfl⟩
  · cases done
    exact sound

theorem Sound.appliedTo (sound : log.Sound) {idx : Nat} (done : log.appliedTo idx = .ok log') :
    log'.Sound := by
  unfold RaftLog.appliedTo at done
  split_ifs at done
  · cases done
    exact sound
  · cases done
    exact sound.mark log.persisted idx log.maxApplyUnpersistedLogLimit _ _

theorem WF.entries_contiguous (wf : log.WF) {idx : Nat} {maxSize : Option Nat} {context : GetEntriesFor}
    {ents : List Entry} (done : log.entries idx maxSize context = .ok (.ok ents)) :
    Contiguous idx ents := by
  intro k entry present
  exact wf.entryAt_index ((wf.entries done).1 k entry present)

end RaftLog

/-- The entries that a leader appends are contiguous. -/
theorem contiguous_assignPositions (term lastIndex : Nat) (es : List Entry) :
    Contiguous (lastIndex + 1) (Raft.assignPositions term lastIndex es) := by
  intro k entry present
  rw [Raft.getElem?_assignPositions] at present
  obtain ⟨e, -, rfl⟩ := Option.map_eq_some_iff.1 present
  simp only
  omega

/-- The entries of an append message are contiguous and a snapshot message has a position. -/
structure Message.Tidy (m : Message) : Prop where
  append : m.msgType = .msgAppend → ∃ first, Contiguous first m.entries
  snapshot : m.msgType = .msgSnapshot → m.snapshot.metadata.index ≠ 0

/-- A node with a sound log that sends tidy messages. -/
structure Core.Tidy (c : Core) : Prop where
  log : c.log.Sound
  msgs : ∀ m ∈ c.msgs, m.Tidy

theorem Message.tidy_of_kind {m : Message} (append : m.msgType ≠ .msgAppend)
    (snapshot : m.msgType ≠ .msgSnapshot) :
    m.Tidy :=
  ⟨fun kind => absurd kind append, fun kind => absurd kind snapshot⟩

variable {inp : Input → Prop} {c c' : Core}

theorem Sends.tidy {m : Message} (sound : c.log.Sound) (sends : Sends inp c m) : m.Tidy := by
  cases sends with
  | append role other known term read => exact ⟨fun _ => ⟨_, sound.wf.entries_contiguous read⟩, by simp⟩
  | voteReject stepped kind nonzero info =>
      apply Message.tidy_of_kind
      · simp only [Raft.voteRespMsgType]
        split <;> simp
      · simp only [Raft.voteRespMsgType]
        split <;> simp
  | forward stepped role kind =>
      apply Message.tidy_of_kind
      · rcases kind with ⟨kind, -⟩ | ⟨kind, -⟩ | ⟨kind, -⟩ <;> simp [kind]
      · rcases kind with ⟨kind, -⟩ | ⟨kind, -⟩ | ⟨kind, -⟩ <;> simp [kind]
  | _ => apply Message.tidy_of_kind <;> simp [Core.ackFor]

theorem Core.Tidy.silent (tidy : c.Tidy) (sound : c'.log.Sound) (same : c'.msgs = c.msgs) : c'.Tidy :=
  ⟨sound, by rw [same]; exact tidy.msgs⟩

theorem Core.Tidy.sends (tidy : c.Tidy) {m : Message} (sound : c'.log.Sound)
    (more : c'.msgs = c.msgs ++ [m]) (new : m.Tidy) : c'.Tidy := by
  refine ⟨sound, fun other inside => ?_⟩
  rw [more] at inside
  rcases List.mem_append.1 inside with old | last
  · exact tidy.msgs other old
  · rw [List.mem_singleton.1 last]
    exact new

theorem Core.Tidy.asFollower (tidy : c.Tidy) (term : Nat) : (c.asFollower term).Tidy :=
  tidy.silent (tidy.log.mark _ _ 0 _ _) rfl

theorem Core.Tidy.respond (tidy : c.Tidy) (req : Message) (index : Nat) :
    (c.respond req index).Tidy := by
  unfold Core.respond
  split
  · split
    · exact tidy
    · exact tidy.silent tidy.log rfl
  · exact tidy.sends tidy.log rfl (Message.tidy_of_kind nofun nofun)

/-- Answered reads keep a node tidy. -/
theorem Core.Tidy.responds (tidy : c.Tidy) (confirmed : List ReadIndexStatus) :
    (confirmed.foldl (fun c rs => c.respond rs.req rs.index) c).Tidy := by
  induction confirmed generalizing c with
  | nil => exact tidy
  | cons status rest ih => exact ih (tidy.respond status.req status.index)

/-- Batched entries continue the message that they join. -/
theorem Message.Tidy.batch {msg : Message} (tidy : msg.Tidy) (kind : msg.msgType = .msgAppend)
    {next commit : Nat} {ents : List Entry} (contiguous : Contiguous next ents)
    (continuous : ents = [] ∨ isContinuousEnts msg ents = true) :
    Message.Tidy { msg with entries := msg.entries ++ ents, commit } := by
  refine ⟨fun _ => ?_, fun other => ?_⟩
  · obtain ⟨first, old⟩ := tidy.append kind
    cases last : msg.entries.getLast? with
    | none =>
        rw [List.getLast?_eq_none_iff.1 last, List.nil_append]
        exact ⟨next, contiguous⟩
    | some e =>
        refine ⟨first, old.append ?_⟩
        have ends := old.last last
        cases start : ents.head? with
        | none =>
            rw [List.head?_eq_none_iff.1 start]
            exact contiguous_nil _
        | some e' =>
            have begins := contiguous.head start
            rcases continuous with empty | continuous
            · rw [empty] at start
              cases start
            · have follows : e.index + 1 = e'.index := by
                simpa [isContinuousEnts, last, start] using continuous
              rw [← ends, follows, begins]
              exact contiguous
  · rw [kind] at other
    cases other

/-- Every atomic change keeps a node tidy that hears tidy messages. -/
theorem Act.tidy (heard : ∀ m, inp (.message m) → m.Tidy) (tidy : c.Tidy) (act : Act inp c c') :
    c'.Tidy := by
  have sound := tidy.log
  cases act with
  | send sends => exact tidy.sends sound rfl (sends.tidy sound)
  | bump stepped later => exact tidy.asFollower _
  | stepDown => exact tidy.asFollower _
  | grow role admitted done =>
      exact tidy.silent
        (sound.of_snapshot (sound.wf.append_wf (contiguous_assignPositions _ _ _) done)) rfl
  | leave role free done =>
      exact tidy.silent
        (sound.of_snapshot (sound.wf.append_wf (contiguous_assignPositions _ _ _) done)) rfl
  | grant stepped kind term nonzero free complete =>
      exact tidy.sends sound rfl (Message.tidy_of_kind nofun nofun)
  | accept stepped kind heardFrom role unasked above done =>
      obtain ⟨first, contiguous⟩ := (heard _ stepped).append kind
      exact tidy.sends (sound.of_snapshot (sound.wf.maybeAppend_wf contiguous done)) rfl
        (Message.tidy_of_kind nofun nofun)
  | heartbeat stepped kind heardFrom role done => exact tidy.silent (sound.commitTo done) rfl
  | restore stepped kind heardFrom role fresh done same =>
      exact tidy.sends (sound.restore ((heard _ stepped).snapshot kind) done) rfl
        (Message.tidy_of_kind nofun nofun)
  | fastForward stepped kind heardFrom role agrees done => exact tidy.silent (sound.commitTo done) rfl
  | commitByVote stepped kind role positive done => exact tidy.silent (sound.maybeCommit done) rfl
  | commitByRead stepped kind heardFrom role done => exact tidy.silent (sound.maybeCommit done) rfl
  | commitByQuorum role acked done => exact tidy.silent (sound.maybeCommit done) rfl
  | sendSnapshot role other known taken nonempty => exact tidy.sends sound rfl ⟨nofun, fun _ => nonempty⟩
  | batch role enabled known read queued kind receiver continuous =>
      refine ⟨sound, fun m inside => ?_⟩
      rcases List.mem_append.1 inside with before | rest
      · exact tidy.msgs m (by rw [queued]; exact List.mem_append_left _ before)
      · rcases List.mem_cons.1 rest with rfl | after
        · refine Message.Tidy.batch (tidy.msgs _ ?_) kind (sound.wf.entries_contiguous read) continuous
          rw [queued]
          exact List.mem_append_right _ List.mem_cons_self
        · exact tidy.msgs m
            (by rw [queued]; exact List.mem_append_right _ (List.mem_cons_of_mem _ after))
  | persist reported done =>
      rw [Core.countOwn_rest]
      exact tidy.silent (sound.maybePersist done) rfl
  | persistSnap reported done => exact tidy.silent (sound.maybePersistSnap done) rfl
  | apply given done => exact tidy.silent (sound.appliedTo done) rfl
  | trigger => exact tidy.silent (sound.mark _ _ _ _ _) rfl
  | limit set => exact tidy.silent (sound.mark _ _ _ _ _) rfl
  | confirm role pending acked done =>
      apply Core.Tidy.responds
      exact tidy.silent sound rfl
  | respondNow stepped kind role immediate => exact tidy.respond _ _
  | _ => exact tidy.silent sound rfl

theorem Acts.tidy (heard : ∀ m, inp (.message m) → m.Tidy) (tidy : c.Tidy) (acts : Acts inp c c') :
    c'.Tidy := by
  induction acts with
  | refl => exact tidy
  | tail _ act ih => exact act.tidy heard ih

end RaftRs

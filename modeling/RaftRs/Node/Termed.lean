import RaftRs.Act.Emit
import RaftRs.Model.Play
import RaftRs.Node.Saved

namespace RaftRs

open Library

/-- A storage without entries and snapshot. -/
structure MemStorage.Vacant (store : MemStorage) : Prop where
  entries : store.entries = []
  index : store.snapshotMetadata.index = 0
  term : store.snapshotMetadata.term = 0

/-- A log without entries and snapshot. -/
structure RaftLog.Vacant (log : RaftLog) : Prop where
  store : log.store.Vacant
  entries : log.unstable.entries = []
  snapshot : log.unstable.snapshot = none

theorem MemStorage.Vacant.firstIndex {store : MemStorage} (vacant : store.Vacant) :
    store.firstIndex = 1 := by
  simp [MemStorage.firstIndex, vacant.entries, vacant.index]

theorem MemStorage.Vacant.lastIndex {store : MemStorage} (vacant : store.Vacant) :
    store.lastIndex = 0 := by
  simp [MemStorage.lastIndex, vacant.entries, vacant.index]

theorem MemStorage.Vacant.same {store store' : MemStorage} (vacant : store.Vacant)
    (same : store.Same store') :
    store'.Vacant := by
  refine ⟨same.entries.trans vacant.entries, ?_, ?_⟩
  · rw [same.snapshotMetadata]
    exact vacant.index
  · rw [same.snapshotMetadata]
    exact vacant.term

theorem RaftLog.Vacant.marks {log log' : RaftLog} (vacant : log.Vacant) (marks : log.Marks log') :
    log'.Vacant := by
  refine ⟨?_, ?_, ?_⟩
  · rw [marks.store]
    exact vacant.store
  · rw [marks.unstable]
    exact vacant.entries
  · rw [marks.unstable]
    exact vacant.snapshot

theorem RaftLog.Vacant.lastIndex {log : RaftLog} (vacant : log.Vacant) : log.lastIndex = 0 := by
  simp [RaftLog.lastIndex, Unstable.maybeLastIndex, vacant.entries, vacant.snapshot,
    vacant.store.lastIndex]

/-- Every log is at least as complete as a vacant one. -/
theorem RaftLog.Vacant.isUpToDate {log : RaftLog} (vacant : log.Vacant) (index term : Nat) :
    log.isUpToDate index term = .ok true := by
  have none : log.unstable.maybeTerm 0 = none := by
    simp [Unstable.maybeTerm, Unstable.maybeLastIndex, vacant.entries, vacant.snapshot]
  have lastTerm : log.lastTerm = .ok 0 := by
    simp [RaftLog.lastTerm, RaftLog.term, vacant.lastIndex, none, MemStorage.term,
      vacant.store.index, vacant.store.term]
  simp only [RaftLog.isUpToDate, lastTerm, vacant.lastIndex, ok_bind]
  rcases Nat.eq_zero_or_pos term with zero | positive
  · subst zero
    rfl
  · simp [positive]
    rfl

/-- Elections, appends and snapshots carry a term; proposals and reads carry none. -/
structure Message.Termed (m : Message) : Prop where
  termed : m.IsVoteRequest ∨ m.IsVoteResponse ∨ m.msgType = .msgAppend ∨ m.msgType = .msgSnapshot →
    m.term ≠ 0
  untermed : m.msgType = .msgPropose ∨ m.msgType = .msgReadIndex → m.term = 0

/-- A node enters its first term by an election or a message, has no entries before and sends
messages with terms. -/
structure Core.Grounded (c : Core) : Prop where
  roles : c.state = .candidate ∨ c.state = .leader → c.term ≠ 0
  vacant : c.term = 0 → c.log.Vacant
  msgs : ∀ m ∈ c.msgs, m.Termed

variable {inp : Input → Prop} {permitted : Config → Prop} {c c' : Core} {m : Message}

theorem Message.termed_of (nonzero : m.term ≠ 0)
    (kind : m.msgType ≠ .msgPropose ∧ m.msgType ≠ .msgReadIndex) :
    m.Termed :=
  ⟨fun _ => nonzero, fun plain => (plain.elim kind.1 kind.2).elim⟩

/-- A message of a kind that needs no term. -/
theorem Message.termed_free (request : ¬ m.IsVoteRequest) (response : ¬ m.IsVoteResponse)
    (kind : m.msgType ≠ .msgAppend ∧ m.msgType ≠ .msgSnapshot ∧ m.msgType ≠ .msgPropose ∧
      m.msgType ≠ .msgReadIndex) :
    m.Termed := by
  refine ⟨?_, fun plain => (plain.elim kind.2.2.1 kind.2.2.2).elim⟩
  rintro (votes | votes | append | snapshot)
  · exact absurd votes request
  · exact absurd votes response
  · exact absurd append kind.1
  · exact absurd snapshot kind.2.1

theorem Message.Own.termed (ofOwn : m.Own) : m.Termed := by
  obtain ⟨kind | kind | kind, zero⟩ := ofOwn
  · exact ⟨by simp [Message.IsVoteRequest, Message.IsVoteResponse, kind], fun _ => zero⟩
  · exact ⟨by simp [Message.IsVoteRequest, Message.IsVoteResponse, kind], fun _ => zero⟩
  · refine Message.termed_free ?_ ?_ ?_ <;> simp [Message.IsVoteRequest, Message.IsVoteResponse, kind]

theorem Sends.termed (heard : ∀ m, inp (.message m) → m.Termed) (grounded : c.Grounded)
    (sends : Sends inp c m) :
    m.Termed := by
  cases sends with
  | voteRequest role other info last => exact Message.termed_of (grounded.roles (.inl role)) (by simp)
  | preVoteRequest role other info => exact Message.termed_of (Nat.succ_ne_zero _) (by simp)
  | preVoteGrant stepped kind =>
      exact Message.termed_of ((heard _ stepped).termed (.inl (.inr kind))) (by simp)
  | voteReject stepped kind nonzero info =>
      refine Message.termed_of nonzero ⟨?_, ?_⟩ <;> rcases kind with kind | kind <;>
        simp [Raft.voteRespMsgType, kind]
  | stalePreVote stepped kind stale => exact Message.termed_of (Nat.ne_zero_of_lt stale) (by simp)
  | append role other known term read => exact Message.termed_of (grounded.roles (.inr role)) (by simp)
  | forward stepped role kind =>
      rcases kind with ⟨kind, zero⟩ | ⟨kind, zero⟩ | ⟨kind, -⟩
      · exact ⟨by simp [Message.IsVoteRequest, Message.IsVoteResponse, kind], fun _ => zero⟩
      · exact ⟨by simp [Message.IsVoteRequest, Message.IsVoteResponse, kind], fun _ => zero⟩
      · refine Message.termed_free ?_ ?_ ?_ <;> simp [Message.IsVoteRequest, Message.IsVoteResponse,
          kind]
  | _ =>
      refine Message.termed_free ?_ ?_ ?_ <;> simp [Message.IsVoteRequest, Message.IsVoteResponse,
        Core.ackFor]

theorem Core.Emits.termed (heard : ∀ m, inp (.message m) → m.Termed) (grounded : c.Grounded)
    (emits : c.Emits inp c' m) : m.Termed := by
  cases emits with
  | sends sends => exact sends.termed heard grounded
  | grant stepped kind term nonzero free cast => exact Message.termed_of nonzero (by simp)
  | snapshot role same taken => exact Message.termed_of (grounded.roles (.inr role)) (by simp)
  | batched role queued kind same =>
      exact ⟨(grounded.msgs _ queued).termed, (grounded.msgs _ queued).untermed⟩
  | _ =>
      refine Message.termed_free ?_ ?_ ?_ <;> simp [Message.IsVoteRequest, Message.IsVoteResponse,
        Core.ackFor]

/-- A node that has heard an append or a snapshot has a term. -/
theorem Core.Hears.term_ne (hears : c.Hears m) (termed : m.Termed)
    (kind : m.msgType = .msgAppend ∨ m.msgType = .msgSnapshot) : c.term ≠ 0 := by
  have nonzero := termed.termed (.inr (.inr kind))
  rcases hears with same | zero
  · exact same ▸ nonzero
  · exact absurd zero nonzero

/-- Every atomic change keeps a node grounded. -/
theorem Act.grounded (heard : ∀ m, inp (.message m) → m.Termed) (grounded : c.Grounded)
    (act : Act inp c c') :
    c'.Grounded := by
  have msgs : ∀ m ∈ c'.msgs, m.Termed := by
    intro m inside
    rcases act.emits inside with old | new
    · exact grounded.msgs m old
    · exact new.termed heard grounded
  have leads : c.state = .leader → c.term = 0 → c'.log.Vacant :=
    fun role zero => absurd zero (grounded.roles (.inr role))
  cases act with
  | bump stepped later => exact ⟨nofun, fun zero => absurd zero (Nat.ne_zero_of_lt later), msgs⟩
  | stepDown => exact ⟨nofun, fun zero => (grounded.vacant zero).marks ⟨rfl, rfl⟩, msgs⟩
  | campaign may role cause =>
      exact ⟨fun _ => Nat.succ_ne_zero _, fun zero => absurd zero (Nat.succ_ne_zero _), msgs⟩
  | preCampaign may role eligible => exact ⟨nofun, grounded.vacant, msgs⟩
  | lead may role won settled known => exact ⟨fun _ => grounded.roles (.inl role), grounded.vacant, msgs⟩
  | grow role admitted done => exact ⟨grounded.roles, leads role, msgs⟩
  | leave role free done => exact ⟨grounded.roles, leads role, msgs⟩
  | accept stepped kind hears role unasked above done =>
      exact ⟨grounded.roles, fun zero => absurd zero (hears.term_ne (heard _ stepped) (.inl kind)), msgs⟩
  | heartbeat stepped kind hears role done =>
      exact ⟨grounded.roles, fun zero => (grounded.vacant zero).marks (RaftLog.marks_commitTo done),
        msgs⟩
  | restore stepped kind hears role fresh done =>
      exact ⟨grounded.roles, fun zero => absurd zero (hears.term_ne (heard _ stepped) (.inr kind)), msgs⟩
  | fastForward stepped kind hears role agrees done =>
      exact ⟨grounded.roles, fun zero => (grounded.vacant zero).marks (RaftLog.marks_commitTo done),
        msgs⟩
  | commitByVote stepped kind role positive done =>
      exact ⟨grounded.roles,
        fun zero => (grounded.vacant zero).marks (RaftLog.marks_maybeCommit done), msgs⟩
  | commitByRead stepped kind hears role done =>
      exact ⟨grounded.roles,
        fun zero => (grounded.vacant zero).marks (RaftLog.marks_maybeCommit done), msgs⟩
  | commitByQuorum role acked done => exact ⟨grounded.roles, leads role, msgs⟩
  | persist reported done =>
      rw [Core.countOwn_rest] at msgs ⊢
      exact ⟨grounded.roles,
        fun zero => (grounded.vacant zero).marks (RaftLog.marks_maybePersist done), msgs⟩
  | persistSnap reported done =>
      exact ⟨grounded.roles,
        fun zero => (grounded.vacant zero).marks (RaftLog.marks_maybePersistSnap done), msgs⟩
  | apply given done =>
      exact ⟨grounded.roles,
        fun zero => (grounded.vacant zero).marks (RaftLog.marks_appliedTo done), msgs⟩
  | trigger =>
      refine ⟨grounded.roles, fun zero => ?_, msgs⟩
      have vacant := grounded.vacant zero
      exact ⟨vacant.store.same ⟨rfl, rfl, rfl⟩, vacant.entries, vacant.snapshot⟩
  | limit set => exact ⟨grounded.roles, fun zero => (grounded.vacant zero).marks ⟨rfl, rfl⟩, msgs⟩
  | @confirm ctx status readOnly confirmed role pending acked done =>
      obtain ⟨_, _, rest⟩ := Core.responds_rest { c with readOnly } confirmed
      rw [rest] at msgs ⊢
      exact ⟨grounded.roles, grounded.vacant, msgs⟩
  | @respondNow m stepped kind role immediate =>
      obtain ⟨_, _, rest⟩ := c.respond_rest m c.log.committed
      rw [rest] at msgs ⊢
      exact ⟨grounded.roles, grounded.vacant, msgs⟩
  | _ => exact ⟨grounded.roles, grounded.vacant, msgs⟩

theorem Acts.grounded (heard : ∀ m, inp (.message m) → m.Termed) (grounded : c.Grounded)
    (acts : Acts inp c c') :
    c'.Grounded := by
  induction acts with
  | refl => exact grounded
  | tail _ act ih => exact act.grounded heard ih

/-- A storage that has no term is vacant. -/
def MemStorage.Grounded (store : MemStorage) : Prop := store.ballot.term = 0 → store.Vacant

/-- A machine keeps its node and its writes grounded and sends messages with terms. -/
abbrev Host.Grounded : Host → Prop :=
  Host.Bears (fun c => c.Grounded ∧ c.log.store.Grounded) MemStorage.Grounded Message.Termed

/-- A Ready of a vacant log leaves a vacant storage. -/
theorem RawNode.Readies.vacant {rn rn' : RawNode} {rd : Ready} (readies : rn.Readies rn' rd)
    (vacant : rn.raft.raftLog.Vacant) {store : MemStorage}
    (done : Host.writeReady rn.raft.raftLog.store rd = .ok store) : store.Vacant := by
  obtain ⟨middle, last, unapplied, -, appended, same⟩ := Host.writeReady_ok done
  have empty : rd.snapshot = {} := by rw [readies.snapshot, vacant.snapshot, Option.getD_none]
  have kept : middle = rn.raft.raftLog.store := unapplied (by rw [empty]; rfl)
  have entries : rd.entries = [] := by rw [readies.entries, vacant.entries]
  rw [entries] at appended
  obtain rfl : middle = last := Except.ok.inj appended
  rw [same]
  subst kept
  cases rd.hs with
  | none => exact vacant.store
  | some hs => exact ⟨vacant.store.entries, vacant.store.index, vacant.store.term⟩

/-- A node that has just started is grounded. -/
theorem RawNode.Starts.grounded {config : Config} {store : MemStorage} {rn : RawNode}
    (starts : rn.Starts config store) (grounded : store.Grounded) :
    rn.raft.core.Grounded ∧ rn.raft.raftLog.store.Grounded := by
  have log : rn.raft.core.log = _ := starts.log
  have state : rn.raft.core.state = .follower := by rw [starts.core]
  have term : rn.raft.core.term = store.ballot.term := by
    rw [starts.core]
    rfl
  have msgs : rn.raft.core.msgs = [] := by rw [starts.core]
  refine ⟨⟨?_, fun zero => ?_, ?_⟩, ?_⟩
  · rw [state]
    nofun
  · rw [term] at zero
    rw [log]
    exact ⟨grounded zero, rfl, rfl⟩
  · rw [msgs]
    nofun
  · rw [starts.log]
    exact grounded

namespace Host

variable {host host' : Host} {sent : List Message}

/-- A rewritten storage of the same ballot keeps a node grounded. -/
theorem grounded_withStore {rn : RawNode} {store : MemStorage}
    (grounded : rn.raft.core.Grounded ∧ rn.raft.core.log.store.Grounded)
    (keeps : rn.raft.raftLog.store.Vacant → store.Vacant)
    (ballot : store.ballot = rn.raft.raftLog.store.ballot) :
    (withStore rn store).raft.core.Grounded ∧ store.Grounded := by
  obtain ⟨node, stored⟩ := grounded
  refine ⟨⟨node.roles, fun none => ?_, node.msgs⟩, fun zero => ?_⟩
  · have vacant := node.vacant none
    exact ⟨keeps vacant.store, vacant.entries, vacant.snapshot⟩
  · exact keeps (stored ((congrArg Ballot.term ballot).symm.trans zero))

/-- A sequence of atomic changes keeps a node and its storage grounded. -/
theorem grounded_acts {r r' : Raft} (heard : ∀ m, inp (.message m) → m.Termed)
    (acts : Acts inp r.core r'.core) (grounded : r.core.Grounded ∧ r.raftLog.store.Grounded) :
    r'.core.Grounded ∧ r'.raftLog.store.Grounded := by
  have same : r.raftLog.store.Same r'.raftLog.store := Acts.store_same acts
  refine ⟨Acts.grounded heard grounded.1 acts, fun zero => ?_⟩
  rw [same.ballot] at zero
  exact (grounded.2 zero).same same

/-- A taken Ready is written into a grounded storage, because a ballot in it has the term of the
node. -/
theorem Grounded.ready {rn rn' : RawNode} {rd : Ready} {store : MemStorage} (grounded : host.Grounded)
    (raw : host.raw = some rn) (readies : rn.Readies rn' rd)
    (written : writeReady rn'.raft.raftLog.store rd = .ok store)
    (reached : (withStore rn' store).raft.core.ballot.Before store.ballot) (delivered : List Delivery)
    (reads : List ReadState) :
    Grounded { host with
      raw := some (withStore rn' store)
      pending := host.pending ++ [{ number := rd.number, store, msgs := rd.persistedMessages }]
      outstanding := some rd, delivered, reads } := by
  obtain ⟨node, -⟩ := grounded.running rn raw
  have log : rn'.raft.raftLog = rn.raft.raftLog := congrArg Core.log readies.core
  have core := readies.core_withStore store
  rw [log] at written
  have stored : store.Grounded := by
    intro zero
    have reached := reached.term_le
    rw [core] at reached
    have none : rn.raft.term = 0 := Nat.le_zero.1 (reached.trans zero.le)
    exact readies.vacant (node.vacant none) written
  obtain ⟨chain, waiting⟩ :=
    grounded.issue { number := rd.number, store, msgs := rd.persistedMessages } stored
    (readies.queued node.msgs).2
  refine ⟨?_, chain, waiting⟩
  rintro _ running
  cases running
  refine ⟨?_, stored⟩
  rw [core]
  refine ⟨node.roles, fun none => ?_, List.forall_mem_nil _⟩
  have vacant := node.vacant none
  exact ⟨readies.vacant vacant written, vacant.entries, vacant.snapshot⟩

/-- A node whose written Ready has become stable is grounded. -/
theorem grounded_settled {rn rn' : RawNode} {rd : Ready} {log : RaftLog} (busy : rn.Busy rd log)
    (done : rn.commitReady rd = .ok rn')
    (grounded : rn.raft.core.Grounded ∧ rn.raft.raftLog.store.Grounded) :
    rn'.raft.core.Grounded ∧ rn'.raft.raftLog.store.Grounded := by
  obtain ⟨-, snapshot, entries, -, store, same⟩ := busy.settle done
  obtain ⟨node, stored⟩ := grounded
  have core : rn'.raft.core = { rn.raft.core with log := rn'.raft.raftLog } := by
    rw [same]
    rfl
  refine ⟨?_, store ▸ stored⟩
  rw [core]
  exact ⟨node.roles, fun zero => ⟨store ▸ (node.vacant zero).store, entries, snapshot⟩, node.msgs⟩

/-- A storage with nothing in it has nothing to compact. -/
theorem vacant_compact {log : RaftLog} {compactIndex : Nat} {store : MemStorage}
    (may : mayCompact log compactIndex = true) (done : log.store.compact compactIndex = .ok store)
    (vacant : log.store.Vacant) : store.Vacant := by
  simp only [mayCompact, Bool.and_eq_true, decide_eq_true_eq] at may
  have low : compactIndex ≤ log.store.firstIndex := by
    rw [vacant.firstIndex]
    exact may.1.2.trans (vacant.lastIndex.le.trans zero_le_one)
  rw [MemStorage.compact, if_pos low] at done
  exact Except.ok.inj done ▸ vacant

/-- Every phase keeps a machine grounded that hears messages with terms. -/
theorem Phase.grounded (heard : ∀ m, inp (.message m) → m.Termed) (tidy : host.Tidy) (saved : host.Saved)
    (grounded : host.Grounded) (phase : Phase inp permitted host host' sent) :
    host'.Grounded ∧ ∀ m ∈ sent, m.Termed := by
  have after := phase.saved tidy saved
  cases phase with
  | @call rn raft raw idle acts =>
      have heard : ∀ m, rn.inputs inp (.message m) → m.Termed := heard
      exact ⟨grounded.resume rfl rfl rfl rfl (grounded_acts heard acts (grounded.running rn raw)),
        List.forall_mem_nil _⟩
  | @ready rn rn' rd store raw idle done written =>
      have readies := RawNode.ready_readies done
      exact ⟨grounded.ready raw readies written (after.busy _ rd rfl rfl).1 _ _,
        (readies.queued (grounded.running rn raw).1.msgs).1⟩
  | flush pending => exact ⟨grounded.flush pending, List.forall_mem_nil _⟩
  | send ahead durable =>
      exact ⟨⟨grounded.running, grounded.chain, grounded.waiting⟩, fun m => grounded.released⟩
  | @stable rn rn' rd raw outstanding done =>
      obtain ⟨log, busy⟩ := tidy.busy rn rd raw outstanding
      exact ⟨grounded.resume rfl rfl rfl rfl (grounded_settled busy done (grounded.running rn raw)),
        List.forall_mem_nil _⟩
  | @report rn raft number snapIndex index term raw idle durable position acts =>
      have node := grounded_acts (fun _ none => by cases none) acts (grounded.running rn raw)
      exact ⟨grounded.resume rfl rfl rfl rfl node, List.forall_mem_nil _⟩
  | @light rn rn' light raw idle done withheld current =>
      have lights := RawNode.genLightReady_lights done
      obtain ⟨node, store⟩ := grounded.running rn raw
      refine ⟨grounded.resume rfl rfl rfl rfl ?_, ?_⟩
      · show rn'.raft.core.Grounded ∧ rn'.raft.core.log.store.Grounded
        rw [lights.core]
        exact ⟨⟨node.roles, node.vacant, List.forall_mem_nil _⟩, store⟩
      · rw [lights.messages]
        exact node.msgs
  | @saveCommit rn store raw idle done =>
      have keeps : rn.raft.raftLog.store.Vacant → store.Vacant := by
        rw [done]
        exact fun vacant => ⟨vacant.entries, vacant.index, vacant.term⟩
      have ballot : store.ballot = rn.raft.raftLog.store.ballot := by
        rw [done]
        rfl
      obtain ⟨node, stored⟩ := grounded_withStore (grounded.running rn raw) keeps ballot
      exact ⟨grounded.rewrite ⟨node, stored⟩ stored rn.maxNumber, List.forall_mem_nil _⟩
  | @compact rn compactIndex store raw idle may done =>
      have sound : rn.raft.raftLog.Sound := (tidy.idle rn raw idle).log
      obtain ⟨-, -, -, state⟩ := compacted_store sound.wf may done
      obtain ⟨node, stored⟩ := grounded_withStore (grounded.running rn raw) (vacant_compact may done)
        (congrArg (fun state => state.hardState.ballot) state)
      exact ⟨grounded.rewrite ⟨node, stored⟩ stored rn.maxNumber, List.forall_mem_nil _⟩
  | crash => exact ⟨grounded.crash, List.forall_mem_nil _⟩
  | @restart config rng rn stopped same allowed done =>
      have starts := RawNode.new_starts tidy.durable done
      have node := starts.grounded (grounded.chain _ List.mem_cons_self)
      exact ⟨grounded.resume rfl rfl rfl rfl node, List.forall_mem_nil _⟩

end Host

/-- A message outside elections, proposals and reads has the term of its sender in a range of its
terms. -/
def Message.Stamped (low high : Nat) (m : Message) : Prop :=
  m.IsVoteRequest ∨ m.IsVoteResponse ∨ m.msgType = .msgPropose ∨ m.msgType = .msgReadIndex ∨
    (low ≤ m.term ∧ m.term ≤ high)

theorem Message.Stamped.mono {low low' high high' : Nat} (stamped : m.Stamped low high)
    (below : low' ≤ low) (above : high ≤ high') : m.Stamped low' high' := by
  rcases stamped with votes | votes | kind | kind | ⟨lower, upper⟩
  · exact .inl votes
  · exact .inr (.inl votes)
  · exact .inr (.inr (.inl kind))
  · exact .inr (.inr (.inr (.inl kind)))
  · exact .inr (.inr (.inr (.inr ⟨below.trans lower, upper.trans above⟩)))

theorem Message.stamped_of_eq {term : Nat} (same : m.term = term) : m.Stamped term term :=
  .inr (.inr (.inr (.inr ⟨same.ge, same.le⟩)))

/-- The messages of a node were queued at the start or have one of its terms since then. -/
def Core.Queues (start c : Core) : Prop :=
  start.term ≤ c.term ∧ ∀ m ∈ c.msgs, (∃ old ∈ start.msgs, old.msgType = m.msgType ∧ old.term = m.term) ∨
    m.Stamped start.term c.term

theorem Sends.stamped (sends : Sends inp c m) : m.Stamped c.term c.term := by
  cases sends with
  | voteRequest => exact .inl (.inl rfl)
  | preVoteRequest => exact .inl (.inr rfl)
  | preVoteGrant => exact .inr (.inl (.inr rfl))
  | voteReject stepped kind nonzero info => exact Message.stamped_of_eq rfl
  | stalePreVote => exact Message.stamped_of_eq rfl
  | forward stepped role kind =>
      rcases kind with ⟨kind, -⟩ | ⟨kind, -⟩ | ⟨-, same⟩
      · exact .inr (.inr (.inl kind))
      · exact .inr (.inr (.inr (.inl kind)))
      · exact Message.stamped_of_eq same
  | _ => exact Message.stamped_of_eq rfl

/-- A queued message has the term of its sender or joins a queued message. -/
theorem Core.Emits.stamped (emits : c.Emits inp c' m) :
    (∃ old ∈ c.msgs, old.msgType = m.msgType ∧ old.term = m.term) ∨ m.Stamped c.term c.term := by
  cases emits with
  | sends sends => exact .inr sends.stamped
  | grant => exact .inr (.inr (.inl (.inl rfl)))
  | batched role queued kind same => exact .inl ⟨_, queued, rfl, rfl⟩
  | _ => exact .inr (Message.stamped_of_eq rfl)

/-- Every atomic change queues messages with a term of the node. -/
theorem Act.queues {start : Core} (queues : start.Queues c) (act : Act inp c c') : start.Queues c' := by
  have forward := act.forward.term
  refine ⟨queues.1.trans forward, fun m inside => ?_⟩
  have known : ∀ m : Message, (∃ old ∈ c.msgs, old.msgType = m.msgType ∧ old.term = m.term) →
      (∃ old ∈ start.msgs, old.msgType = m.msgType ∧ old.term = m.term) ∨
        m.Stamped start.term c'.term := by
    rintro m ⟨old, member, kind, term⟩
    rcases queues.2 old member with ⟨first, queued, kind', term'⟩ | stamped
    · exact .inl ⟨first, queued, kind'.trans kind, term'.trans term⟩
    · refine .inr (Message.Stamped.mono ?_ le_rfl forward)
      unfold Message.Stamped Message.IsVoteRequest Message.IsVoteResponse at stamped ⊢
      rwa [kind, term] at stamped
  rcases act.emits inside with old | new
  · exact known m ⟨m, old, rfl, rfl⟩
  · rcases new.stamped with old | stamped
    · exact known m old
    · exact .inr (stamped.mono queues.1 forward)

theorem Acts.queues {start : Core} (queues : start.Queues c) (acts : Acts inp c c') :
    start.Queues c' := by
  induction acts with
  | refl => exact queues
  | tail _ act ih => exact act.queues ih

theorem Acts.priority_eq (none : ∀ priority, ¬ inp (.priority priority)) (acts : Acts inp c c') :
    c'.priority = c.priority := by
  induction acts with
  | refl => rfl
  | @tail c c' _ act ih =>
      refine Eq.trans ?_ ih
      cases act with
      | prioritise set => exact absurd set (none _)
      | persist reported done => rw [Core.countOwn_rest]
      | @confirm ctx status readOnly confirmed role pending acked done =>
          obtain ⟨_, _, rest⟩ := Core.responds_rest { c with readOnly } confirmed
          rw [rest]
      | @respondNow m stepped kind role immediate =>
          obtain ⟨_, _, rest⟩ := c.respond_rest m c.log.committed
          rw [rest]
      | _ => rfl

/-- No pre-vote is refused in term 0, and no forwarded transfer reaches a follower that knows a
leader of its term. -/
structure Host.Answerable (host : Host) (op : HostOp) : Prop where
  preVote : ∀ m rn, op = .deliver m → host.raw = some rn → m.msgType = .msgRequestPreVote →
    rn.raft.term = 0 → 0 < m.index ∨ rn.raft.priority ≤ getPriority m
  transfer : ∀ m rn, op = .deliver m → host.raw = some rn → m.msgType = .msgTransferLeader →
    rn.raft.state = .follower → rn.raft.leaderId ≠ invalidId → m.term = 0 ∨ m.term ≠ rn.raft.term

theorem Host.Answerable.of_ne {host : Host} {op : HostOp} (other : ∀ m, op ≠ .deliver m) :
    host.Answerable op :=
  ⟨fun m _ delivers => absurd delivers (other m), fun m _ delivers => absurd delivers (other m)⟩

/-- An answerable operation of a grounded node sends no message with a wrong term. -/
theorem Host.Answerable.terms {host : Host} {op : HostOp} {rn : RawNode}
    (answerable : host.Answerable op) (running : host.raw = some rn)
    (heard : ∀ m, op.inputs (.message m) → m.Termed) (grounded : rn.raft.core.Grounded)
    (acts : Acts (rn.inputs op.inputs) rn.raft.core c) :
    ¬ Faults (rn.inputs op.inputs) c .invalidMessageTerm := by
  intro faults
  have heard : ∀ m, rn.inputs op.inputs (.message m) → m.Termed := heard
  have after := Acts.grounded heard grounded acts
  rcases faults.other trivial not_false with ⟨wrong, -⟩ | ⟨wrong, -⟩ | ⟨m, -, stepped, cause⟩
    | ⟨wrong, -⟩
  · cases wrong
  · cases wrong
  · have termed : m.Termed := heard m stepped
    have delivered : m.term ≠ 0 → op = .deliver m := by
      intro nonzero
      rcases HostOp.inputs_message stepped with delivers | ofOwn
      · exact delivers
      · exact absurd ofOwn.2 nonzero
    rcases cause with ⟨kind, zero⟩ | ⟨kind, zero, nonzero, refused⟩
      | ⟨kind, nonzero, -, same, role, known⟩
    · exact termed.termed (.inl kind) zero
    · have delivers := delivered nonzero
      have vacant := after.vacant zero
      have start : rn.raft.term = 0 := Nat.le_zero.1 ((Acts.forward acts).term.trans zero.le)
      have same : c.priority = rn.raft.priority :=
        Acts.priority_eq (fun priority given => by rw [delivers] at given; exact given) acts
      obtain ⟨short, lower⟩ := refused (vacant.isUpToDate _ _)
      rw [vacant.lastIndex] at short
      rw [same] at lower
      rcases answerable.preVote m rn delivers running kind start with longer | higher
      · exact absurd short (not_le.2 longer)
      · exact absurd higher (not_le.2 lower)
    · rcases kind with kind | kind | kind
      · exact nonzero (termed.untermed (.inl kind))
      · exact nonzero (termed.untermed (.inr kind))
      · exact (answerable.transfer m rn (delivered nonzero) running kind role known).elim nonzero
          fun other => other same
  · cases wrong

namespace Cluster

variable [ConfChangeCodec] {allowed : Host → HostOp → Prop} {cs : ConfState} {cluster : Cluster}

/-- Every reachable cluster is grounded and has sent only messages with terms. -/
theorem Reachable.grounded (reachable : Reachable allowed cs cluster) :
    (∀ id, (cluster.hosts id).Grounded) ∧ ∀ m ∈ cluster.network, m.Termed := by
  refine reachable.keepsTidy (P := fun _ host => host.Grounded) (fun id => ?_)
    (fun _ ofOwn => ofOwn.termed) ?_
  · refine ⟨fun rn running => ?_, fun write member => ?_, fun write member => ?_⟩
    · cases running
    · rw [List.mem_singleton.1 member]
      exact fun _ => ⟨rfl, rfl, rfl⟩
    · rw [List.mem_singleton.1 member]
      nofun
  · intro op _ heard _ host host' sent tidy saved grounded phase
    exact phase.grounded (fun m input => (heard m input).2) tidy saved grounded

/-- The messages of an operation of a reachable cluster have their terms. -/
theorem Reachable.inputs_termed (reachable : Reachable allowed cs cluster) {id : Nat} {op : HostOp}
    (deliverable : cluster.Deliverable id op) {m : Message} (input : op.inputs (.message m)) :
    m.Termed := by
  rcases inputs_cases deliverable input with ⟨sent, -⟩ | ofOwn
  · exact reachable.grounded.2 m sent
  · exact ofOwn.termed

/-- Every completed operation queues messages with a term of the node. -/
theorem Reachable.queues (reachable : Reachable allowed cs cluster) {id : Nat} {op : HostOp}
    {rn rn' : RawNode} {host : Host} {sent : List Message} (running : (cluster.hosts id).raw = some rn)
    (stepped : (cluster.hosts id).step op = .ok (host, sent)) (running' : host.raw = some rn') :
    rn.raft.core.Queues rn'.raft.core := by
  have start : rn.raft.core.Queues rn.raft.core := ⟨le_rfl, fun m inside => .inl ⟨m, inside, rfl, rfl⟩⟩
  by_cases call : op.Calls
  · obtain ⟨action, same, does⟩ := Host.step_call call
    rw [same] at stepped
    rcases Host.call_ok does stepped with ⟨rfl, -⟩ | ⟨before, raft, raw, -, acts, rfl, -⟩
    · obtain rfl := Option.some.inj (running.symm.trans running')
      exact start
    · obtain rfl := Option.some.inj (running.symm.trans raw)
      cases running'
      exact Acts.queues start acts
  · by_cases restarts : ∃ config, op.permits config
    · obtain ⟨config, rng, rfl⟩ := restarts
      have same : (cluster.hosts id).step (.restart config rng) = .ok (cluster.hosts id, []) := by
        simp [Host.step, Host.restart, running]
      obtain ⟨rfl, -⟩ := ok_pair_inj (same.symm.trans stepped)
      obtain rfl := Option.some.inj (running.symm.trans running')
      exact start
    · have runs := Host.runs_step (cluster.hosts id) op
      rw [stepped] at runs
      refine Host.Phases.keepsCore (P := fun c => rn.raft.core.Queues c)
        (HostOp.inputs_of_not_calls call) ?_ ?_ ?_
        (reachable.tidy.1 id) ?_ runs running'
      · exact fun _ _ _ _ fewer queues => ⟨queues.1, fun m inside => queues.2 m (fewer inside)⟩
      · exact fun config _ _ _ permits _ => absurd ⟨config, permits⟩ restarts
      · exact fun _ _ _ _ queues acts => Acts.queues queues acts
      · intro before raw
        obtain rfl := Option.some.inj (running.symm.trans raw)
        exact start

/-- In answerable runs every message is sent with the term that its kind demands. -/
theorem message_terms (reachable : Reachable Host.Answerable cs cluster) {id : Nat} {op : HostOp}
    (answerable : (cluster.hosts id).Answerable op) (deliverable : cluster.Deliverable id op) :
    (cluster.hosts id).step op ≠ .error .invalidMessageTerm ∧ (∀ m ∈ cluster.network, m.Termed) ∧
      ∀ rn host sent rn', (cluster.hosts id).raw = some rn →
        (cluster.hosts id).step op = .ok (host, sent) →
        host.raw = some rn' → ∀ m ∈ rn'.raft.msgs, m.Termed ∧
          ((∃ old ∈ rn.raft.msgs, old.msgType = m.msgType ∧ old.term = m.term) ∨
            m.Stamped rn.raft.term rn'.raft.term) := by
  have heard : ∀ m, op.inputs (.message m) → m.Termed := fun m => reachable.inputs_termed deliverable
  refine ⟨fun failed => ?_, reachable.grounded.2, ?_⟩
  · rcases Host.step_error (e := .invalidMessageTerm) trivial failed with
      ⟨rn, c, running, acts, faults⟩ | ⟨none, host', sent, rn, inp, c, phases, running, internal,
        acts, faults⟩
    · exact answerable.terms running heard ((reachable.grounded.1 id).running rn running).1 acts faults
    · rcases faults.other trivial not_false with ⟨wrong, -⟩ | ⟨wrong, -⟩ | ⟨m, -, stepped, -⟩
        | ⟨wrong, -⟩
      · cases wrong
      · cases wrong
      · exact (internal _ stepped).elim
      · cases wrong
  · intro rn host sent rn' running stepped running' m inside
    have step : Reachable Host.Answerable cs _ :=
      reachable.tail (.host answerable deliverable stepped)
    have node := (step.grounded.1 id).running rn' (by simpa using running')
    exact ⟨node.1.msgs m inside, (reachable.queues running stepped running').2 m inside⟩

omit [ConfChangeCodec] in
/-- A node of term 0 asks for pre-votes in term 1. -/
theorem message_terms_preVote : let _ := ConfChangeCodec.sample
    ∃ cluster host rn', Reachable Host.Answerable { voters := [1, 2] } cluster ∧
      (cluster.hosts 1).step .campaign = .ok (host, []) ∧ host.raw = some rn' ∧
      ∃ m ∈ rn'.raft.msgs, m.msgType = .msgRequestPreVote ∧ m.term = 1 ∧ m.Termed := by
  intro _
  have started : Reachable Host.Answerable { voters := [1, 2] } _ :=
    .single (@Step.host _ _ _ 1 (.restart { id := 1, preVote := true } fun _ => 0)
      _ _ (.of_ne nofun) trivial rfl)
  obtain ⟨cluster, reachable, rn, running, host, stepped, rn', running', m, inside, kind, term⟩ :
      ∃ cluster, Reachable Host.Answerable { voters := [1, 2] } cluster ∧
        ∃ rn, (cluster.hosts 1).raw = some rn ∧
        ∃ host, (cluster.hosts 1).step .campaign = .ok (host, []) ∧ ∃ rn', host.raw = some rn' ∧
        ∃ m, m ∈ rn'.raft.msgs ∧ m.msgType = .msgRequestPreVote ∧ m.term = 1 :=
    ⟨_, started, _, rfl, _, rfl, _, rfl, _, List.mem_cons_self, rfl, rfl⟩
  have answerable : (cluster.hosts 1).Answerable .campaign := .of_ne nofun
  obtain ⟨-, -, queued⟩ := message_terms reachable answerable trivial
  exact ⟨cluster, host, rn', reachable, stepped, running', m, inside, kind, term,
    (queued rn host [] rn' running stepped running' m inside).1⟩

omit [ConfChangeCodec] in
/-- A node of term 0 and a higher priority refuses a pre-vote with a message without term. -/
theorem refused_preVote_untermed : let _ := ConfChangeCodec.sample
    ∃ cluster m, Reachable (fun _ _ => True) { voters := [1, 2] } cluster ∧ m ∈ cluster.network ∧
      m.toId = 2 ∧ m.msgType = .msgRequestPreVote ∧ m.term = 1 ∧
      (cluster.hosts 2).step (.deliver m) = .error .invalidMessageTerm := by
  intro _
  have played : ∃ cluster m, (initial { voters := [1, 2] }).play
      [.operate 1 (.restart { id := 1, preVote := true } fun _ => 0),
        .operate 2 (.restart { id := 2, priority := 1 } fun _ => 0), .operate 1 .campaign,
          .operate 1 .ready,
        .operate 1 .flush, .operate 1 (.send 1)] = .ok cluster ∧ cluster.network = [m] ∧ m.toId = 2 ∧
      m.msgType = .msgRequestPreVote ∧ m.term = 1 ∧
      (cluster.hosts 2).step (.deliver m) = .error .invalidMessageTerm :=
    ⟨_, _, rfl, rfl, rfl, rfl, rfl, rfl⟩
  obtain ⟨cluster, m, done, network, rest⟩ := played
  refine ⟨cluster, m, reachable_play ?_ done, ?_, rest⟩
  · simp [Event.Allowed]
  · rw [network]
    exact List.mem_singleton_self m

end Cluster

end RaftRs

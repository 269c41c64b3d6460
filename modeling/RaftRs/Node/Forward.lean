import RaftRs.Act.HostStep
import RaftRs.Model.Play

namespace RaftRs

open Library

/-- The commit and the applied index of a log move up. -/
structure RaftLog.Forward (log log' : RaftLog) : Prop where
  committed : log.committed ≤ log'.committed
  applied : log.applied ≤ log'.applied

namespace RaftLog

variable {log log' : RaftLog}

theorem Forward.of_eq (committed : log'.committed = log.committed)
    (applied : log'.applied = log.applied) :
    log.Forward log' := ⟨committed.ge, applied.ge⟩

theorem forward_append {ents : List Entry} (done : log.append ents = .ok log') : log.Forward log' := by
  unfold append at done
  split at done
  · obtain rfl := Except.ok.inj done
    exact .of_eq rfl rfl
  · split_ifs at done
    obtain ⟨unstable, -, done⟩ := bind_eq_ok.1 done
    obtain rfl := Except.ok.inj done
    exact .of_eq rfl rfl

theorem forward_commitTo {toCommit : Nat} (done : log.commitTo toCommit = .ok log') :
    log.Forward log' := by
  unfold commitTo at done
  split_ifs at done with old
  · obtain rfl := Except.ok.inj done
    exact .of_eq rfl rfl
  · obtain rfl := Except.ok.inj done
    exact ⟨(not_le.1 old).le, le_rfl⟩

theorem forward_maybeCommit {maxIndex term : Nat} {moved : Bool}
    (done : log.maybeCommit maxIndex term = .ok (log', moved)) : log.Forward log' := by
  unfold maybeCommit at done
  split_ifs at done
  · obtain ⟨middle, committed, done⟩ := bind_eq_ok.1 done
    obtain ⟨rfl, -⟩ := ok_pair_inj done
    exact forward_commitTo committed
  · obtain ⟨rfl, -⟩ := ok_pair_inj done
    exact .of_eq rfl rfl

theorem Forward.trans {log'' : RaftLog} (first : log.Forward log') (second : log'.Forward log'') :
    log.Forward log'' :=
  ⟨first.committed.trans second.committed, first.applied.trans second.applied⟩

theorem forward_appendFrom {idx conflictIdx : Nat} {ents : List Entry}
    (done : log.appendFrom idx conflictIdx ents = .ok log') : log.Forward log' := by
  unfold appendFrom at done
  split_ifs at done
  · obtain rfl := Except.ok.inj done
    exact .of_eq rfl rfl
  · obtain ⟨middle, appended, done⟩ := bind_eq_ok.1 done
    have forward := forward_append appended
    obtain rfl := Except.ok.inj done
    split
    · exact ⟨forward.committed, forward.applied⟩
    · exact forward

theorem forward_maybeAppend {idx term committed : Nat} {ents : List Entry} {result : Option (Nat × Nat)}
    (done : log.maybeAppend idx term committed ents = .ok (log', result)) : log.Forward log' := by
  unfold maybeAppend at done
  split_ifs at done
  · obtain ⟨middle, appended, done⟩ := bind_eq_ok.1 done
    obtain ⟨last, moved, done⟩ := bind_eq_ok.1 done
    obtain ⟨rfl, -⟩ := ok_pair_inj done
    exact (forward_appendFrom appended).trans (forward_commitTo moved)
  · obtain ⟨rfl, -⟩ := ok_pair_inj done
    exact .of_eq rfl rfl

theorem forward_restore {snapshot : Snapshot} (done : log.restore snapshot = .ok log') :
    log.Forward log' := by
  unfold restore at done
  simp only at done
  split at done
  · cases done
  next newer =>
    obtain rfl := Except.ok.inj done
    exact ⟨not_lt.1 newer, le_rfl⟩

theorem forward_appliedTo {idx : Nat} (done : log.appliedTo idx = .ok log') : log.Forward log' := by
  unfold appliedTo at done
  split_ifs at done with zero outside
  · obtain rfl := Except.ok.inj done
    exact .of_eq rfl rfl
  · obtain rfl := Except.ok.inj done
    exact ⟨le_rfl, not_lt.1 fun below => outside (.inr below)⟩

theorem forward_maybePersist {index term : Nat} {moved : Bool}
    (done : log.maybePersist index term = (log', moved)) :
    log.Forward log' := by
  unfold maybePersist at done
  simp only at done
  split_ifs at done <;> cases done <;> exact .of_eq rfl rfl

theorem forward_maybePersistSnap {index : Nat} {moved : Bool}
    (done : log.maybePersistSnap index = .ok (log', moved)) : log.Forward log' := by
  unfold maybePersistSnap at done
  split_ifs at done <;> cases done <;> exact .of_eq rfl rfl

end RaftLog

/-- The term moves up, the vote of a term is cast once and the log moves forward. -/
structure Core.Forward (c c' : Core) : Prop where
  term : c.term ≤ c'.term
  vote : c'.term = c.term → c'.vote = c.vote ∨ c.vote = invalidId ∧ c'.vote ≠ invalidId
  log : c.log.Forward c'.log

namespace Core

variable {c c' : Core} {inp : Input → Prop}

theorem Forward.of_log {log : RaftLog} (forward : c.log.Forward log)
    (same : c'.term = c.term ∧ c'.vote = c.vote ∧ c'.log = log) : c.Forward c' := by
  obtain ⟨term, vote, rfl⟩ := same
  exact ⟨term.ge, fun _ => .inl vote, forward⟩

theorem Forward.refl : c.Forward c := .of_log (.of_eq rfl rfl) ⟨rfl, rfl, rfl⟩

theorem Forward.trans {c'' : Core} (first : c.Forward c') (second : c'.Forward c'') : c.Forward c'' := by
  refine ⟨first.term.trans second.term, fun same => ?_, first.log.trans second.log⟩
  have middle : c'.term = c.term := le_antisymm (same ▸ second.term) first.term
  have last : c''.term = c'.term := same.trans middle.symm
  rcases first.vote middle with kept | ⟨unset, cast⟩
  · rw [← kept]
    exact second.vote last
  · rcases second.vote last with kept | ⟨unset', -⟩
    · exact .inr ⟨unset, kept ▸ cast⟩
    · exact absurd unset' cast

/-- Answered reads leave term, vote and log alone. -/
theorem respond_keeps (c : Core) (req : Message) (index : Nat) :
    (c.respond req index).term = c.term ∧ (c.respond req index).vote = c.vote ∧
      (c.respond req index).log = c.log := by
  unfold respond
  split
  · split <;> exact ⟨rfl, rfl, rfl⟩
  · exact ⟨rfl, rfl, rfl⟩

theorem responds_keep (confirmed : List ReadIndexStatus) (c : Core) :
    let c' := confirmed.foldl (fun c rs => c.respond rs.req rs.index) c
    c'.term = c.term ∧ c'.vote = c.vote ∧ c'.log = c.log := by
  induction confirmed generalizing c with
  | nil => exact ⟨rfl, rfl, rfl⟩
  | cons rs rest ih =>
      obtain ⟨term, vote, log⟩ := c.respond_keeps rs.req rs.index
      obtain ⟨term', vote', log'⟩ := ih (c.respond rs.req rs.index)
      exact ⟨term'.trans term, vote'.trans vote, log'.trans log⟩

theorem countOwn_keeps (c : Core) (index : Nat) :
    (c.countOwn index).term = c.term ∧ (c.countOwn index).vote = c.vote ∧
      (c.countOwn index).log = c.log := by
  rw [countOwn_rest]
  exact ⟨rfl, rfl, rfl⟩

end Core

/-- Every atomic change moves the core forward. -/
theorem Act.forward {inp : Input → Prop} {c c' : Core} (act : Act inp c c') : c.Forward c' := by
  have keep : c.log.Forward c.log := .of_eq rfl rfl
  cases act with
  | bump stepped later =>
      have different : ¬ c.term = _ := Nat.ne_of_lt later
      exact ⟨later.le, fun same => absurd same.symm different, .of_eq rfl rfl⟩
  | stepDown => exact ⟨le_rfl, fun _ => .inl (if_pos rfl), .of_eq rfl rfl⟩
  | campaign role => exact ⟨Nat.le_succ _, fun same => absurd same (Nat.succ_ne_self _), .of_eq rfl rfl⟩
  | lead may role won settled => exact .of_log keep ⟨rfl, if_pos rfl, rfl⟩
  | @grant m stepped kind term nonzero free complete =>
      refine ⟨le_rfl, fun _ => ?_, keep⟩
      rcases free with same | unset
      · exact .inl same.symm
      · by_cases zero : m.fromId = invalidId
        · exact .inl (zero.trans unset.symm)
        · exact .inr ⟨unset, zero⟩
  | grow role admitted done => exact .of_log (RaftLog.forward_append done) ⟨rfl, rfl, rfl⟩
  | leave role free done => exact .of_log (RaftLog.forward_append done) ⟨rfl, rfl, rfl⟩
  | accept stepped kind heard role unasked above done =>
      exact .of_log (RaftLog.forward_maybeAppend done) ⟨rfl, rfl, rfl⟩
  | heartbeat stepped kind heard role done =>
      exact .of_log (RaftLog.forward_commitTo done) ⟨rfl, rfl, rfl⟩
  | restore stepped kind heard role fresh done same =>
      exact .of_log (RaftLog.forward_restore done) ⟨rfl, rfl, rfl⟩
  | fastForward stepped kind heard role agrees done =>
      exact .of_log (RaftLog.forward_commitTo done) ⟨rfl, rfl, rfl⟩
  | commitByVote stepped kind role positive done =>
      exact .of_log (RaftLog.forward_maybeCommit done) ⟨rfl, rfl, rfl⟩
  | commitByRead stepped kind heard role done =>
      exact .of_log (RaftLog.forward_maybeCommit done) ⟨rfl, rfl, rfl⟩
  | commitByQuorum role acked done => exact .of_log (RaftLog.forward_maybeCommit done) ⟨rfl, rfl, rfl⟩
  | persist reported done => exact .of_log (RaftLog.forward_maybePersist done) (Core.countOwn_keeps _ _)
  | persistSnap reported done => exact .of_log (RaftLog.forward_maybePersistSnap done) ⟨rfl, rfl, rfl⟩
  | apply given done => exact .of_log (RaftLog.forward_appliedTo done) ⟨rfl, rfl, rfl⟩
  | trigger => exact ⟨le_rfl, fun _ => .inl rfl, .of_eq rfl rfl⟩
  | limit set => exact ⟨le_rfl, fun _ => .inl rfl, .of_eq rfl rfl⟩
  | confirm role pending acked done => exact .of_log keep (Core.responds_keep _ _)
  | respondNow stepped kind role immediate => exact .of_log keep (Core.respond_keeps _ _ _)
  | _ => exact .of_log keep ⟨rfl, rfl, rfl⟩

theorem Acts.forward {inp : Input → Prop} {c c' : Core} (acts : Acts inp c c') : c.Forward c' := by
  induction acts with
  | refl => exact .refl
  | tail _ act ih => exact ih.trans act.forward

namespace Raft

variable {r r' : Raft} {m : Message}

/-- A message of a leader without a term comes to a node that campaigns; only a debug assertion
stops it. -/
def Stray (r : Raft) (m : Message) : Prop :=
  (r.state = .preCandidate ∨ r.state = .candidate) ∧ m.term = 0 ∧ r.term ≠ 0 ∧
    (m.msgType = .msgAppend ∨ m.msgType = .msgHeartbeat ∨ m.msgType = .msgSnapshot)

/-- A message of a leader is stepped in its own term or without a term. -/
theorem handleTerm_leader (done : r.handleTerm m = .ok (r', true))
    (kind : m.msgType = .msgAppend ∨ m.msgType = .msgHeartbeat ∨ m.msgType = .msgSnapshot) :
    r'.state = .follower ∨ r' = r ∧ (m.term = 0 ∨ m.term = r.term) := by
  have plain : m.msgType ≠ .msgRequestVote ∧ m.msgType ≠ .msgRequestPreVote ∧
      m.msgType ≠ .msgRequestPreVoteResponse := by
    rcases kind with kind | kind | kind <;> simp [kind]
  unfold handleTerm at done
  simp only [plain, kind, false_and, or_self, if_false, if_true] at done
  split at done
  next zero =>
    obtain ⟨rfl, -⟩ := ok_pair_inj done
    exact .inr ⟨rfl, .inl zero⟩
  split at done
  · obtain ⟨rfl, -⟩ := ok_pair_inj done
    exact .inl (congrArg Core.state (r.core_becomeFollower m.term m.fromId))
  next notLater =>
    split at done
    · split at done
      · obtain ⟨_, -, done⟩ := bind_eq_ok.1 done
        cases (ok_pair_inj done).2
      · cases (ok_pair_inj done).2
    next notEarlier =>
      obtain ⟨rfl, -⟩ := ok_pair_inj done
      exact .inr ⟨rfl, .inr (by omega)⟩

/-- The assertions of a candidate hold in its own term, and for every other message. -/
theorem stepCandidate_build (debugAssertions : Bool)
    (current : m.msgType = .msgAppend ∨ m.msgType = .msgHeartbeat ∨ m.msgType = .msgSnapshot →
      r.term = m.term) :
    r.stepCandidate m debugAssertions = r.stepCandidate m := by
  unfold stepCandidate
  cases kind : m.msgType <;> simp [kind] at current ⊢ <;> simp [current]

variable [ConfChangeCodec]

theorem step_build (debugAssertions : Bool) (calm : ¬ r.Stray m) :
    r.step m debugAssertions = r.step m := by
  unfold step
  cases accepted : r.handleTerm m with
  | error e => rfl
  | ok next =>
      obtain ⟨r', goesOn⟩ := next
      cases goesOn with
      | false => rfl
      | true =>
          simp only [ok_bind]
          unfold dispatch
          have current : (r'.state = .preCandidate ∨ r'.state = .candidate) →
              m.msgType = .msgAppend ∨ m.msgType = .msgHeartbeat ∨ m.msgType = .msgSnapshot →
                r'.term = m.term := by
            intro role kind
            rcases handleTerm_leader accepted kind with follows | ⟨rfl, zero | same⟩
            · simp [follows] at role
            · by_contra other
              exact calm ⟨role, zero, by omega, kind⟩
            · exact same.symm
          split
          · rfl
          · rfl
          · rfl
          · split
            next role => exact stepCandidate_build debugAssertions (current (.inl role))
            next role => exact stepCandidate_build debugAssertions (current (.inr role))
            · rfl
            · rfl

theorem tick_build (debugAssertions : Bool) : r.tick debugAssertions = r.tick := by
  have calm : ∀ (r : Raft) (kind : MessageType) (id : Nat), kind = .msgHup ∨
      kind = .msgCheckQuorum ∨ kind = .msgBeat → ¬ r.Stray (newMessage invalidId kind id) := by
    rintro r kind id own ⟨-, -, -, leads⟩
    have leads : kind = .msgAppend ∨ kind = .msgHeartbeat ∨ kind = .msgSnapshot := leads
    rcases own with rfl | rfl | rfl <;> simp at leads
  unfold tick tickElection tickHeartbeat tickQuorum
  simp only [step_build debugAssertions (calm _ .msgHup _ (.inl rfl)),
    step_build debugAssertions (calm _ .msgCheckQuorum _ (.inr (.inl rfl))),
    step_build debugAssertions (calm _ .msgBeat _ (.inr (.inr rfl)))]

end Raft

/-- The calls of an application to its node, and its writes to the storage. -/
inductive NodeOp where
  | step (m : Message)
  | tick
  | propose (context data : Bytes)
  | proposeConfChange (context : Bytes) (cc : ConfChange ⊕ ConfChangeV2)
  | campaign
  | transferLeader (transferee : Nat)
  | readIndex (rctx : Bytes)
  | ping
  | reportUnreachable (id : Nat)
  | reportSnapshot (id : Nat) (failure : Bool)
  | requestSnapshot
  | applyConfChange (cc : ConfChangeV2)
  | ready
  | advance (rd : Ready)
  | advanceAppend (rd : Ready)
  | advanceAppendAsync (rd : Ready)
  | onPersistReady (number : Nat)
  | advanceApply
  | advanceApplyTo (applied : Nat)
  | store (store : MemStorage)

namespace RawNode

section Calls

variable [ConfChangeCodec]

/-- One call of a build, whatever its order; its result apart from the node is dropped. -/
def call (rn : RawNode) (op : NodeOp) (debugAssertions : Bool := true) : Except Fatal RawNode :=
  match op with
  | .step m => rn.step m debugAssertions >>= fun x => .ok x.1
  | .tick => rn.tick debugAssertions >>= fun x => .ok x.1
  | .propose context data => rn.propose context data debugAssertions >>= fun x => .ok x.1
  | .proposeConfChange context cc => rn.proposeConfChange context cc debugAssertions >>= fun x => .ok x.1
  | .campaign => rn.campaign debugAssertions >>= fun x => .ok x.1
  | .transferLeader transferee => rn.transferLeader transferee debugAssertions
  | .readIndex rctx => rn.readIndex rctx debugAssertions
  | .ping => rn.ping
  | .reportUnreachable id => rn.reportUnreachable id debugAssertions
  | .reportSnapshot id failure => rn.reportSnapshot id failure debugAssertions
  | .requestSnapshot => rn.requestSnapshot >>= fun x => .ok x.1
  | .applyConfChange cc => rn.applyConfChange cc >>= fun x => .ok x.1
  | .ready => rn.ready >>= fun x => .ok x.1
  | .advance rd => rn.advance rd >>= fun x => .ok x.1
  | .advanceAppend rd => rn.advanceAppend rd >>= fun x => .ok x.1
  | .advanceAppendAsync rd => rn.advanceAppendAsync rd
  | .onPersistReady number => rn.onPersistReady number
  | .advanceApply => rn.advanceApply
  | .advanceApplyTo applied => rn.advanceApplyTo applied
  | .store store => .ok (Host.withStore rn store)

end Calls

/-- The durable state of a node moves forward. -/
def Forward (rn rn' : RawNode) : Prop := rn.raft.core.Forward rn'.raft.core

variable {rn rn' : RawNode} {inp : Input → Prop}

/-- A call that runs through atomic changes moves the node forward. -/
theorem forward_does (inp : Input → Prop) {run : Except Fatal RawNode} {post : RawNode → Prop}
    (does : Does inp rn.raft.core run (fun rn' => rn'.raft.core) post) (done : run = .ok rn') :
    rn.Forward rn' := by
  rw [done] at does
  exact does.1.forward

/-- A call of the node alone. -/
theorem forward_dropped {α : Type} (inp : Input → Prop) {run : Except Fatal (RawNode × α)}
    {post : RawNode × α → Prop} (does : Does inp rn.raft.core run (fun x => x.1.raft.core) post)
    (done : (run >>= fun x => .ok x.1) = .ok rn') : rn.Forward rn' := by
  obtain ⟨x, ran, same⟩ := bind_eq_ok.1 done
  obtain rfl := Except.ok.inj same
  rw [ran] at does
  exact does.1.forward

theorem forward_genLightReady {light : LightReady} (done : rn.genLightReady = .ok (rn', light)) :
    rn.Forward rn' := by
  obtain ⟨entries, -, done⟩ := bind_eq_ok.1 done
  have keep : ∀ ents, (rn.raft.reduceUncommittedSize ents).core.term = rn.raft.core.term ∧
      (rn.raft.reduceUncommittedSize ents).core.vote = rn.raft.core.vote ∧
      (rn.raft.reduceUncommittedSize ents).core.log = rn.raft.core.log := by
    intro ents
    unfold Raft.reduceUncommittedSize
    split <;> exact ⟨rfl, rfl, rfl⟩
  have forward : rn.Forward { rn with
      raft := { rn.raft.reduceUncommittedSize (entries.getD []) with msgs := [] } } :=
    .of_log (.of_eq rfl rfl) (keep (entries.getD []))
  simp only at done
  split at done
  · obtain ⟨rfl, -⟩ := ok_pair_inj done
    exact forward
  split at done
  · obtain ⟨rfl, -⟩ := ok_pair_inj done
    exact forward
  · cases done

theorem forward_ready {rd : Ready} (done : rn.ready = .ok (rn', rd)) : rn.Forward rn' := by
  obtain ⟨rn₁, dropped, done⟩ := bind_eq_ok.1 done
  obtain ⟨⟨rn₂, snapshot⟩, taken, done⟩ := bind_eq_ok.1 done
  obtain ⟨⟨rn₃, light⟩, lit, done⟩ := bind_eq_ok.1 done
  obtain ⟨rfl, -⟩ := ok_pair_inj done
  have first : rn₁.raft = rn.raft := by
    unfold dropRecords at dropped
    split_ifs at dropped <;> cases dropped <;> rfl
  have second : rn₂.raft = { rn₁.raft with readStates := [] } := by
    rcases readySnapshot_cases taken with ⟨-, rfl, -⟩ | ⟨s, -, -, rfl, -⟩ <;> rfl
  have third := forward_genLightReady lit
  unfold Forward at third ⊢
  rw [second, first] at third
  have start : rn.raft.core.Forward { rn.raft with readStates := [] }.core :=
    .of_log (.of_eq rfl rfl) ⟨rfl, rfl, rfl⟩
  exact start.trans third

theorem forward_commitReady {rd : Ready} (done : rn.commitReady rd = .ok rn') : rn.Forward rn' := by
  unfold commitReady at done
  simp only at done
  split at done
  · cases done
  split at done
  · cases done
  obtain ⟨log, snapped, done⟩ := bind_eq_ok.1 done
  obtain ⟨log', stable, done⟩ := bind_eq_ok.1 done
  obtain rfl := Except.ok.inj done
  have first : rn.raft.raftLog.Forward log := by
    split at snapped
    · obtain ⟨_, -, same⟩ := bind_eq_ok.1 snapped
      obtain rfl := Except.ok.inj same
      exact .of_eq rfl rfl
    · obtain rfl := Except.ok.inj snapped
      exact .of_eq rfl rfl
  have second : log.Forward log' := by
    split at stable
    · obtain ⟨_, -, same⟩ := bind_eq_ok.1 stable
      obtain rfl := Except.ok.inj same
      exact .of_eq rfl rfl
    · obtain rfl := Except.ok.inj stable
      exact .of_eq rfl rfl
  exact .of_log (first.trans second) ⟨rfl, rfl, rfl⟩

theorem forward_onPersistReady {number : Nat} (done : rn.onPersistReady number = .ok rn') :
    rn.Forward rn' :=
  forward_does _ (does_onPersistReady rfl) done

theorem forward_advanceAppend {rd : Ready} {light : LightReady}
    (done : rn.advanceAppend rd = .ok (rn', light)) :
    rn.Forward rn' := by
  obtain ⟨rn₁, committed, done⟩ := bind_eq_ok.1 done
  obtain ⟨rn₂, persisted, done⟩ := bind_eq_ok.1 done
  obtain ⟨⟨rn₃, light'⟩, lit, done⟩ := bind_eq_ok.1 done
  have forward : rn.Forward rn₃ :=
    ((forward_commitReady committed).trans (forward_onPersistReady persisted)).trans
      (forward_genLightReady lit)
  simp only at done
  split at done
  · cases done
  obtain ⟨⟨rn₄, light''⟩, compared, done⟩ := bind_eq_ok.1 done
  have same : rn₄.raft = rn₃.raft := by
    split_ifs at compared <;> cases compared <;> rfl
  simp only at done
  split at done
  · cases done
  obtain ⟨rfl, -⟩ := ok_pair_inj done
  unfold Forward
  rw [same]
  exact forward

theorem forward_advanceApplyTo {applied : Nat} (done : rn.advanceApplyTo applied = .ok rn') :
    rn.Forward rn' :=
  forward_does (fun _ => True) (does_plain (Raft.does_commitApply trivial)) done

theorem gives_all {m : Message} (untermed : isLocalMsg m.msgType = true → m.term = 0) :
    rn.raft.Gives (fun _ => True) m where
  message _ := trivial
  untermed := untermed
  elects _ := trivial
  hup _ := .inr trivial
  started _ _ := trivial
  leader _ _ _ _ _ := trivial

variable [ConfChangeCodec]

theorem forward_call {op : NodeOp} (done : rn.call op = .ok rn') : rn.Forward rn' := by
  cases op with
  | step m =>
      exact forward_dropped (fun _ => True)
        (does_step fun foreign => gives_all fun own => by simp [foreign] at own) done
  | tick => exact forward_dropped (fun _ => True) (does_raft (Raft.does_tick trivial)) done
  | propose context data =>
      exact forward_dropped (fun _ => True) (does_stepRaft (gives_all fun _ => rfl)) done
  | proposeConfChange context cc =>
      exact forward_dropped (fun _ => True) (does_stepRaft (gives_all fun _ => rfl)) done
  | campaign => exact forward_dropped (fun _ => True) (does_stepRaft (gives_all fun _ => rfl)) done
  | transferLeader transferee =>
      exact forward_does (fun _ => True) (does_dropped (does_stepRaft (gives_all fun _ => rfl))) done
  | readIndex rctx =>
      exact forward_does (fun _ => True) (does_dropped (does_stepRaft (gives_all fun _ => rfl))) done
  | ping => exact forward_does (fun _ => True) (does_plain Raft.does_ping) done
  | reportUnreachable id =>
      exact forward_does (fun _ => True) (does_dropped (does_stepRaft (gives_all fun _ => rfl))) done
  | reportSnapshot id failure =>
      exact forward_does (fun _ => True) (does_dropped (does_stepRaft (gives_all fun _ => rfl))) done
  | requestSnapshot =>
      exact forward_dropped (fun _ => True) (does_raft (Raft.does_requestSnapshot trivial)) done
  | applyConfChange cc =>
      exact forward_dropped (fun _ => True) (does_raft (Raft.does_applyConfChange trivial trivial)) done
  | ready =>
      obtain ⟨⟨_, rd⟩, made, same⟩ := bind_eq_ok.1 done
      obtain rfl := Except.ok.inj same
      exact forward_ready made
  | advance rd =>
      obtain ⟨⟨_, light⟩, made, same⟩ := bind_eq_ok.1 done
      obtain rfl := Except.ok.inj same
      obtain ⟨⟨rn₁, light'⟩, appended, rest⟩ := bind_eq_ok.1 made
      obtain ⟨rn₂, applied, rest⟩ := bind_eq_ok.1 rest
      obtain ⟨rfl, -⟩ := ok_pair_inj rest
      exact (forward_advanceAppend appended).trans (forward_advanceApplyTo applied)
  | advanceAppend rd =>
      obtain ⟨⟨_, light⟩, made, same⟩ := bind_eq_ok.1 done
      obtain rfl := Except.ok.inj same
      exact forward_advanceAppend made
  | advanceAppendAsync rd => exact forward_commitReady done
  | onPersistReady number => exact forward_onPersistReady done
  | advanceApply => exact forward_advanceApplyTo done
  | advanceApplyTo applied => exact forward_advanceApplyTo done
  | store store =>
      obtain rfl := Except.ok.inj done
      exact ⟨le_rfl, fun _ => .inl rfl, .of_eq rfl rfl⟩

end RawNode

namespace Raft

variable {r r' : Raft} {m : Message}

/-- A node keeps its term and its vote. -/
def Keeps (r r' : Raft) : Prop := r'.term = r.term ∧ r'.vote = r.vote

theorem keeps_send {m : Message} : Meets (fun _ => False) (r.send m) r.Keeps := by
  rcases r.send_cases m with ⟨failed, -⟩ | ⟨sent, -⟩
  · rw [failed]
    exact not_false
  · rw [sent]
    exact ⟨rfl, rfl⟩

/-- Any computation that does not concern the node may come before the next one. -/
theorem keeps_read {α β : Type} {run : Except Fatal α} {next : α → Except Fatal β} {post : β → Prop}
    (continues : ∀ a, Meets (fun _ => False) (next a) post) :
    Meets (fun _ => False) (run >>= next) post := by
  cases run with
  | error => exact not_false
  | ok a => exact continues a

theorem keeps_maybeCommitByVote : Meets (fun _ => False) (r.maybeCommitByVote m) r.Keeps := by
  unfold maybeCommitByVote
  split
  · exact ⟨rfl, rfl⟩
  simp only
  split
  · exact ⟨rfl, rfl⟩
  refine keeps_read fun ⟨log, committed⟩ => ?_
  simp only
  split
  · exact ⟨rfl, rfl⟩
  split
  · exact ⟨rfl, rfl⟩
  refine keeps_read fun pending => ?_
  split
  · have core := { r with raftLog := log }.core_becomeFollower r.term invalidId
    exact ⟨congrArg Core.term core, (congrArg Core.vote core).trans (if_pos rfl)⟩
  · exact ⟨rfl, rfl⟩

theorem keeps_handleVoteRequest (kind : m.msgType = .msgRequestPreVote) :
    Meets (fun _ => False) (r.handleVoteRequest m) r.Keeps := by
  unfold handleVoteRequest
  refine keeps_read fun upToDate => ?_
  split
  · refine keeps_send.bind fun r' kept => ?_
    simp only [kind, reduceCtorEq, if_false]
    exact kept
  · refine keeps_read fun ⟨commit, commitTerm⟩ => ?_
    refine keeps_send.bind fun r' kept => ?_
    exact keeps_maybeCommitByVote.mono fun r'' kept' => ⟨kept'.1.trans kept.1, kept'.2.trans kept.2⟩

theorem keeps_handleTerm (kind : m.msgType = .msgRequestPreVote) :
    Meets (fun _ => False) (r.handleTerm m) fun x => r.Keeps x.1 := by
  have stay : ∀ goesOn : Bool, Meets (fun _ => False) (.ok (r, goesOn) : Except Fatal (Raft × Bool))
      fun x =>
      r.Keeps x.1 := fun _ => ⟨rfl, rfl⟩
  unfold handleTerm
  simp only [kind, reduceCtorEq, or_true, true_and, or_self, and_false, if_false, true_or, if_true]
  split
  · exact stay _
  split
  · split <;> exact stay _
  split
  · exact keeps_send.bind fun r' kept => kept
  · exact stay _

theorem keeps_step [ConfChangeCodec] (kind : m.msgType = .msgRequestPreVote) :
    Meets (fun _ => False) (r.step m) fun x => r.Keeps x.1 := by
  unfold step
  refine (keeps_handleTerm kind).bind fun ⟨r', goesOn⟩ kept => ?_
  cases goesOn with
  | false => exact kept
  | true =>
      simp only [dispatch, kind]
      refine (keeps_handleVoteRequest kind).bind fun r'' kept' => ?_
      exact ⟨kept'.1.trans kept.1, kept'.2.trans kept.2⟩

end Raft

namespace RawNode

variable [ConfChangeCodec] {rn rn' : RawNode}

/-- A build without debug assertions answers every call as a build with them, unless a stray message
is stepped. -/
theorem call_build {op : NodeOp} (debugAssertions : Bool)
    (calm : ∀ m, op = .step m → ¬ rn.raft.Stray m) :
    rn.call op debugAssertions = rn.call op := by
  have own : ∀ m, isLocalMsg m.msgType = true ∨ m.msgType = .msgPropose ∨ m.msgType = .msgReadIndex ∨
      m.msgType = .msgTransferLeader → rn.stepRaft m debugAssertions = rn.stepRaft m := by
    intro m kind
    have calm : ¬ rn.raft.Stray m := by
      rintro ⟨-, -, -, leads | leads | leads⟩ <;> simp [leads, isLocalMsg] at kind
    simp only [stepRaft, Raft.step_build debugAssertions calm]
  cases op with
  | step m => simp only [call, step, stepRaft, Raft.step_build debugAssertions (calm m rfl)]
  | tick => simp only [call, tick, Raft.tick_build debugAssertions]
  | propose context data =>
      simp only [call, propose]
      rw [own]
      exact .inr (.inl rfl)
  | proposeConfChange context cc =>
      simp only [call, proposeConfChange]
      rw [own]
      exact .inr (.inl rfl)
  | campaign =>
      simp only [call, campaign]
      rw [own]
      exact .inl rfl
  | transferLeader transferee =>
      simp only [call, transferLeader]
      rw [own]
      exact .inr (.inr (.inr rfl))
  | readIndex rctx =>
      simp only [call, readIndex]
      rw [own]
      exact .inr (.inr (.inl rfl))
  | reportUnreachable id =>
      simp only [call, reportUnreachable]
      rw [own]
      exact .inl rfl
  | reportSnapshot id failure =>
      simp only [call, reportSnapshot]
      rw [own]
      exact .inl rfl
  | _ => rfl

/-- A call of a node that does not panic; a build without debug assertions steps no stray
message. -/
def Called (debugAssertions : Bool) (rn rn' : RawNode) : Prop :=
  ∃ op, (debugAssertions = false → ∀ m, op = .step m → ¬ rn.raft.Stray m) ∧
    rn.call op debugAssertions = .ok rn'

theorem forward_called {debugAssertions : Bool} (called : Called debugAssertions rn rn') :
    rn.Forward rn' := by
  obtain ⟨op, calm, done⟩ := called
  cases debugAssertions with
  | true => exact forward_call done
  | false => exact forward_call ((call_build false (calm rfl)).symm.trans done)

/-- A pre-vote request that a node steps keeps its term and its vote. -/
theorem step_preVote {m : Message} {debugAssertions : Bool} (kind : m.msgType = .msgRequestPreVote)
    (done : rn.call (.step m) debugAssertions = .ok rn') :
    rn'.raft.term = rn.raft.term ∧ rn'.raft.vote = rn.raft.vote := by
  have calm : ¬ rn.raft.Stray m := by
    rintro ⟨-, -, -, leads | leads | leads⟩ <;> simp [leads] at kind
  rw [call_build debugAssertions (by rintro _ ⟨⟩; exact calm)] at done
  obtain ⟨⟨_, result⟩, stepped, same⟩ := bind_eq_ok.1 done
  obtain rfl := Except.ok.inj same
  unfold step at stepped
  split at stepped
  · obtain ⟨rfl, -⟩ := ok_pair_inj stepped
    exact ⟨rfl, rfl⟩
  split at stepped
  · obtain ⟨⟨r', result'⟩, ran, same⟩ := bind_eq_ok.1 stepped
    obtain ⟨rfl, -⟩ := ok_pair_inj same
    exact (Raft.keeps_step kind).of_eq_ok ran
  · obtain ⟨rfl, -⟩ := ok_pair_inj stepped
    exact ⟨rfl, rfl⟩

/-- Over any sequence of calls that do not panic the term never decreases, the vote of a term
changes at most once and only from none to a node, the commit and the applied index never decrease,
and a pre-vote request changes neither term nor vote; without debug assertions this needs that no
stray message is stepped. -/
theorem called_forward {debugAssertions : Bool}
    (run : Relation.ReflTransGen (Called debugAssertions) rn rn') :
    rn.raft.term ≤ rn'.raft.term ∧
    (rn'.raft.term = rn.raft.term →
      rn'.raft.vote = rn.raft.vote ∨ rn.raft.vote = invalidId ∧ rn'.raft.vote ≠ invalidId) ∧
    rn.raft.raftLog.committed ≤ rn'.raft.raftLog.committed ∧
    rn.raft.raftLog.applied ≤ rn'.raft.raftLog.applied ∧
    ∀ (m : Message) (rn'' : RawNode), m.msgType = .msgRequestPreVote →
      rn'.call (.step m) debugAssertions = .ok rn'' →
      rn''.raft.term = rn'.raft.term ∧ rn''.raft.vote = rn'.raft.vote := by
  have forward : rn.Forward rn' := by
    induction run with
    | refl => exact Core.Forward.refl
    | tail _ called ih => exact ih.trans (forward_called called)
  exact ⟨forward.term, forward.vote, forward.log.committed, forward.log.applied,
    fun m rn'' => step_preVote⟩

end RawNode

/-- A new node grants a vote in a later term, in a build without debug assertions. -/
theorem RawNode.called_forward_grant :
    letI := ConfChangeCodec.sample
    ∃ rn rn', RawNode.new { id := 1 } (MemStorage.newWithConfState { voters := [1, 2] })
      (fun _ => 0) = .ok (.ok rn) ∧
      Relation.ReflTransGen (RawNode.Called false) rn rn' ∧ rn.raft.term = 0 ∧ rn'.raft.term = 5 ∧
      rn'.raft.vote = 2 ∧ rn.raft.raftLog.committed ≤ rn'.raft.raftLog.committed := by
  let _ := ConfChangeCodec.sample
  let vote : Message := { msgType := .msgRequestVote, fromId := 2, toId := 1, term := 5 }
  have calm : ∀ r : Raft, false = false → ∀ m, NodeOp.step vote = .step m → ¬ r.Stray m := by
    rintro r - _ ⟨⟩ ⟨-, unset, -⟩
    cases unset
  refine ⟨_, _, rfl, .single ⟨.step vote, calm _, rfl⟩, rfl, rfl, rfl, ?_⟩
  exact (RawNode.called_forward (.single ⟨.step vote, calm _, rfl⟩)).2.2.1

/-- Without debug assertions a heartbeat that carries no term takes the term and the vote of a
candidate away. -/
theorem RawNode.stray_heartbeat_falls_back :
    letI := ConfChangeCodec.sample
    ∃ rn rn₁ rn₂, RawNode.new { id := 1 } (MemStorage.newWithConfState { voters := [1, 2] })
      (fun _ => 0) = .ok (.ok rn) ∧
      rn.call .campaign false = .ok rn₁ ∧ rn₁.raft.state = .candidate ∧ rn₁.raft.term = 1 ∧
        rn₁.raft.vote = 1 ∧
      rn₁.call (.step { msgType := .msgHeartbeat, fromId := 2, toId := 1 }) false = .ok rn₂ ∧
      rn₂.raft.state = .follower ∧ rn₂.raft.term = 0 ∧ rn₂.raft.vote = invalidId :=
  ⟨_, _, _, rfl, rfl, rfl, rfl, rfl, rfl, rfl, rfl, rfl⟩

end RaftRs

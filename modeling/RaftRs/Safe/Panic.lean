import RaftRs.Safe.Safety

namespace RaftRs

open Library

namespace RaftLog

variable {log : RaftLog} {i t : Nat} {e : Fatal}

theorem commitTo_error (failed : log.commitTo i = .error e) : log.lastIndex < i := by
  unfold commitTo at failed
  split at failed
  · cases failed
  split at failed
  next beyond => exact beyond
  · cases failed

theorem matchTerm_inside (agrees : log.matchTerm i t = true) (nonzero : t ≠ 0) : i ≤ log.lastIndex := by
  by_contra beyond
  rw [matchTerm, term_outside (.inr (not_le.1 beyond))] at agrees
  exact nonzero (beq_iff_eq.1 agrees).symm

theorem maybeCommit_ne_error (nonzero : t ≠ 0) : log.maybeCommit i t ≠ .error e := by
  intro failed
  unfold maybeCommit at failed
  split at failed
  next agrees =>
    cases moved : log.commitTo i with
    | ok log' =>
        rw [moved] at failed
        cases failed
    | error f => exact absurd (matchTerm_inside agrees.2 nonzero) (not_le.2 (commitTo_error moved))
  · cases failed

end RaftLog

variable {cs : ConfState} {h : History Nat Entry} {x : Nat} {durable V : Replica Nat Entry}
  {pending : List (Stage Nat Entry)} {P : Set (Promise Nat Entry)} {inp : Input → Prop} {c : Core}
    {m : Message} {e : Fatal}

namespace Core

theorem Lives.append_ne_error (lives : c.Lives cs h x durable pending P V) (credible : m.Credible h x)
    (kind : m.msgType = .msgAppend) (hears : c.Hears m) (above : c.log.committed ≤ m.index) :
    c.log.maybeAppend m.index m.logTerm m.commit m.entries ≠ .error e := by
  intro failed
  cases agrees : c.log.matchTerm m.index m.logTerm with
  | false =>
      rw [RaftLog.maybeAppend, if_neg (by simp [agrees])] at failed
      cases failed
  | true =>
      have slice := lives.accepts_slice credible kind hears above agrees
      obtain ⟨mid, whole, accepted, -⟩ := lives.accepts slice above agrees
      rw [accepted] at failed
      cases failed

theorem Lives.heartbeat_ne_error (lives : c.Lives cs h x durable pending P V) (credible : m.Credible h x)
    (kind : m.msgType = .msgHeartbeat) (hears : c.Hears m) : c.log.commitTo m.commit ≠ .error e := by
  intro failed
  have beyond := RaftLog.commitTo_error failed
  obtain ⟨same, -⟩ := lives.heard_leader credible (.inr (.inl kind)) hears
  obtain ⟨receiver, means, -⟩ := credible.sent (by simp [kind])
  have announced := means.commit (.inr kind)
  rw [same] at announced
  rcases means.heartbeat kind with zero | ⟨j, le, acked⟩
  · omega
  · rw [receiver, same] at acked
    have inside := (lives.acked_committed announced le acked).1
    rw [lives.mirrors.length] at inside
    omega

theorem Lives.fastForward_ne_error (lives : c.Lives cs h x durable pending P V)
    (credible : m.Credible h x) (kind : m.msgType = .msgSnapshot)
    (agrees : c.log.matchTerm m.snapshot.metadata.index m.snapshot.metadata.term = true) :
    c.log.commitTo m.snapshot.metadata.index ≠ .error e := by
  intro failed
  have beyond := RaftLog.commitTo_error failed
  have nonzero := lives.snapshot_term credible kind (by omega)
  exact absurd (RaftLog.matchTerm_inside agrees nonzero) (not_le.2 beyond)

/-- The commit rules of a node in a safe history never fail. -/
theorem Lives.no_commit_fault (lives : c.Lives cs h x durable pending P V)
    (heard : ∀ m, inp (.message m) → m.Credible h x) (commit : e.IsCommit) : ¬ Faults inp c e := by
  intro faults
  cases faults with
  | append stepped kind hears role above failed =>
      exact lives.append_ne_error (heard _ stepped) kind hears above failed
  | heartbeat stepped kind hears role failed =>
      exact lives.heartbeat_ne_error (heard _ stepped) kind hears failed
  | fastForward stepped kind agrees failed =>
      exact lives.fastForward_ne_error (heard _ stepped) kind agrees failed
  | commitByVote stepped nonzero failed => exact RaftLog.maybeCommit_ne_error nonzero failed
  | @commitByRead m stepped kind hears failed =>
      obtain ⟨-, means, -⟩ := (heard m stepped).sent (by simp [kind])
      obtain ⟨e, member, term, -⟩ := means.leads (.inr kind)
      exact RaftLog.maybeCommit_ne_error (term ▸ lives.recounts.positive e member) failed
  | commitByQuorum role failed =>
      obtain ⟨e, member, term, -⟩ := lives.leader_elected role
      exact RaftLog.maybeCommit_ne_error (term ▸ lives.recounts.positive e member) failed
  | missingOwn _ _ other | missingWinner _ _ _ _ other | untermedVote _ _ _ other
  | refuseUntermed _ _ _ _ _ other
  | forwardTermed _ _ _ _ _ other | unpersisted _ _ _ _ other =>
      rw [other] at commit
      exact commit

end Core

namespace Cluster

variable [ConfChangeCodec] {cluster : Cluster} {id : Nat} {op : HostOp}

/-- In orderly runs no step fails by a commit rule. -/
theorem Reachable.no_commit_failure (several : cs.NoSingleton)
    (reachable : Reachable Host.Orderly cs cluster) (orderly : (cluster.hosts id).Orderly op)
    (deliverable : cluster.Deliverable id op) (traced : e.IsTraced) (commit : e.IsCommit) :
    (cluster.hosts id).step op ≠ .error e := by
  intro failed
  have fixed : ∀ (host : Host) op, host.Orderly op → op.Fixed := fun _ _ given => given.static.fixed
  rcases Host.step_error traced failed with
    ⟨rn, c, running, acts, faults⟩ | ⟨none, host', sent, rn, inp, c, phases, running, internal,
      acts, faults⟩
  · obtain ⟨w, explained⟩ := reachable.explained several
    have usable := explained.supplied reachable orderly.static deliverable
    have supplied : Supplied (rn.inputs op.inputs) cluster.network w.history id :=
      ⟨usable.credible, usable.heard, usable.sent, usable.fixed, usable.unasked, usable.unbatched⟩
    have formed : ∀ m, rn.inputs op.inputs (.message m) → m.Uniform cs ∧ m.Termed := fun m input =>
      have formed := reachable.inputs_formed deliverable input
      ⟨formed.1, formed.2.1⟩
    obtain ⟨P, V, -, -, core⟩ := (explained.hosts id).core running
    obtain ⟨h', P', V', frame, lives⟩ := Acts.continues several supplied formed
      (((reachable.uniform fixed).1 id).running rn running)
        ((reachable.sworn fixed several id).running rn running).1
      (List.subset_append_left _ _) ((reachable.grounded.1 id).running rn running).1
      (fun index term reported => absurd reported (HostOp.not_persisted index term)) core acts
    exact lives.no_commit_fault (supplied.mono frame.toExtends).credible commit faults
  · have elected : rn.raft.core.state = .leader → rn.raft.core.term ≠ 0 := by
      refine Host.Phases.keepsCore (P := fun c => c.state = .leader → c.term ≠ 0) none
        (fun _ _ _ _ _ led => led) ?_ ?_
        (reachable.tidy.1 id)
          (fun rn raw role => ((reachable.grounded.1 id).running rn raw).1.roles (.inr role)) phases
        running
      · intro config store rn _ _ starts leads
        rw [starts.core] at leads
        cases leads
      · intro inp c c' internal led acts leads
        obtain ⟨before, term⟩ := Acts.leader_before (internal _) acts leads
        rw [term]
        exact led before
    -- Without a message only the leader's own rule can fail, and a leader has a term.
    cases faults with
    | append stepped | heartbeat stepped | fastForward stepped | commitByVote stepped
    | commitByRead stepped => exact (internal _ stepped).elim
    | commitByQuorum role failed =>
        obtain ⟨before, term⟩ := Acts.leader_before (internal _) acts role
        exact RaftLog.maybeCommit_ne_error (term ▸ elected before) failed
    | missingOwn _ _ other | missingWinner _ _ _ _ other | untermedVote _ _ _ other
    | refuseUntermed _ _ _ _ _ other
    | forwardTermed _ _ _ _ _ other | unpersisted _ _ _ _ other =>
        rw [other] at commit
        exact commit

/-- In orderly runs no entry conflicts with a committed one and no commit index lies beyond a
log. -/
theorem commit_rules_hold (several : cs.NoSingleton) (reachable : Reachable Host.Orderly cs cluster)
    (orderly : (cluster.hosts id).Orderly op) (deliverable : cluster.Deliverable id op) :
    (∀ conflict committed, (cluster.hosts id).step op ≠ .error (.entryConflict conflict committed)) ∧
      ∀ toCommit lastIndex, (cluster.hosts id).step op ≠
        .error (.toCommitOutOfRange toCommit lastIndex) :=
  ⟨fun _ _ => reachable.no_commit_failure several orderly deliverable trivial trivial,
    fun _ _ => reachable.no_commit_failure several orderly deliverable trivial trivial⟩

omit [ConfChangeCodec] in
/-- An append that a node receives again breaks no commit rule. -/
theorem commit_rules_hold_pair : let _ := ConfChangeCodec.sample
    ∃ cluster m, Reachable Host.Orderly { voters := [1, 2] } cluster ∧ m ∈ cluster.network ∧
      m.msgType = .msgAppend ∧
      m.toId = 2 ∧ ∀ conflict committed, (cluster.hosts 2).step (.deliver m) ≠
        .error (.entryConflict conflict committed) := by
  intro _
  obtain ⟨cluster, reachable, passed⟩ : ∃ cluster, Reachable Host.Orderly { voters := [1, 2] }
    cluster ∧ _ :=
    reachable_reaches (fun _ _ => Host.orderly_of_plain)
      (show reaches _ (fun _ => HostOp.plain) replication (fun cluster =>
      cluster.network.any fun m => m.msgType == .msgAppend && m.toId == 2) = true by decide +kernel)
  obtain ⟨m, inside, tested⟩ := List.any_eq_true.1 passed
  simp only [Bool.and_eq_true, beq_iff_eq] at tested
  obtain ⟨kind, receiver⟩ := tested
  have orderly : (cluster.hosts 2).Orderly (.deliver m) := Host.orderly_of_plain rfl
  exact ⟨cluster, m, reachable, inside, kind, receiver,
    (commit_rules_hold noSingleton_pair reachable orderly (.inl ⟨inside, receiver⟩)).1⟩

end Cluster

end RaftRs

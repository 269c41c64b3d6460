import RaftRs.Act.Replicate

namespace RaftRs

open Library

namespace Raft

variable {r : Raft} {inp : Input → Prop} {m : Message}

/-- An answered read is one change of the core. -/
theorem respondRead_core (req : Message) (index : Nat) :
    Meets Fatal.IsTraced (r.respondRead req index) fun r' =>
      r'.core = r.core.respond req index ∧ r'.state = r.state := by
  unfold respondRead handleReadyReadIndex Core.respond
  by_cases here : req.fromId = invalidId ∨ req.fromId = r.id
  · have here' : req.fromId = invalidId ∨ req.fromId = r.core.id := here
    simp only [here, here', if_true]
    cases req.entries.head? with
    | none => exact not_false
    | some entry => exact ⟨rfl, rfl⟩
  · have there : ¬ (req.fromId = invalidId ∨ req.fromId = r.core.id) := here
    simp only [here, there, if_false, ok_bind]
    rw [r.send_ok
      (m := { msgType := .msgReadIndexResp, toId := req.fromId, index, entries := req.entries }) rfl]
    exact ⟨rfl, rfl⟩

/-- Answered reads are changes of the core one after another. -/
theorem respondReads_core (statuses : List ReadIndexStatus) :
    Meets Fatal.IsTraced (statuses.foldlM (fun r rs => r.respondRead rs.req rs.index) r) fun r' =>
      r'.core = statuses.foldl (fun c rs => c.respond rs.req rs.index) r.core ∧ r'.state = r.state := by
  induction statuses generalizing r with
  | nil => exact ⟨rfl, rfl⟩
  | cons status rest ih =>
      rw [List.foldlM_cons]
      refine (respondRead_core status.req status.index).bind fun r' ⟨same, state⟩ => ?_
      rw [List.foldl_cons, ← same, ← state]
      exact ih

/-- A quiet computation with a described result is one change. -/
theorem Does.of_meets {α : Type} {run : Except Fatal α} {view : α → Core} {post : α → Prop} {c : Core}
    (met : Meets Fatal.IsTraced run fun a => Acts inp c (view a) ∧ post a) :
    Does inp c run view post := by
  cases run with
  | ok a => exact met
  | error e => exact fun bad => met bad.1

theorem does_respondRead (stepped : inp (.message m)) (kind : m.msgType = .msgReadIndex)
    (role : r.state = .leader)
    (immediate : r.prs.conf.voters.isSingleton = true ∨ r.readOnly.option = .leaseBased) :
    Does inp r.core (r.respondRead m r.raftLog.committed) core fun _ => True := by
  refine Does.of_meets ((respondRead_core m r.raftLog.committed).mono fun r' ⟨same, _⟩ => ⟨?_, trivial⟩)
  exact (Act.respondNow stepped kind role immediate).acts_to same.symm

theorem does_advanceReads {id : Nat} {ctx : Bytes} (role : r.state = .leader)
    (source : (∃ m, inp (.message m) ∧ m.msgType = .msgHeartbeatResponse ∧ m.fromId = id ∧
      m.context = ctx ∧ r.core.Hears m) ∨ ∃ cc, inp (.confChange cc)) :
    Does inp r.core (r.advanceReads id ctx) core fun r' => r'.state = .leader := by
  have act : Act inp r.core { r.core with readOnly := (r.readOnly.recvAck id ctx).1 } :=
    .ackRead role source
  unfold advanceReads
  cases pending : r.readOnly.pendingReadIndex.get? ctx with
  | none =>
      simp only [ReadOnly.recvAck, pending]
      exact .pure .refl role
  | some status =>
      refine .after act.acts ?_
      simp only [ReadOnly.recvAck, pending]
      split
      next quorum =>
        refine .read (ReadOnly.quiet_advance ..) fun x done => ?_
        obtain ⟨readOnly, confirmed⟩ := x
        have agrees : r.prs.conf.voters.Agrees fun voter => voter ∈ (status.acks.insert id).elems := by
          refine (JointConfig.voteResult_won.1 (beq_iff_eq.1 quorum)).mono fun voter counted => ?_
          by_contra outside
          have absent : (status.acks.insert id).contains voter = false := by
            simpa [KeySet.contains] using outside
          simp [absent] at counted
        have found : (r.readOnly.pendingReadIndex.modify ctx fun rs =>
            { rs with acks := status.acks.insert id }).get? ctx =
            some { status with acks := status.acks.insert id } := by
          simp [pending]
        refine Does.of_meets ((respondReads_core confirmed).mono fun r' kept => ⟨?_, kept.2.trans role⟩)
        exact Act.acts_to (.confirm role found agrees done) kept.1.symm
      next => exact .pure .refl role

theorem does_sendAppend_if {condition : Prop} [Decidable condition] {toId : Nat}
    (role : r.state = .leader) (other : Addressee inp r.core toId) :
    Does inp r.core (if condition then r.sendAppend toId else pure r) core (Steady r) := by
  split
  · exact does_sendAppend role other
  · exact .pure .refl .refl

theorem does_handleHeartbeatResponse (stepped : inp (.message m))
    (kind : m.msgType = .msgHeartbeatResponse) (heard : r.core.Hears m) (role : r.state = .leader) :
    Does inp r.core (r.handleHeartbeatResponse m) core fun _ => True := by
  unfold handleHeartbeatResponse
  split
  · exact .pure .refl trivial
  next pr known =>
    simp only
    refine .read ?_ fun ins _ => ?_
    · split
      · exact Inflights.quiet_freeFirstOne _
      · exact quiet_ok
    have same : { r with prs := (r.prs.put m.fromId
        { { pr.updateCommitted m.commit with recentActive := true }.resume with ins }) }.core = r.core :=
      core_put_same known (pr.updateCommitted_position m.commit)
    rw [← same]
    refine .bind (does_sendAppend_if role (.inr ⟨m, stepped, rfl, .inr kind⟩)) fun r' steady => ?_
    split
    · exact .pure .refl trivial
    · refine (does_advanceReads (steady.state.trans role) (.inl ⟨m, stepped, kind, rfl, rfl, ?_⟩)).mono
        fun _ _ => trivial
      exact heard.imp_left fun same => same.trans steady.term.symm

theorem does_handleReadIndex (stepped : inp (.message m)) (kind : m.msgType = .msgReadIndex)
    (role : r.state = .leader) : Does inp r.core (r.handleReadIndex m) core fun _ => True := by
  unfold handleReadIndex
  split
  · exact .pure .refl trivial
  next current =>
    have current : r.raftLog.matchTerm r.raftLog.committed r.term = true := by
      simpa [commitToCurrentTerm] using current
    split
    next singleton => exact does_respondRead stepped kind role (.inl singleton)
    split
    · split
      · exact .fail not_false
      next entry first =>
        refine .read (ReadOnly.quiet_addRequest ..) fun readOnly done => ?_
        refine .after (Act.addRead stepped kind role current done).acts ?_
        refine (does_bcastHeartbeatWithCtx (r := { r with readOnly }) role (.inr (.inr ?_))).mono
          fun _ _ => trivial
        show (readOnly.pendingReadIndex.get? entry.data).isSome
        unfold ReadOnly.addRequest at done
        simp only [first] at done
        split at done
        next known =>
          obtain rfl := Except.ok.inj done
          exact known
        next =>
          obtain rfl := Except.ok.inj done
          simp
    next lease => exact does_respondRead stepped kind role (.inr lease)

theorem does_handleTransferLeader (role : r.state = .leader) :
    Does inp r.core (r.handleTransferLeader m) core fun _ => True := by
  unfold handleTransferLeader
  split
  · exact .pure .refl trivial
  split
  · exact .pure .refl trivial
  split
  · exact .pure .refl trivial
  simp only
  split
  · exact .pure .refl trivial
  next other =>
  split
  · exact (does_send (r := { r with electionElapsed := 0, leadTransferee := _ }) (m := newMessage ..)
      (.timeoutNow role)).mono fun _ _ => trivial
  · exact (does_sendAppend (r := { r with electionElapsed := 0, leadTransferee := _ }) role
      (.inl other)).mono
      fun _ _ => trivial

theorem acts_handleSnapshotStatus : Acts inp r.core (r.handleSnapshotStatus m).core := by
  unfold handleSnapshotStatus
  split
  · exact .refl
  next pr known =>
    split
    · exact .refl
    · refine acts_put known ?_
      split
      · obtain ⟨same, bound, cleared, _⟩ := pr.snapshotFailure.becomeProbe_position
        refine ⟨same, ?_, .inr cleared, .inr (.inl rfl)⟩
        simp only [Progress.position, Progress.pause, Progress.snapshotFailure] at bound ⊢
        omega
      · obtain ⟨same, bound, cleared, _⟩ := pr.becomeProbe_position
        refine ⟨same, ?_, .inr cleared, .inr (.inl rfl)⟩
        simp only [Progress.position, Progress.pause] at bound ⊢
        omega

theorem acts_handleUnreachable : Acts inp r.core (r.handleUnreachable m).core := by
  unfold handleUnreachable
  split
  · exact .refl
  next pr known =>
    refine acts_put known ?_
    split
    · obtain ⟨same, bound, cleared, kept⟩ := pr.becomeProbe_position
      refine ⟨same, ?_, .inr cleared, .inl kept⟩
      simp only [Progress.position] at bound ⊢
      omega
    · exact ⟨rfl, by simp, .inl rfl, .inl rfl⟩

theorem core_checkQuorumActive :
    r.checkQuorumActive.1.core = r.core ∧ r.checkQuorumActive.1.term = r.term := by
  refine ⟨?_, rfl⟩
  unfold checkQuorumActive ProgressTracker.quorumRecentlyActive core
  congr 1
  funext id
  simp only [ProgressTracker.get, KeyMap.get?_mapValues, Option.map_map]
  rfl

/-- A filtered proposal has at most one configuration change, at the pending configuration index. -/
structure Filtered (inp : Input → Prop) (r r' : Raft) (i : Nat)
    (result : Except RaftError (List Entry)) : Prop where
  same : ∃ pendingConfIndex, r' = { r with pendingConfIndex }
  acts : Acts inp r.core r'.core
  refused : r.raftLog.applied < r.pendingConfIndex → r' = r ∧ ∀ es, result = .ok es →
    ∀ e ∈ es, e.entryType = .entryNormal
  admitted : ∀ es, result = .ok es → ∀ k e, es[k]? = some e → e.entryType ≠ .entryNormal →
    r.raftLog.applied < r.raftLog.lastIndex + i + k + 1 →
      r'.pendingConfIndex = r.raftLog.lastIndex + i + k + 1

theorem Filtered.keep {r r' : Raft} {i : Nat} {result : Except RaftError (List Entry)} {e : Entry}
    (rest : Filtered inp r r' (i + 1) result) (normal : e.entryType = .entryNormal) :
    Filtered inp r r' i (result.map fun es => e :: es) := by
  refine ⟨rest.same, rest.acts, fun pending => ⟨(rest.refused pending).1, ?_⟩, ?_⟩
  · rintro es' found other inside
    cases result with
    | error => cases found
    | ok es =>
        cases found
        rcases List.mem_cons.1 inside with rfl | inside
        · exact normal
        · exact (rest.refused pending).2 es rfl other inside
  · rintro es' found k other present changes unapplied
    cases result with
    | error => cases found
    | ok es =>
        cases found
        cases k with
        | zero =>
            obtain rfl : e = other := by simpa using present
            exact absurd normal changes
        | succ k =>
            have later := rest.admitted es rfl k other (by simpa using present) changes (by omega)
            omega

/-- An admitted configuration change goes in front of a filtered proposal without another one. -/
theorem Filtered.reserve {r r' : Raft} {i : Nat} {result : Except RaftError (List Entry)} {e : Entry}
    (role : r.state = .leader) (free : r.pendingConfIndex ≤ r.raftLog.applied)
    (rest : Filtered inp { r with pendingConfIndex := r.raftLog.lastIndex + i + 1 } r' (i + 1) result) :
    Filtered inp r r' i (result.map fun es => e :: es) := by
  refine ⟨?_, ?_, fun pending => absurd free (by omega), ?_⟩
  · obtain ⟨pendingConfIndex, same⟩ := rest.same
    exact ⟨pendingConfIndex, same⟩
  · have act : Act inp r.core { r.core with pendingConfIndex := r.raftLog.lastIndex + i + 1 } :=
      .reserve role free (show r.raftLog.lastIndex < _ by omega)
    exact act.acts.trans rest.acts
  · rintro es' found k other present changes unapplied
    cases result with
    | error => cases found
    | ok es =>
        cases found
        cases k with
        | zero =>
            obtain ⟨kept, -⟩ := rest.refused unapplied
            rw [kept]
        | succ k =>
            have later := rest.admitted es rfl k other (by simpa using present) changes
            simp only at later
            have := later (by omega)
            omega

theorem proposedChange_none [ConfChangeCodec] {e : Entry} (none : proposedChange e = .ok none) :
    e.entryType = .entryNormal := by
  unfold proposedChange at none
  split at none
  · split at none <;> cases none
  · split at none <;> cases none
  next kind => exact kind

/-- The leader filters a proposal through atomic changes. -/
theorem filterProposal_filtered [ConfChangeCodec] (role : r.state = .leader) (i : Nat)
    (es : List Entry) :
    Filtered inp r (r.filterProposal i es).1 i (r.filterProposal i es).2 := by
  have stay : ∀ r : Raft, ∀ i result, (∀ es, result = .ok es → es = []) → Filtered inp r r i result := by
    intro r i result empty
    refine ⟨⟨_, rfl⟩, .refl, fun _ => ⟨rfl, fun es found e inside => ?_⟩, fun es found k e present => ?_⟩
    · rw [empty es found] at inside
      cases inside
    · rw [empty es found] at present
      cases present
  induction es generalizing r i with
  | nil => exact stay r i _ fun es found => (Except.ok.inj found).symm
  | cons e rest ih =>
      unfold filterProposal
      split
      · exact stay r i _ fun es found => nomatch found
      next change found =>
        cases change with
        | none =>
            have later := (ih role (i + 1)).keep (proposedChange_none found)
            simp only
            generalize r.filterProposal (i + 1) rest = filtered at later ⊢
            rcases filtered with ⟨r', _ | _⟩ <;> exact later
        | some cc =>
            simp only
            by_cases refuses : r.refusesChange cc = true
            · rw [if_pos refuses]
              have later := (ih role (i + 1)).keep (e := {}) rfl
              simp only
              generalize r.filterProposal (i + 1) rest = filtered at later ⊢
              rcases filtered with ⟨r', _ | _⟩ <;> exact later
            · rw [if_neg refuses]
              have free : r.pendingConfIndex ≤ r.raftLog.applied := by
                simp only [refusesChange, hasPendingConf, Bool.or_eq_true, decide_eq_true_eq,
                  not_or] at refuses
                omega
              have later := Filtered.reserve (e := e) role free
                (ih (r := { r with pendingConfIndex := r.raftLog.lastIndex + i + 1 }) role (i + 1))
              simp only
              generalize filterProposal _ (i + 1) rest = filtered at later ⊢
              rcases filtered with ⟨r', _ | _⟩ <;> exact later

/-- The positions that a leader assigns. -/
theorem getElem?_assignPositions (term lastIndex k : Nat) (es : List Entry) :
    (assignPositions term lastIndex es)[k]? = es[k]?.map fun e => { e with
      term, index := lastIndex + k + 1 } := by
  induction es generalizing lastIndex k with
  | nil => simp [assignPositions]
  | cons e rest ih =>
      unfold assignPositions
      cases k with
      | zero => simp
      | succ k =>
          rw [List.getElem?_cons_succ, List.getElem?_cons_succ, ih]
          congr 2
          funext e
          congr 1
          omega

theorem does_handlePropose [ConfChangeCodec] (stepped : inp (.message m))
    (kind : m.msgType = .msgPropose) (role : r.state = .leader) :
    Does inp r.core (r.handlePropose m) (fun x => x.1.core) fun _ => True := by
  unfold handlePropose
  split
  · exact .fail not_false
  split
  · exact .pure .refl trivial
  split
  · exact .pure .refl trivial
  have filter : Filtered inp r _ 0 _ := filterProposal_filtered role 0 m.entries
  split
  next filtered =>
    rw [filtered] at filter
    exact .pure filter.acts trivial
  next entries filtered =>
    rw [filtered] at filter
    obtain ⟨pendingConfIndex, rfl⟩ := filter.same
    refine .after filter.acts (.bind (does_appendEntry (r := { r with pendingConfIndex }) entries role ?_
      (.inr ⟨m, stepped, kind⟩)) fun x steady => ?_)
    · intro e inside changes unapplied
      obtain ⟨k, present⟩ := List.getElem?_of_mem inside
      rw [getElem?_assignPositions] at present
      obtain ⟨e', found, rfl⟩ := Option.map_eq_some_iff.1 present
      simp only at unapplied
      have := filter.admitted entries rfl k e' found changes (by omega)
      simp only at this ⊢
      omega
    split
    · exact .pure .refl trivial
    next r' =>
      refine .bind (does_bcastAppend (steady.state.trans role)) fun _ _ => ?_
      exact .pure .refl trivial

theorem does_done {run : Except Fatal Raft} {c : Core} {post : Raft → Prop}
    (does : Does inp c run core post) :
    Does inp c (run >>= fun r => .ok (r, Except.ok (ε := RaftError) ())) (fun x => x.1.core)
      fun _ => True :=
  does.bind fun _ _ => .pure .refl trivial

theorem does_stepLeader [ConfChangeCodec]
    (stepped : isLocalMsg m.msgType = false → inp (.message m)) (role : r.state = .leader)
    (heard : (m.msgType = .msgAppendResponse ∧ m.reject = false) ∨ m.msgType = .msgHeartbeatResponse →
      r.core.Hears m) :
    Does inp r.core (r.stepLeader m) (fun x => x.1.core) fun _ => True := by
  unfold stepLeader
  simp only
  split
  · exact does_done (does_bcastHeartbeat role)
  · split
    next checked =>
      rw [← core_checkQuorumActive.1, checked]
      exact .pure .refl trivial
    next r' checked =>
      have same := core_checkQuorumActive (r := r)
      rw [checked] at same
      rw [← same.1]
      refine .pure ?_ trivial
      rw [core_becomeFollower]
      exact Act.stepDown.acts
  next kind => exact does_handlePropose (stepped (by rw [kind]; rfl)) kind role
  next kind => exact does_done (does_handleReadIndex (stepped (by rw [kind]; rfl)) kind role)
  next kind => exact does_done (does_handleAppendResponse (stepped (by rw [kind]; rfl)) kind
    (fun accepted => heard (.inl ⟨kind, accepted⟩)) role)
  next kind =>
    exact does_done
      (does_handleHeartbeatResponse (stepped (by rw [kind]; rfl)) kind (heard (.inr kind)) role)
  · exact .pure acts_handleSnapshotStatus trivial
  · exact .pure acts_handleUnreachable trivial
  · exact does_done (does_handleTransferLeader role)
  · exact .pure .refl trivial

end Raft

end RaftRs

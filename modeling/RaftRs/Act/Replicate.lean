import RaftRs.Act.Lead

namespace RaftRs

open Library

/-- A rejection keeps the bounds of the positions. -/
theorem Progress.maybeDecrTo_moves {pr pr' : Progress} {rejected hint requestSnapshot : Nat}
    {lowered : Bool} (done : pr.maybeDecrTo rejected hint requestSnapshot = .ok (pr', lowered)) :
    pr'.matched = pr.matched ∧ pr'.nextIdx ≤ max pr.nextIdx (pr.matched + 1) ∧
      pr'.pendingSnapshot = pr.pendingSnapshot ∧
      (pr'.pendingRequestSnapshot = pr.pendingRequestSnapshot ∨
        pr'.pendingRequestSnapshot = requestSnapshot) := by
  rcases maybeDecrTo_cases done with ⟨-, rfl⟩ | ⟨-, -, rfl⟩ | ⟨-, -, rfl⟩ | ⟨-, -, next, rfl⟩
    | ⟨-, -, _, asked, rfl⟩
  · exact ⟨rfl, le_max_left .., rfl, .inl rfl⟩
  · exact ⟨rfl, le_max_right .., rfl, .inl rfl⟩
  · exact ⟨rfl, le_max_left .., rfl, .inr rfl⟩
  · refine ⟨rfl, ?_, rfl, .inl rfl⟩
    simp only
    omega
  · exact ⟨rfl, le_max_left .., rfl, asked⟩

theorem Progress.quiet_maybeDecrTo (pr : Progress) (rejected hint requestSnapshot : Nat) :
    Quiet (pr.maybeDecrTo rejected hint requestSnapshot) := by
  unfold maybeDecrTo
  split
  · split
    · exact quiet_ok
    split
    · exact (quiet_checkedAdd ..).bind fun _ => quiet_ok
    · exact quiet_ok
  split
  · exact quiet_ok
  split
  · exact (quiet_checkedAdd ..).bind fun _ => (quiet_checkedAdd ..).bind fun _ => quiet_ok
  split <;> exact quiet_ok

/-- Probing restarts inside of the bounds of the positions. -/
theorem Progress.becomeProbe_position (pr : Progress) :
    pr.becomeProbe.matched = pr.matched ∧
      pr.becomeProbe.nextIdx ≤ max (pr.matched + 1) (pr.pendingSnapshot + 1) ∧
      pr.becomeProbe.pendingSnapshot = 0 ∧
        pr.becomeProbe.pendingRequestSnapshot = pr.pendingRequestSnapshot := by
  unfold Progress.becomeProbe
  split <;> simp [Progress.resetState]

namespace Raft

variable {r : Raft} {inp : Input → Prop} {m : Message}

theorem acts_put {id : Nat} {pr pr' : Progress} (known : r.prs.get id = some pr)
    (moves : Moves inp r.core pr.position pr'.position) :
    Acts inp r.core { r with prs := r.prs.put id pr' }.core := by
  rw [core_put r (by simp [known])]
  exact (Act.move (core_positions known) moves).acts

theorem steady_bind {c : Core} {run : Except Fatal Raft} {next : Raft → Except Fatal Raft}
    (first : Does inp c run core (Steady r))
    (continues : ∀ r', Steady r r' → Does inp r'.core (next r') core (Steady r')) :
    Does inp c (run >>= next) core (Steady r) :=
  first.bind fun r' steady => (continues r' steady).mono fun _ more => steady.trans more

theorem does_handleAppendRejection {pr pr₀ : Progress} {nextProbeIndex : Nat}
    (stepped : inp (.message m)) (kind : m.msgType = .msgAppendResponse) (role : r.state = .leader)
    (known : r.prs.get m.fromId = some pr₀) (same : pr.position = pr₀.position) :
    Does inp r.core (r.handleAppendRejection m pr nextProbeIndex) core (Steady r) := by
  obtain ⟨matched₀, next₀, snapshot₀, request₀⟩ := Position.mk.inj same
  unfold handleAppendRejection
  refine .read (pr.quiet_maybeDecrTo ..) fun decreased done => ?_
  cases decreased with
  | mk pr' lowered =>
      obtain ⟨matched, next, snapshot, request⟩ := Progress.maybeDecrTo_moves done
      have bound : pr'.nextIdx ≤ max (max pr₀.nextIdx (pr₀.matched + 1))
          (max (pr₀.pendingSnapshot + 1) (r.raftLog.lastIndex + 1)) := by omega
      have probed : pr'.becomeProbe.nextIdx ≤ max (max pr₀.nextIdx (pr₀.matched + 1))
          (max (pr₀.pendingSnapshot + 1) (r.raftLog.lastIndex + 1)) := by
        have := pr'.becomeProbe_position.2.1
        omega
      have requested : pr'.pendingRequestSnapshot = pr₀.pendingRequestSnapshot ∨
          pr'.pendingRequestSnapshot = 0 ∨ ∃ m, inp (.message m) ∧ m.msgType = .msgAppendResponse ∧
            pr'.pendingRequestSnapshot = m.requestSnapshot := by
        rcases request with kept | asked
        · exact .inl (kept.trans request₀)
        · exact .inr (.inr ⟨m, stepped, kind, asked⟩)
      have stays : Moves inp r.core pr₀.position pr'.position :=
        ⟨matched.trans matched₀, bound, .inl (snapshot.trans snapshot₀), requested⟩
      cases lowered with
      | false => exact .pure (acts_put known stays) ⟨rfl, rfl, rfl, rfl⟩
      | true =>
          have send : ∀ pr'', Does inp { r with prs := r.prs.put m.fromId pr'' }.core
              ({ r with prs := r.prs.put m.fromId pr'' }.sendAppend m.fromId) core (Steady r) :=
            fun pr'' => (does_sendAppend (r := { r with prs := r.prs.put m.fromId pr'' }) role
              (.inr ⟨m, stepped, rfl, .inl kind⟩)).mono
              fun _ steady => ⟨steady.id, steady.term, steady.state, steady.reads⟩
          simp only
          split
          · obtain ⟨same, -, cleared, kept⟩ := pr'.becomeProbe_position
            refine .after (acts_put known ⟨?_, probed, .inr cleared, ?_⟩) (send _)
            · exact same.trans (matched.trans matched₀)
            · simp only [Progress.position, kept]
              exact requested
          · exact .after (acts_put known stays) (send _)

/-- The progress state after an acknowledgement keeps the bounds of the positions. -/
theorem acknowledgedProgress_moves {c : Core} {pr pr' : Progress} {index : Nat}
    (done : acknowledgedProgress pr index = .ok pr') : Moves inp c pr.position pr'.position := by
  unfold acknowledgedProgress at done
  split at done
  · obtain rfl := Except.ok.inj done
    exact ⟨rfl, by simp [Progress.position, Progress.becomeReplicate, Progress.resetState],
      .inr rfl, .inl rfl⟩
  · obtain rfl := Except.ok.inj done
    split
    · obtain ⟨same, bound, cleared, kept⟩ := pr.becomeProbe_position
      refine ⟨same, ?_, .inr cleared, .inl kept⟩
      simp only [Progress.position]
      omega
    · exact ⟨rfl, by simp, .inl rfl, .inl rfl⟩
  · obtain ⟨ins, _, same⟩ := bind_eq_ok.1 done
    obtain rfl := Except.ok.inj same
    exact ⟨rfl, by simp [Progress.position], .inl rfl, .inl rfl⟩

theorem quiet_acknowledgedProgress (pr : Progress) (index : Nat) :
    Quiet (acknowledgedProgress pr index) := by
  unfold acknowledgedProgress
  split
  · exact quiet_ok
  · exact quiet_ok
  · exact (pr.ins.quiet_freeTo index).bind fun _ => quiet_ok

theorem does_maybeTransfer (fromId : Nat) (role : r.state = .leader) :
    Does inp r.core (r.maybeTransfer fromId) core (Steady r) := by
  unfold maybeTransfer
  split
  · split
    · exact .fail not_false
    split
    · exact (does_send (.timeoutNow role)).mono fun _ same => same ▸ ⟨rfl, rfl, rfl, rfl⟩
    · exact .pure .refl .refl
  · exact .pure .refl .refl

theorem does_handleAppendAcceptance {pr pr₀ : Progress} (stepped : inp (.message m))
    (kind : m.msgType = .msgAppendResponse) (accepted : m.reject = false) (heard : r.core.Hears m)
    (role : r.state = .leader) (known : r.prs.get m.fromId = some pr₀)
    (same : pr.position = pr₀.position) :
    Does inp r.core (r.handleAppendAcceptance m pr) core (Steady r) := by
  have raised : Act inp r.core (r.coreWith m.fromId (pr.raised m.index)) := by
    rw [coreWith, pr.raised_position, same]
    exact .acknowledge stepped kind accepted heard role (core_positions known)
  unfold handleAppendAcceptance
  simp only
  refine .read (pr.meets_maybeUpdate not_false _) fun updated done => .after raised.acts ?_
  cases updated with
  | mk pr' moved =>
      obtain ⟨-, -, rise⟩ := Progress.maybeUpdate_ok.1 done
      rw [← rise]
      have tracked : (r.prs.get m.fromId).isSome := by simp [known]
      cases moved with
      | false =>
          refine .pure ?_ ⟨rfl, rfl, rfl, rfl⟩
          rw [core_put r tracked]
      | true =>
          refine .read (quiet_acknowledgedProgress ..) fun pr'' done => ?_
          have moves : Moves inp (r.coreWith m.fromId pr') pr'.position pr''.position :=
            acknowledgedProgress_moves done
          have move : Acts inp (r.coreWith m.fromId pr') { r with
              prs := r.prs.put m.fromId pr'' }.core := by
            refine (Act.move positions_coreWith moves).acts_to ?_
            rw [coreWith, Core.at'_at', core_put r tracked, coreWith]
          refine .after move ?_
          refine (does_maybeCommit (r := { r with prs := r.prs.put m.fromId pr'' }) role).bind
            fun x steady => ?_
          obtain ⟨r₁, committed⟩ := x
          have steady : Steady r r₁ := ⟨steady.id, steady.term, steady.state, steady.reads⟩
          have other : ∀ r' : Raft, Addressee inp r'.core m.fromId :=
            fun _ => .inr ⟨m, stepped, rfl, .inl kind⟩
          have follow : Does inp r₁.core
              (if committed then (if r₁.shouldBcastCommit then r₁.bcastAppend else pure r₁)
              else if pr.isPaused then r₁.sendAppend m.fromId else pure r₁) core (Steady r) := by
            have role := steady.state.trans role
            split
            · split
              · exact (does_bcastAppend role).mono fun _ more => steady.trans more
              · exact .pure .refl steady
            split
            · exact (does_sendAppend role (other r₁)).mono fun _ more => steady.trans more
            · exact .pure .refl steady
          refine steady_bind follow fun r₂ steady => ?_
          refine steady_bind (does_sendAppendAggressively (steady.state.trans role) (other r₂))
            fun r₃ more => ?_
          exact does_maybeTransfer m.fromId (more.state.trans (steady.state.trans role))

theorem does_handleAppendResponse (stepped : inp (.message m)) (kind : m.msgType = .msgAppendResponse)
    (heard : m.reject = false → r.core.Hears m) (role : r.state = .leader) :
    Does inp r.core (r.handleAppendResponse m) core (Steady r) := by
  unfold handleAppendResponse
  refine .read ?_ fun nextProbeIndex _ => ?_
  · unfold nextProbeIndex
    split
    · exact (r.raftLog.quiet_findConflictByTerm ..).bind fun _ => quiet_ok
    · exact quiet_ok
  split
  · exact .pure .refl .refl
  next pr known =>
    have same := { pr with recentActive := true }.updateCommitted_position m.commit
    simp only
    split
    · exact does_handleAppendRejection stepped kind role known same
    next accepted =>
      have accepted : m.reject = false := by simpa using accepted
      exact does_handleAppendAcceptance stepped kind accepted (heard accepted) role known same

theorem does_adjustMaxInflightMsgs (target cap : Nat) :
    Does inp r.core (r.adjustMaxInflightMsgs target cap) core fun _ => True := by
  unfold adjustMaxInflightMsgs
  split
  · exact .pure .refl trivial
  · rename_i pr known
    refine .read (pr.ins.quiet_setCap cap) fun ins _ => .pure ?_ trivial
    have same : { r with prs := r.prs.put target { pr with ins } }.core = r.core :=
      core_put_same known rfl
    rw [same]

end Raft

end RaftRs

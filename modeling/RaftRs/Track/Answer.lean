import RaftRs.Track.Serve

namespace RaftRs

open Library

namespace Raft

/-- A node that tends its peers marks one of them as active. -/
structure Heeds (largest peer : Nat) (r r' : Raft) : Prop extends Tends largest r r' where
  activity : r'.activity = Function.update r.activity peer (some true)

variable {r r' r'' : Raft} {largest id : Nat} {pr old : Progress} {m : Message}

theorem Heeds.trans (one : Heeds largest id r r') (two : Tracks largest r' r'') :
    Heeds largest id r r'' :=
  ⟨one.toTends.trans two.toTends, two.activity.trans one.activity⟩

theorem heeds_put (known : r.prs.get id = some old) (active : pr.recentActive = true)
    (flow : r.raftLog.Sound → id ≠ r.id → old.Flow → pr.Flow) :
    Heeds largest id r { r with prs := r.prs.put id pr } :=
  ⟨tends_put known flow, by rw [activity_put known, active]⟩

theorem updateCommitted_recentActive (pr : Progress) (committedIndex : Nat) :
    (pr.updateCommitted committedIndex).recentActive = pr.recentActive := by
  unfold Progress.updateCommitted
  split <;> rfl

theorem becomeProbe_recentActive (pr : Progress) : pr.becomeProbe.recentActive = pr.recentActive := by
  unfold Progress.becomeProbe
  split <;> rfl

/-- An acknowledged peer keeps its activity mark. -/
theorem acknowledged_recentActive {raised : Progress} {n : Nat}
    (done : acknowledgedProgress raised n = .ok pr) :
    pr.recentActive = raised.recentActive := by
  unfold acknowledgedProgress at done
  split at done
  · obtain rfl := Except.ok.inj done
    rfl
  · obtain rfl := Except.ok.inj done
    split
    · exact becomeProbe_recentActive _
    · rfl
  · obtain ⟨ins, _, same⟩ := bind_eq_ok.1 done
    obtain rfl := Except.ok.inj same
    rfl

/-- A raised peer keeps its activity mark. -/
theorem maybeUpdate_recentActive {raised : Progress} {n : Nat} {moved : Bool}
    (done : pr.maybeUpdate n = .ok (raised, moved)) : raised.recentActive = pr.recentActive := by
  obtain ⟨-, -, rfl⟩ := Progress.maybeUpdate_ok.1 done
  rfl

/-- A progress that a response has marked as active. -/
structure Marked (old pr : Progress) : Prop where
  active : pr.recentActive = true
  flow : old.Flow → pr.Flow

theorem heeds_handleAppendRejection (known : r.prs.get m.fromId = some old) (marked : Marked old pr)
    (nextProbeIndex : Nat) :
    Yields (r.handleAppendRejection m pr nextProbeIndex) (Heeds largest m.fromId r) := by
  unfold handleAppendRejection
  refine .read fun decreased done => ?_
  split
  next pr' =>
    rw [Progress.maybeDecrTo_stale done]
    exact heeds_put known marked.active fun _ _ => marked.flow
  next pr' =>
    have moved := done
    have active : pr'.recentActive = true :=
      (Progress.maybeDecrTo_recentActive moved).trans marked.active
    refine tracks_sendAppend.mono fun _ tracks => (heeds_put known ?_ fun _ _ flow => ?_).trans tracks
    · split
      · exact (becomeProbe_recentActive _).trans active
      · exact active
    · exact (marked.flow flow).rejected moved

theorem tracks_maybeTransfer (fromId : Nat) : Yields (r.maybeTransfer fromId) (Tracks largest r) := by
  unfold maybeTransfer
  split
  · split
    · exact yields_error
    · split
      · exact tracks_send
      · exact Tracks.refl
  · exact Tracks.refl

theorem heeds_handleAppendAcceptance (known : r.prs.get m.fromId = some old) (marked : Marked old pr) :
    Yields (r.handleAppendAcceptance m pr) (Heeds largest m.fromId r) := by
  unfold handleAppendAcceptance
  refine .read fun updated done => ?_
  split
  next raised =>
    refine heeds_put known ((maybeUpdate_recentActive done).trans marked.active) fun _ _ flow => ?_
    rw [(marked.flow flow).maybeUpdate_stale done]
    exact marked.flow flow
  next raised =>
    have fresh := done
    refine .read fun pr' acknowledged => ?_
    have put : Heeds largest m.fromId r { r with prs := r.prs.put m.fromId pr' } := by
      refine heeds_put known ?_ fun _ _ flow => (marked.flow flow).acknowledged fresh acknowledged
      rw [acknowledged_recentActive acknowledged, maybeUpdate_recentActive fresh, marked.active]
    refine Meets.bind tracks_maybeCommit fun x (tracks : Tracks largest _ x.1) => ?_
    obtain ⟨r₁, committed⟩ := x
    have heeds : Heeds largest m.fromId r r₁ := put.trans tracks
    simp only
    have follow : Yields (if committed then (if r₁.shouldBcastCommit then r₁.bcastAppend else pure r₁)
        else if pr.isPaused then r₁.sendAppend m.fromId else pure r₁) (Heeds largest m.fromId r) := by
      split
      · split
        · exact tracks_bcastAppend.mono fun _ more => heeds.trans more
        · exact heeds
      · split
        · exact tracks_sendAppend.mono fun _ more => heeds.trans more
        · exact heeds
    refine follow.bind fun r₂ heeds => ?_
    refine tracks_sendAppendAggressively.bind fun r₃ (more : Tracks largest r₂ r₃) => ?_
    exact (tracks_maybeTransfer m.fromId).mono fun _ last => (heeds.trans more).trans last

theorem heeds_handleAppendResponse :
    Yields (r.handleAppendResponse m) fun r' => (r.prs.get m.fromId = none ∧ r' = r) ∨
      ((r.prs.get m.fromId).isSome ∧ Heeds largest m.fromId r r') := by
  unfold handleAppendResponse
  refine .read fun nextProbeIndex _ => ?_
  split
  next absent => exact .inl ⟨absent, rfl⟩
  next pr known =>
    have marked : Marked pr ({ pr with recentActive := true }.updateCommitted m.commit) :=
      ⟨updateCommitted_recentActive _ _, fun flow =>
        (flow.congr rfl rfl rfl rfl : Progress.Flow { pr with recentActive := true }).updateCommitted _⟩
    have tracked : (r.prs.get m.fromId).isSome := by rw [known]; rfl
    simp only
    split
    · exact (heeds_handleAppendRejection known marked _).mono fun _ heeds => .inr ⟨tracked, heeds⟩
    · exact (heeds_handleAppendAcceptance known marked).mono fun _ heeds => .inr ⟨tracked, heeds⟩

theorem tracks_respondRead (req : Message) (index : Nat) :
    Yields (r.respondRead req index) (Tracks largest r) := by
  unfold respondRead handleReadyReadIndex
  split
  · split
    · exact yields_error
    · exact tracks_same rfl rfl rfl rfl rfl (same_log rfl)
  · rw [ok_bind]
    exact tracks_send

theorem tracks_advanceReads (id : Nat) (ctx : Bytes) :
    Yields (r.advanceReads id ctx) (Tracks largest r) := by
  unfold advanceReads
  split
  next readOnly acks _ =>
    simp only
    have noted : ∀ readOnly, Tracks largest r { r with readOnly } := fun _ =>
      tracks_same rfl rfl rfl rfl rfl (same_log rfl)
    split
    · refine .read fun ⟨readOnly', rss⟩ _ => ?_
      refine Meets.foldlM rss (fun rs _ r' tracks => ?_) _ (noted readOnly')
      exact (tracks_respondRead rs.req rs.index).mono fun _ more => tracks.trans more
    · exact noted readOnly
  · exact Tracks.refl

theorem heeds_handleHeartbeatResponse :
    Yields (r.handleHeartbeatResponse m) fun r' => (r.prs.get m.fromId = none ∧ r' = r) ∨
      ((r.prs.get m.fromId).isSome ∧ Heeds largest m.fromId r r') := by
  unfold handleHeartbeatResponse
  split
  next absent => exact .inl ⟨absent, rfl⟩
  next pr known =>
    have tracked : (r.prs.get m.fromId).isSome := by rw [known]; rfl
    have resumed : pr.Flow → { pr.updateCommitted m.commit with
        recentActive := true }.resume.Flow := fun flow =>
      (flow.updateCommitted m.commit).congr rfl rfl rfl rfl
    simp only
    refine .read fun ins freed => ?_
    have heeds : Heeds largest m.fromId r { r with
        prs := r.prs.put m.fromId ({ pr.updateCommitted m.commit with
          paused := false, recentActive := true, ins }) } := by
      refine heeds_put known rfl fun _ _ flow => ?_
      split at freed
      · exact (resumed flow).freeFirstOne freed
      · obtain rfl := Except.ok.inj freed
        exact resumed flow
    refine Meets.bind ?_ fun r' (heeds : Heeds largest m.fromId r r') => ?_
    · split
      · exact tracks_sendAppend.mono fun _ more => heeds.trans more
      · exact heeds
    · split
      · exact .inr ⟨tracked, heeds⟩
      · exact (tracks_advanceReads m.fromId m.context).mono
          fun _ more => .inr ⟨tracked, heeds.trans more⟩

theorem tracks_handleTransferLeader : Yields (r.handleTransferLeader m) (Tracks largest r) := by
  unfold handleTransferLeader
  split
  · exact Tracks.refl
  next pr known =>
    split
    · exact Tracks.refl
    split
    · exact Tracks.refl
    simp only
    split
    · exact tracks_same rfl rfl rfl rfl rfl (same_log rfl)
    · have noted : Tracks largest r { r.abortLeaderTransfer with
          electionElapsed := 0, leadTransferee := some m.fromId } :=
        tracks_same rfl rfl rfl rfl rfl (same_log rfl)
      split
      · exact tracks_send.mono fun _ more => noted.trans more
      · exact tracks_sendAppend.mono fun _ more => noted.trans more

theorem tracks_handleSnapshotStatus : Tracks largest r (r.handleSnapshotStatus m) := by
  unfold handleSnapshotStatus
  split
  · exact .refl
  next pr known =>
    split
    · exact .refl
    · simp only
      refine tracks_put known ?_ fun _ _ _ => ?_
      · split
        · exact becomeProbe_recentActive _
        · exact becomeProbe_recentActive _
      · have probed : (if m.reject then pr.snapshotFailure.becomeProbe else pr.becomeProbe).Flow := by
          split <;> exact Progress.flow_becomeProbe _
        exact probed.congr rfl rfl rfl rfl

theorem tracks_handleUnreachable : Tracks largest r (r.handleUnreachable m) := by
  unfold handleUnreachable
  split
  · exact .refl
  next pr known =>
    refine tracks_put known ?_ fun _ _ flow => ?_
    · split
      · exact becomeProbe_recentActive _
      · rfl
    · split
      · exact Progress.flow_becomeProbe _
      · exact flow

theorem tracks_adjustMaxInflightMsgs (target cap : Nat) :
    Yields (r.adjustMaxInflightMsgs target cap) (Tracks largest r) := by
  unfold adjustMaxInflightMsgs
  split
  · exact Tracks.refl
  next pr known =>
    refine .read fun ins done => ?_
    exact tracks_put known rfl fun _ _ flow => flow.setCap done

/-- The activity marks after a check of the quorum. -/
def clearedActivity (r : Raft) (id : Nat) : Option Bool := (r.activity id).map fun _ => id == r.id

theorem tends_checkQuorumActive :
    Tends largest r r.checkQuorumActive.1 ∧ r.checkQuorumActive.1.activity = r.clearedActivity := by
  have get : ∀ id, r.checkQuorumActive.1.prs.get id =
      (r.prs.get id).map fun pr => { pr with recentActive := id == r.id } := fun id =>
    r.prs.progress.get?_mapValues _ id
  refine ⟨tends_of rfl rfl rfl rfl (same_log rfl) fun _ flows id pr other known => ?_,
    funext fun id => ?_⟩
  · rw [get] at known
    obtain ⟨old, found, rfl⟩ := Option.map_eq_some_iff.1 known
    exact (flows.peers id old other found).congr rfl rfl rfl rfl
  · unfold clearedActivity activity
    rw [get, Option.map_map, Option.map_map]
    rfl

theorem tracks_filterProposal [ConfChangeCodec] (i : Nat) (es : List Entry) :
    Tracks largest r (r.filterProposal i es).1 ∧
      ∀ kept, (r.filterProposal i es).2 = .ok kept → dataSize kept ≤ dataSize es := by
  induction es generalizing r i with
  | nil => exact ⟨.refl, fun kept same => Except.ok.inj same ▸ le_rfl⟩
  | cons e rest ih =>
      unfold filterProposal
      split
      · exact ⟨.refl, by simp⟩
      next change _ =>
        -- The rest of the proposal goes on from a node and an entry that are either kept or replaced.
        have continues : ∀ (r₁ : Raft) (e₁ : Entry), Tracks largest r r₁ →
            e₁.data.length ≤ e.data.length → ∀ result : Raft × Except RaftError (List Entry),
              (∀ r₂ es, r₁.filterProposal (i + 1) rest = (r₂, .ok es) → result = (r₂, .ok (e₁ :: es))) →
              (∀ r₂ error, r₁.filterProposal (i + 1) rest = (r₂, .error error) →
                result = (r₂, .error error)) →
              Tracks largest r result.1 ∧ ∀ kept, result.2 = .ok kept →
                dataSize kept ≤ dataSize (e :: rest) := by
          intro r₁ e₁ tracks less result accepts fails
          obtain ⟨more, size⟩ := ih (r := r₁) (i + 1)
          rcases done : r₁.filterProposal (i + 1) rest with ⟨r₂, error | es⟩
          · rw [done] at more
            obtain rfl := fails r₂ error done
            exact ⟨tracks.trans more, by simp⟩
          · rw [done] at more size
            obtain rfl := accepts r₂ es done
            refine ⟨tracks.trans more, fun kept same => ?_⟩
            obtain rfl := Except.ok.inj same
            have shorter := size es rfl
            simp only [dataSize, List.map_cons, List.sum_cons] at shorter ⊢
            omega
        cases change with
        | none =>
            apply continues r e .refl le_rfl
            · rintro r₂ es done
              simp only [done]
            · rintro r₂ error done
              simp only [done]
        | some cc =>
            by_cases refused : r.refusesChange cc = true
            · simp only [refused, if_true]
              apply continues r {} .refl (Nat.zero_le _)
              · rintro r₂ es done
                simp only [done]
              · rintro r₂ error done
                simp only [done]
            · simp only [refused, Bool.false_eq_true, if_false]
              have noted : Tracks largest r { r with pendingConfIndex := r.raftLog.lastIndex + i + 1 } :=
                tracks_same rfl rfl rfl rfl rfl (same_log rfl)
              apply continues _ e noted le_rfl
              · rintro r₂ es done
                simp only [done]
              · rintro r₂ error done
                simp only [done]

theorem tracks_handlePropose [ConfChangeCodec] :
    Yields (r.handlePropose m) fun x => Tracks (dataSize m.entries) r x.1 := by
  unfold handlePropose
  split
  · exact yields_error
  split
  · exact Tracks.refl
  split
  · exact Tracks.refl
  have filtered : Tracks (dataSize m.entries) r (r.filterProposal 0 m.entries).1 ∧ _ :=
    tracks_filterProposal 0 m.entries
  cases done : r.filterProposal 0 m.entries with
  | mk r₁ result =>
      rw [done] at filtered
      cases result with
      | error error => exact filtered.1
      | ok entries =>
          refine (tracks_appendEntry (filtered.2 entries rfl)).bind fun x grown => ?_
          obtain ⟨r₂, appended⟩ := x
          have tracks : Tracks (dataSize m.entries) r r₂ := filtered.1.trans grown.1
          cases appended with
          | false => exact tracks
          | true => exact tracks_bcastAppend.bind fun r₃ more => tracks.trans more

theorem tracks_handleReadIndex : Yields (r.handleReadIndex m) (Tracks largest r) := by
  unfold handleReadIndex
  split
  · exact Tracks.refl
  split
  · exact tracks_respondRead ..
  split
  · split
    · exact yields_error
    · refine .read fun readOnly _ => ?_
      have noted : Tracks largest r { r with readOnly } := tracks_same rfl rfl rfl rfl rfl (same_log rfl)
      exact (tracks_bcastHeartbeatWithCtx _).mono fun _ more => noted.trans more
  · exact tracks_respondRead ..

end Raft

end RaftRs

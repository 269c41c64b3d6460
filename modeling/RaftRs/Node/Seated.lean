import RaftRs.Model.Play
import RaftRs.Node.Elected

namespace RaftRs

open Library

/-- A node tracks the members of its configuration, and itself while it leads. -/
structure Core.Seated (c : Core) : Prop where
  rostered : Rostered c.conf c.positions
  member : c.state = .leader → c.conf.Member c.id

/-- The changes of a call do not remove a leader. -/
structure Core.Staying (inp : Input → Prop) (c : Core) : Prop extends Core.Seated c where
  kept : c.state = .leader → ∀ cc conf, inp (.confChange cc) → inp (.configured conf) →
    cc.membershipChange.Keeps conf c.id

theorem Rostered.isSome_iff {conf : Configuration} {positions : Nat → Option Position}
    (rostered : Rostered conf positions) (id : Nat) : (positions id).isSome = true ↔ conf.Member id := by
  obtain ⟨roster, -, lists, tracks⟩ := rostered
  rw [tracks, lists.member]

variable {inp : Input → Prop} {c c' : Core}

theorem Core.Staying.keep (staying : c.Staying inp) (id : c'.id = c.id) (state : c'.state = c.state)
    (conf : c'.conf = c.conf) (tracked : ∀ id, (c'.positions id).isSome = (c.positions id).isSome) :
    c'.Staying inp := by
  refine ⟨⟨?_, ?_⟩, ?_⟩
  · rw [conf]
    exact staying.rostered.keep tracked
  · rw [state, conf, id]
    exact staying.member
  · rw [state, id]
    exact staying.kept

/-- A node that does not lead needs no seat. -/
theorem Core.Staying.rest (staying : c.Staying inp) (role : c'.state ≠ .leader) (conf : c'.conf = c.conf)
    (tracked : ∀ id, (c'.positions id).isSome = (c.positions id).isSome) : c'.Staying inp := by
  refine ⟨⟨?_, fun leads => absurd leads role⟩, fun leads => absurd leads role⟩
  rw [conf]
  exact staying.rostered.keep tracked

/-- Every atomic change keeps a leader seated. -/
theorem Act.staying (separate : Separate inp) (staying : c.Staying inp) (act : Act inp c c') :
    c'.Staying inp := by
  have same : ∀ id, (c.positions id).isSome = (c.positions id).isSome := fun _ => rfl
  cases act with
  | bump stepped later => exact staying.rest (by simp [Core.asFollower]) rfl c.freshPositions_isSome
  | stepDown => exact staying.rest (by simp [Core.asFollower]) rfl c.freshPositions_isSome
  | campaign may role cause =>
      exact staying.rest (by simp [Core.asCandidate]) rfl c.freshPositions_isSome
  | preCampaign may role eligible => exact staying.rest (by simp [Core.asPreCandidate]) rfl same
  | lead may role won settled known =>
      have tracked : ∀ id, (c.asLeader.positions id).isSome = (c.positions id).isSome := by
        intro id
        by_cases own : id = c.id
        · subst own
          simp [Core.asLeader, known]
        · simp [Core.asLeader, own, c.freshPositions_isSome]
      refine ⟨⟨staying.rostered.keep tracked, fun _ => ?_⟩, fun _ cc _ changed => ?_⟩
      · exact (staying.rostered.isSome_iff c.id).1 known
      · exact absurd changed (separate.election may cc)
  | acknowledge stepped kind accepted heard role known =>
      exact staying.keep rfl rfl rfl (Core.at'_isSome known)
  | move known moves => exact staying.keep rfl rfl rfl (Core.at'_isSome known)
  | sent known read ends => exact staying.keep rfl rfl rfl (Core.at'_isSome known)
  | sendSnapshot role other known taken nonempty =>
      exact staying.keep rfl rfl rfl (Core.at'_isSome (c := c.push _) known)
  | @persist index term log reported done =>
      have tracked := Core.countOwn_isSome { c with log } index
      rw [Core.countOwn_rest] at tracked ⊢
      exact staying.keep rfl rfl rfl tracked
  | restore stepped kind heard role fresh done confState rostered =>
      have follows : c.state ≠ .leader := by simp [role]
      exact ⟨⟨rostered, fun leads => absurd leads follows⟩, fun leads => absurd leads follows⟩
  | reconfigure changed current kept =>
      obtain ⟨rostered, -, keeps⟩ := kept staying.rostered
      refine ⟨⟨rostered, fun leads => ?_⟩, staying.kept⟩
      exact keeps _ (staying.member leads) (staying.kept leads _ _ changed current)
  | @confirm ctx status readOnly confirmed role pending acked done =>
      obtain ⟨_, _, rest⟩ := Core.responds_rest { c with readOnly } confirmed
      rw [rest]
      exact staying.keep rfl rfl rfl same
  | @respondNow m stepped kind role immediate =>
      obtain ⟨_, _, rest⟩ := c.respond_rest m c.log.committed
      rw [rest]
      exact staying.keep rfl rfl rfl same
  | _ => exact staying.keep rfl rfl rfl same

theorem Acts.staying (separate : Separate inp) (staying : c.Staying inp) (acts : Acts inp c c') :
    c'.Staying inp := by
  induction acts with
  | refl => exact staying
  | tail _ act ih => exact act.staying separate ih

theorem Core.Seated.internal (seated : c.Seated) (internal : ∀ input, inp input → input.Internal) :
    c.Staying inp :=
  ⟨seated, fun _ _ _ given => (internal _ given).elim⟩

theorem Core.Seated.no_missingOwn (seated : c.Seated) : ¬ Faults inp c .missingOwn := by
  intro faults
  rcases faults.other trivial not_false with ⟨-, role, absent⟩ | ⟨wrong, -⟩ | ⟨m, wrong, -⟩ | ⟨wrong, -⟩
  · have known := (seated.rostered.isSome_iff c.id).2 (seated.member role)
    rw [absent] at known
    cases known
  · cases wrong
  · cases wrong
  · cases wrong

/-- A node that has just started is seated. -/
theorem RawNode.Starts.seated {config : Config} {store : MemStorage} {rn : RawNode}
    (starts : rn.Starts config store) :
    rn.raft.core.Seated := by
  refine ⟨Raft.rostered_core.2 starts.rostered, ?_⟩
  rw [starts.core]
  nofun

/-- A leader applies no change that removes it. -/
def Host.Staying (host : Host) (op : HostOp) : Prop :=
  ∀ cc, op = .applyConfChange cc → ∀ rn, host.raw = some rn → rn.raft.state = .leader →
    cc.membershipChange.Keeps rn.raft.prs.conf rn.raft.id

/-- An operation that does not remove its leader keeps it seated. -/
theorem Host.Staying.core {host : Host} {op : HostOp} {rn : RawNode} (staying : host.Staying op)
    (running : host.raw = some rn) (seated : rn.raft.core.Seated) :
    rn.raft.core.Staying (rn.inputs op.inputs) := by
  refine ⟨seated, fun leads cc conf changed current => ?_⟩
  have current : conf = rn.raft.prs.conf := current
  subst current
  cases op with
  | applyConfChange cc' =>
      obtain rfl : cc = cc' := changed
      exact staying cc rfl rn running leads
  | _ => exact changed.elim

/-- The operation applies no conf change but this one. -/
def Host.appliesOnly (cc : ConfChangeV2) (_ : Host) : HostOp → Bool
  | .applyConfChange change => decide (change = cc)
  | _ => true

namespace Cluster

variable [ConfChangeCodec] {cs : ConfState} {cluster : Cluster}

/-- Every node of a cluster whose leaders stay is seated. -/
theorem Reachable.seated (reachable : Reachable Host.Staying cs cluster) {id : Nat} {rn : RawNode}
    (running : (cluster.hosts id).raw = some rn) : rn.raft.core.Seated := by
  refine reachable.keepsCore (P := fun _ _ c => c.Seated) ?_ ?_ ?_ ?_ ?_ id rn running
  · exact fun _ _ _ _ seated => seated
  · exact fun _ _ _ _ _ _ _ seated => ⟨seated.rostered, seated.member⟩
  · exact fun _ _ _ _ _ _ _ starts => starts.seated
  · intro _ _ inp c c' internal seated acts
    exact (Acts.staying (separate_internal internal) (seated.internal internal) acts).toSeated
  · intro _ _ op rn c _ staying _ running seated acts
    exact (Acts.staying (rn.separate op) (staying.core running seated) acts).toSeated

/-- In runs in which no leader applies its own removal, every leader has a progress of its own and
no operation fails for want of it. -/
theorem staying_leader_tracked (reachable : Reachable Host.Staying cs cluster) (id : Nat) :
    (∀ rn, (cluster.hosts id).raw = some rn → rn.raft.state = .leader →
      (rn.raft.prs.get rn.raft.id).isSome = true) ∧
    ∀ op, (cluster.hosts id).Staying op → (cluster.hosts id).step op ≠ .error .missingOwn := by
  refine ⟨fun rn running leads => ?_, fun op staying failed => ?_⟩
  · have seated := reachable.seated running
    have known := (seated.rostered.isSome_iff _).2 (seated.member leads)
    simpa [Raft.core] using known
  · rcases Host.step_error (e := .missingOwn) trivial failed with
      ⟨rn, c, raw, acts, faults⟩ | ⟨none, host', sent, rn, inp, c, phases, raw, internal, acts, faults⟩
    · have after := Acts.staying (rn.separate op) (staying.core raw (reachable.seated raw)) acts
      exact after.no_missingOwn faults
    · have before : rn.raft.core.Seated := Host.Phases.keepsCore (P := Core.Seated) none
        (fun _ _ _ _ _ seated => ⟨seated.rostered, seated.member⟩)
          (fun _ _ _ _ _ starts => starts.seated)
        (fun _ _ _ internal seated acts =>
          (Acts.staying (separate_internal internal) (seated.internal internal) acts).toSeated)
        (reachable.tidy.1 id) (fun _ raw => reachable.seated raw) phases raw
      have after := Acts.staying (separate_internal internal) (before.internal internal) acts
      exact after.no_missingOwn faults

/-- Node 1 is elected, proposes a conf change and an entry, and applies the change while the
acknowledgement of the entry is on its way. -/
def electedApplies (cc : ConfChangeV2) : List Event :=
  [.operate 1 (.restart { id := 1 } fun _ => 0), .operate 2 (.restart { id := 2 } fun _ => 0),
    .operate 1 .campaign, .operate 1 .ready, .operate 1 .flush, .operate 1 (.send 1), .operate 1 .advance,
    .deliver 0, .operate 2 .ready, .operate 2 .flush, .operate 2 (.send 1), .operate 2 .advance,
    .deliver 1, .operate 1 (.proposeConfChange [] (.inr cc)), .operate 1 (.propose [] [7]),
    .operate 1 .ready, .operate 1 .flush, .operate 1 .advance,
    .deliver 2, .operate 2 .ready, .operate 2 .flush, .operate 2 (.send 2), .operate 2 .advance,
    .deliver 3, .operate 1 .ready, .operate 1 .flush, .operate 1 .advance,
    .deliver 4, .operate 2 .ready, .operate 2 .flush, .operate 2 (.send 3), .operate 2 .advance,
    .deliver 5, .operate 2 .ready, .operate 2 .flush, .operate 2 (.send 4), .operate 2 .advance,
    .deliver 6, .operate 1 .ready, .operate 1 .flush, .operate 1 .advance,
    .operate 1 (.applyConfChange cc)]

omit [ConfChangeCodec] in
/-- A leader that has applied its own demotion keeps its progress and handles the acknowledgement of
a later entry. -/
theorem staying_leader_tracked_demoted : let _ := ConfChangeCodec.sample
    ∃ cluster rn m, Reachable Host.Staying { voters := [1, 2] } cluster ∧
      (cluster.hosts 1).raw = some rn ∧
      rn.raft.state = .leader ∧ rn.raft.prs.conf.learners.elems = [1] ∧ rn.raft.raftLog.committed = 2 ∧
      (rn.raft.prs.get rn.raft.id).isSome = true ∧ m ∈ cluster.network ∧ m.toId = 1 ∧
      m.msgType = .msgAppendResponse ∧ m.index = 3 ∧
        (cluster.hosts 1).step (.deliver m) ≠ .error .missingOwn := by
  intro _
  let cc : ConfChangeV2 := { changes := [{ changeType := .addLearnerNode, nodeId := 1 }] }
  have demotes : ∀ (host : Host) op, host.appliesOnly cc op = true → host.Staying op := by
    rintro host op passed change rfl rn - -
    obtain rfl := of_decide_eq_true passed
    simp [cc, ConfChangeV2.membershipChange, ConfChangeV2.leaveJoint, ConfChangeV2.enterJoint,
      MembershipChange.Keeps]
  have played : reaches { voters := [1, 2] } (Host.appliesOnly cc) (electedApplies cc)
      (fun cluster => (cluster.hosts 1).raw.any (fun rn => decide (rn.raft.state = .leader ∧
          rn.raft.prs.conf.learners.elems = [1] ∧ rn.raft.raftLog.committed = 2)) &&
        cluster.network[7]?.any fun m => decide (m.toId = 1 ∧ m.msgType = .msgAppendResponse ∧
          m.index = 3)) = true := by
    decide +kernel
  obtain ⟨cluster, reachable, passed⟩ : ∃ cluster, Reachable Host.Staying { voters := [1, 2] }
    cluster ∧ _ :=
    reachable_reaches demotes played
  simp only [Bool.and_eq_true, Option.any_eq_true, decide_eq_true_eq] at passed
  obtain ⟨⟨rn, running, leads, learner, committed⟩, m, found, receiver, kind, later⟩ := passed
  obtain ⟨tracked, handles⟩ := staying_leader_tracked reachable 1
  exact ⟨cluster, rn, m, reachable, running, leads, learner, committed, tracked rn running leads,
    List.mem_of_getElem? found, receiver, kind, later, handles (.deliver m) nofun⟩

omit [ConfChangeCodec] in
/-- A leader that has applied its own removal fails when the other voter acknowledges a later
entry. -/
theorem removed_leader_fails : let _ := ConfChangeCodec.sample
    ∃ cluster rn m, Reachable (fun _ _ => True) { voters := [1, 2] } cluster ∧
      (cluster.hosts 1).raw = some rn ∧
      rn.raft.state = .leader ∧ m ∈ cluster.network ∧ m.toId = 1 ∧ m.msgType = .msgAppendResponse ∧
      (cluster.hosts 1).step (.deliver m) = .error .missingOwn := by
  intro _
  let cc : ConfChangeV2 := { changes := [{ changeType := .removeNode, nodeId := 1 }] }
  have played : reaches { voters := [1, 2] } (fun _ _ => true) (electedApplies cc)
      (fun cluster => (cluster.hosts 1).raw.any (fun rn => rn.raft.state == .leader) &&
        cluster.network[7]?.any fun m => m.toId == 1 && m.msgType == .msgAppendResponse &&
          (cluster.hosts 1).fails (.deliver m) .missingOwn) = true := by
    decide +kernel
  obtain ⟨cluster, reachable, passed⟩ : ∃ cluster, Reachable (fun _ _ => True)
    { voters := [1, 2] } cluster ∧ _ :=
    reachable_reaches (fun _ _ _ => trivial) played
  simp only [Bool.and_eq_true, Option.any_eq_true, beq_iff_eq] at passed
  obtain ⟨⟨rn, running, leads⟩, m, found, ⟨receiver, kind⟩, failed⟩ := passed
  exact ⟨cluster, rn, m, reachable, running, leads, List.mem_of_getElem? found, receiver, kind,
    Host.fails_iff.1 failed⟩

end Cluster

end RaftRs

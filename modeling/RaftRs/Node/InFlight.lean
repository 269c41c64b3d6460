import RaftRs.Node.Runs
import RaftRs.Node.Forward

namespace RaftRs

open Library

/-- An entry that changes the configuration. -/
def Entry.Changes (e : Entry) : Prop := e.entryType ≠ .entryNormal

/-- The configuration changes in the log of a leader; its own entries are those after the tail. -/
structure Core.Restrained (c : Core) : Prop where
  tail : c.tail ≤ c.log.lastIndex
  own : ∀ i e, c.log.entryAt i = some e → c.tail < i → e.term = c.term
  bounded : ∀ i e, c.log.entryAt i = some e → e.Changes → c.log.applied < i → i ≤ c.pendingConfIndex
  single : ∀ i e j f, c.log.entryAt i = some e → e.Changes → c.log.applied < i → c.tail < i →
    c.log.entryAt j = some f → f.Changes → c.log.applied < j → c.tail < j → i = j
  reserved : c.log.lastIndex < c.pendingConfIndex → ∀ i e, c.log.entryAt i = some e → e.Changes →
    i ≤ c.log.applied

/-- A leader has at most one configuration change of its own in flight. -/
def Core.InFlight (c : Core) : Prop := c.state = .leader → c.Restrained

variable {inp : Input → Prop} {c c' : Core}

theorem Core.Restrained.keep (restrained : c.Restrained) (term : c'.term = c.term)
    (tail : c'.tail = c.tail) (pending : c'.pendingConfIndex = c.pendingConfIndex)
    (last : c'.log.lastIndex = c.log.lastIndex) (applied : c.log.applied ≤ c'.log.applied)
    (entryAt : ∀ i e, c'.log.entryAt i = some e → c.log.entryAt i = some e) : c'.Restrained := by
  refine ⟨?_, ?_, ?_, ?_, ?_⟩
  · rw [tail, last]
    exact restrained.tail
  · intro i e present above
    rw [term]
    exact restrained.own i e (entryAt i e present) (tail ▸ above)
  · intro i e present changes above
    rw [pending]
    exact restrained.bounded i e (entryAt i e present) changes (applied.trans_lt above)
  · intro i e j f present changes above own present' changes' above' own'
    exact restrained.single i e j f (entryAt i e present) changes (applied.trans_lt above) (tail ▸ own)
      (entryAt j f present') changes' (applied.trans_lt above') (tail ▸ own')
  · intro beyond i e present changes
    rw [last, pending] at beyond
    exact (restrained.reserved beyond i e (entryAt i e present) changes).trans applied

theorem Core.restrained_asLeader (wf : c.log.WF) : c.asLeader.Restrained := by
  have inside : ∀ i e, c.log.entryAt i = some e → i ≤ c.log.lastIndex :=
    fun i e present => (wf.bounds present).2
  refine ⟨le_rfl, ?_, ?_, ?_, ?_⟩
  · intro i e present above
    exact absurd (inside i e present) (not_le.2 above)
  · intro i e present _ _
    exact inside i e present
  · intro i e j f present _ _ above
    exact absurd (inside i e present) (not_le.2 above)
  · intro beyond
    exact absurd beyond (lt_irrefl _)

/-- A reservation while nothing is pending keeps a leader restrained. -/
theorem Core.Restrained.reserve (restrained : c.Restrained) {index : Nat}
    (free : c.pendingConfIndex ≤ c.log.applied) :
    { c with pendingConfIndex := index }.Restrained := by
  -- Nothing is pending, so every configuration change of the log is applied.
  have applied : ∀ i e, c.log.entryAt i = some e → e.Changes → i ≤ c.log.applied := by
    intro i e present changes
    by_contra above
    have := restrained.bounded i e present changes (by omega)
    omega
  refine ⟨restrained.tail, restrained.own, ?_, restrained.single, fun _ => applied⟩
  intro i e present changes above
  exact absurd (applied i e present changes) (not_le.2 above)

/-- Appended entries with at most one configuration change at the pending index keep a leader
restrained. -/
theorem Core.Restrained.grow (restrained : c.Restrained) {log : RaftLog} {first : Nat}
    {ents : List Entry} (appended : c.log.Appended log first ents) (next : first = c.log.lastIndex + 1)
    (term : ∀ e ∈ ents, e.term = c.term)
    (admitted : ∀ e ∈ ents, e.Changes → c.log.applied < e.index → e.index = c.pendingConfIndex) :
    { c with log }.Restrained := by
  have size := appended.last
  have applied : log.applied = c.log.applied := by rw [appended.rest]
  have split : ∀ i e, log.entryAt i = some e →
      (i ≤ c.log.lastIndex ∧ c.log.entryAt i = some e) ∨
        (c.log.lastIndex < i ∧ e ∈ ents ∧ e.index = i) := by
    intro i e present
    have index := appended.wf.entryAt_index present
    rw [appended.entryAt] at present
    split at present
    · exact Or.inl ⟨by omega, present⟩
    · exact Or.inr ⟨by omega, List.mem_of_getElem? present, index⟩
  have fresh : ∀ i e, e ∈ ents → e.index = i → e.Changes → c.log.applied < i →
      i = c.pendingConfIndex := by
    rintro i e member rfl changes above
    exact admitted e member changes above
  refine ⟨?_, ?_, ?_, ?_, ?_⟩
  · have := restrained.tail
    simp only
    omega
  · intro i e present above
    rcases split i e present with ⟨-, old⟩ | ⟨-, member, -⟩
    · exact restrained.own i e old above
    · exact term e member
  · intro i e present changes above
    simp only [applied] at above
    rcases split i e present with ⟨-, old⟩ | ⟨-, member, index⟩
    · exact restrained.bounded i e old changes above
    · exact (fresh i e member index changes above).le
  · intro i e j f present changes above own present' changes' above' own'
    simp only [applied] at above above'
    rcases split i e present with ⟨-, old⟩ | ⟨beyond, member, index⟩ <;>
      rcases split j f present' with ⟨-, old'⟩ | ⟨beyond', member', index'⟩
    · exact restrained.single i e j f old changes above own old' changes' above' own'
    · have pending := fresh j f member' index' changes' above'
      have := restrained.reserved (pending ▸ beyond') i e old changes
      omega
    · have pending := fresh i e member index changes above
      have := restrained.reserved (pending ▸ beyond) j f old' changes'
      omega
    · rw [fresh i e member index changes above, fresh j f member' index' changes' above']
  · intro beyond i e present changes
    simp only at beyond
    simp only [applied]
    rcases split i e present with ⟨-, old⟩ | ⟨-, member, index⟩
    · exact restrained.reserved (by omega) i e old changes
    · by_contra above
      have pending := fresh i e member index changes (by omega)
      have bounds := appended.wf.bounds present
      omega

/-- The entries of a leader carry its term. -/
theorem term_assignPositions {term lastIndex : Nat} {es : List Entry} {e : Entry}
    (member : e ∈ Raft.assignPositions term lastIndex es) : e.term = term := by
  obtain ⟨k, present⟩ := List.getElem?_of_mem member
  rw [Raft.getElem?_assignPositions] at present
  obtain ⟨e', -, rfl⟩ := Option.map_eq_some_iff.1 present
  rfl

/-- A leader that appends admitted entries stays restrained. -/
theorem Core.Restrained.assign (restrained : c.Restrained) (wf : c.log.WF) {es : List Entry}
    {log : RaftLog}
    (admitted : ∀ e ∈ Raft.assignPositions c.term c.log.lastIndex es, e.Changes →
      c.log.applied < e.index → e.index = c.pendingConfIndex)
    (done : c.log.append (Raft.assignPositions c.term c.log.lastIndex es) = .ok log) :
    { c with log }.Restrained := by
  by_cases empty : Raft.assignPositions c.term c.log.lastIndex es = []
  · rw [empty] at done
    obtain rfl := Except.ok.inj done
    exact restrained
  · have appended := wf.append empty (contiguous_assignPositions _ _ _) done
    exact restrained.grow appended rfl (fun e => term_assignPositions) admitted

/-- A leader that leaves a joint configuration stays restrained. -/
theorem Core.Restrained.leave (restrained : c.Restrained) (wf : c.log.WF)
    (free : c.pendingConfIndex ≤ c.log.applied) {e : Entry} {log : RaftLog}
    (done : c.log.append (Raft.assignPositions c.term c.log.lastIndex [e]) = .ok log) :
    { c with log, pendingConfIndex := log.lastIndex }.Restrained := by
  have appended := wf.append (by simp [Raft.assignPositions]) (contiguous_assignPositions _ _ _) done
  have last := appended.last
  have reserved : { c with pendingConfIndex := log.lastIndex }.Restrained := restrained.reserve free
  refine reserved.assign wf ?_ done
  intro e' member _ _
  rw [List.mem_singleton.1 member]
  simp [Raft.assignPositions] at last ⊢
  omega

/-- Every atomic change keeps at most one own configuration change in flight. -/
theorem Act.inFlight (wf : c.log.WF) (inFlight : c.InFlight) (act : Act inp c c') : c'.InFlight := by
  -- Only a leader is restrained, and only some changes touch its log.
  have same : c.state = .leader → ∀ c' : Core, c'.term = c.term → c'.tail = c.tail →
      c'.pendingConfIndex = c.pendingConfIndex → c'.log = c.log → c'.Restrained := by
    intro leads c' term tail pending log
    exact (inFlight leads).keep term tail pending (by rw [log]) (by rw [log])
      (by rw [log]; exact fun _ _ => id)
  have marked : c.state = .leader → ∀ c' : Core, c'.term = c.term → c'.tail = c.tail →
      c'.pendingConfIndex = c.pendingConfIndex → c.log.Marks c'.log → c.log.Forward c'.log →
        c'.Restrained := by
    intro leads c' term tail pending marks forward
    exact (inFlight leads).keep term tail pending marks.lastIndex forward.applied fun i e => by
      rw [marks.entryAt]
      exact id
  intro leads
  cases act with
  | bump stepped later => cases leads
  | stepDown => cases leads
  | campaign role => cases leads
  | preCampaign role => cases leads
  | lead may role won settled => exact Core.restrained_asLeader wf
  | reserve role free beyond => exact (inFlight role).reserve free
  | grow role admitted done => exact (inFlight role).assign wf admitted done
  | leave role free done => exact (inFlight role).leave wf free done
  | accept stepped kind heard role => cases role.symm.trans leads
  | heartbeat stepped kind heard role => cases role.symm.trans leads
  | restore stepped kind heard role => cases role.symm.trans leads
  | fastForward stepped kind heard role => cases role.symm.trans leads
  | commitByVote stepped kind role => exact absurd leads role
  | commitByRead stepped kind heard role => cases role.symm.trans leads
  | commitByQuorum role acked done =>
      exact marked leads _ rfl rfl rfl (RaftLog.marks_maybeCommit done)
        (RaftLog.forward_maybeCommit done)
  | persist reported done =>
      rw [Core.countOwn_rest] at leads ⊢
      exact marked leads _ rfl rfl rfl (RaftLog.marks_maybePersist done)
        (RaftLog.forward_maybePersist done)
  | persistSnap reported done =>
      exact marked leads _ rfl rfl rfl (RaftLog.marks_maybePersistSnap done)
        (RaftLog.forward_maybePersistSnap done)
  | apply given done =>
      exact marked leads _ rfl rfl rfl (RaftLog.marks_appliedTo done) (RaftLog.forward_appliedTo done)
  | trigger => exact (inFlight leads).keep rfl rfl rfl rfl le_rfl fun _ _ => id
  | limit set => exact (inFlight leads).keep rfl rfl rfl rfl le_rfl fun _ _ => id
  | @confirm ctx status readOnly confirmed role pending acked done =>
      obtain ⟨_, _, rest⟩ := Core.responds_rest { c with readOnly } confirmed
      rw [rest]
      exact same role _ rfl rfl rfl rfl
  | @respondNow m stepped kind role immediate =>
      obtain ⟨_, _, rest⟩ := c.respond_rest m c.log.committed
      rw [rest]
      exact same role _ rfl rfl rfl rfl
  | _ => exact same leads _ rfl rfl rfl rfl

/-- A sequence of atomic changes keeps at most one own configuration change in flight. -/
theorem Acts.inFlight (heard : ∀ m, inp (.message m) → m.Tidy) (tidy : c.Tidy) (inFlight : c.InFlight)
    (acts : Acts inp c c') : c'.InFlight := by
  induction acts with
  | refl => exact inFlight
  | tail before act ih => exact act.inFlight (Acts.tidy heard tidy before).log.wf ih

namespace Host

variable {permitted : Config → Prop} {host host' : Host} {sent : List Message}

/-- The node of a machine has at most one own configuration change in flight. -/
def InFlight (host : Host) : Prop := ∀ rn, host.raw = some rn → rn.raft.core.InFlight

/-- Every phase keeps at most one own configuration change in flight. -/
theorem Phase.inFlight (heard : ∀ m, inp (.message m) → m.Tidy) (tidy : host.Tidy)
    (inFlight : host.InFlight) (phase : Phase inp permitted host host' sent) : host'.InFlight := by
  intro _ running
  refine phase.keepsNode ?_ ?_ ?_ ?_ tidy inFlight running
  · intro c log msgs readStates _ inFlight shrinks leads
    exact (inFlight leads).keep rfl rfl rfl shrinks.last shrinks.applied.ge shrinks.entryAt
  · intro config rn _ starts leads
    rw [starts.core] at leads
    cases leads
  · intro rn c _ tidy inFlight acts
    have heard : ∀ m, rn.inputs inp (.message m) → m.Tidy := heard
    exact Acts.inFlight heard tidy inFlight acts
  · intro rn c _ _ _ _ tidy inFlight acts
    exact Acts.inFlight nofun tidy inFlight acts

end Host

namespace Cluster

variable [ConfChangeCodec] {allowed : Host → HostOp → Prop} {cs : ConfState} {cluster : Cluster}

/-- Every leader of a reachable cluster is restrained. -/
theorem Reachable.inFlight (reachable : Reachable allowed cs cluster) (id : Nat) :
    (cluster.hosts id).InFlight := by
  have all := reachable.keeps (P := fun _ host => host.Tidy ∧ host.InFlight) (Q := Message.Tidy) ?_ ?_ ?_
  · exact (all.1 id).2
  · intro id
    exact ⟨Host.tidy_fresh id cs, fun rn running => by cases running⟩
  · rintro m ⟨kind | kind | kind, -⟩ <;> exact Message.tidy_of_kind (by simp [kind]) (by simp [kind])
  · intro op _ heard _ host host' sent kept phase
    obtain ⟨tidy, sent⟩ := phase.tidy heard kept.1
    exact ⟨⟨tidy, phase.inFlight heard kept.1 kept.2⟩, sent⟩

/-- A leader has every unapplied configuration change below its pending index and at most one of its
own. -/
theorem leader_change_in_flight (reachable : Reachable allowed cs cluster) {id : Nat} {rn : RawNode}
    (running : (cluster.hosts id).raw = some rn) (leads : rn.raft.state = .leader) :
    let log := rn.raft.raftLog
    let tail := rn.raft.uncommittedState.lastLogTailIndex
    (∀ i e, log.entryAt i = some e → e.Changes → log.applied < i → i ≤ rn.raft.pendingConfIndex) ∧
      (∀ i e, log.entryAt i = some e → tail < i → e.term = rn.raft.term) ∧
      ∀ i e j f, log.entryAt i = some e → e.Changes → log.applied < i → tail < i →
        log.entryAt j = some f → f.Changes → log.applied < j → tail < j → i = j := by
  have restrained := reachable.inFlight id rn running leads
  exact ⟨restrained.bounded, restrained.own, restrained.single⟩

omit [ConfChangeCodec] in
/-- A leader that has proposed the addition of a node refuses a second addition until the first one
is applied. -/
theorem leader_change_in_flight_refused : let _ := ConfChangeCodec.sample
    ∃ cluster rn, Reachable (fun _ _ => True) { voters := [1] } cluster ∧
      (cluster.hosts 1).raw = some rn ∧
      rn.raft.state = .leader ∧ rn.raft.raftLog.applied = 0 ∧ rn.raft.pendingConfIndex = 2 ∧
      (rn.raft.raftLog.entryAt 2).map Entry.data = some [18, 2, 16, 2] ∧
      (rn.raft.raftLog.entryAt 3).map Entry.data = some [] ∧
      (∀ i e, rn.raft.raftLog.entryAt i = some e → e.Changes → 0 < i → i ≤ 2) ∧
      ∀ i e, rn.raft.raftLog.entryAt i = some e → e.Changes → 0 < i → i = 2 := by
  intro _
  have played : ends { voters := [1] }
      [.operate 1 (.restart { id := 1 } fun _ => 0), .operate 1 .campaign,
        .operate 1 (.proposeConfChange [] (.inr { changes := [{ nodeId := 2 }] })),
        .operate 1 (.proposeConfChange [] (.inr { changes := [{ nodeId := 3 }] }))] 1
      (fun rn => decide (rn.raft.state = .leader ∧ rn.raft.raftLog.applied = 0 ∧
        rn.raft.pendingConfIndex = 2 ∧ rn.raft.uncommittedState.lastLogTailIndex = 0 ∧
        (rn.raft.raftLog.entryAt 2).map (fun e => (e.entryType, e.data)) =
          some (.entryConfChangeV2, [18, 2, 16, 2]) ∧
        (rn.raft.raftLog.entryAt 3).map Entry.data = some [])) = true := by
    decide +kernel
  obtain ⟨cluster, rn, reachable, running, passed⟩ : ∃ cluster rn, Reachable (fun _ _ => True)
    { voters := [1] } cluster ∧
      (cluster.hosts 1).raw = some rn ∧ _ := reachable_ends (by simp [Event.Allowed]) played
  obtain ⟨leads, applied, pending, tail, second, third⟩ := of_decide_eq_true passed
  obtain ⟨change, present, content⟩ := Option.map_eq_some_iff.1 second
  obtain ⟨kind, data⟩ := Prod.mk.inj content
  have changes : change.Changes := by simp [Entry.Changes, kind]
  obtain ⟨bounded, -, single⟩ := leader_change_in_flight reachable running leads
  rw [applied, pending] at bounded
  rw [applied, tail] at single
  refine ⟨cluster, rn, reachable, running, leads, applied, pending, by rw [present, ← data]; rfl,
    third, bounded, ?_⟩
  intro i e inside changed positive
  exact single i e 2 change inside changed positive positive present changes (by decide) (by decide)

end Cluster

end RaftRs

import RaftRs.Act.Turn
import RaftRs.Log.Page
import RaftRs.Model.Play
import RaftRs.Node.Marked
import RaftRs.Track.Drive

namespace RaftRs

open Library

/-- A log keeps or forgets what it shows up to its old end. -/
structure RaftLog.Carries (log log' : RaftLog) : Prop where
  last : log.lastIndex ≤ log'.lastIndex
  entryAt : ∀ i e, i ≤ log.lastIndex → log'.entryAt i = some e → log.entryAt i = some e
  boundary : ∀ t, log'.boundaryTerm = some t → log'.firstIndex = log.firstIndex ∧
    log.boundaryTerm = some t

/-- An append message continues the log of its sender at its index and holds what the log still
shows. -/
structure Message.Formed (m : Message) (log : RaftLog) : Prop where
  reach : m.index + m.entries.length ≤ log.lastIndex
  contiguous : Contiguous (m.index + 1) m.entries
  entryAt : ∀ e ∈ m.entries, ∀ e', log.entryAt e.index = some e' → e' = e
  term : ∀ e, log.entryAt m.index = some e → e.term = m.logTerm
  boundary : m.index + 1 = log.firstIndex → ∀ t, log.boundaryTerm = some t → t = m.logTerm

/-- The positions of a node lie inside of a log. -/
structure Position.Within (pos : Position) (last : Nat) : Prop where
  matched : pos.matched ≤ last
  next : pos.nextIdx ≤ last + 1
  snapshot : pos.pendingSnapshot ≤ last
  request : pos.pendingRequestSnapshot ≤ last

namespace RaftLog

variable {log log' : RaftLog}

theorem Carries.of_eq (same : log' = log) : log.Carries log' := by
  subst same
  exact ⟨le_rfl, fun _ _ _ present => present, fun _ known => ⟨rfl, known⟩⟩

theorem Shrinks.carries (shrinks : log.Shrinks log') : log.Carries log' :=
  ⟨shrinks.last.ge, fun i e _ => shrinks.entryAt i e, shrinks.boundary⟩

theorem Marks.carries (marks : log.Marks log') : log.Carries log' := by
  refine ⟨marks.lastIndex.ge, fun i e _ present => (marks.entryAt i).symm.trans present,
    fun t known => ?_⟩
  refine ⟨marks.firstIndex, ?_⟩
  rwa [boundaryTerm, marks.store, marks.unstable] at known

/-- New entries at the end of a log leave the old ones alone. -/
theorem WF.append_carries (wf : log.WF) {ents : List Entry}
    (contiguous : Contiguous (log.lastIndex + 1) ents) (done : log.append ents = .ok log') :
    log.Carries log' := by
  by_cases empty : ents = []
  · subst empty
    exact .of_eq (Except.ok.inj done).symm
  · have appended := wf.append empty contiguous done
    have last := appended.last
    refine ⟨by omega, fun i e below present => ?_,
      fun t known => ⟨appended.firstIndex, appended.boundary ▸ known⟩⟩
    rwa [appended.entryAt, if_pos (by omega)] at present

/-- The entries that are read from an index stand in the log and end inside of it. -/
theorem WF.entries_reach (wf : log.WF) {idx : Nat} {maxSize : Option Nat} {context : GetEntriesFor}
    {ents : List Entry} (done : log.entries idx maxSize context = .ok (.ok ents))
    (within : idx ≤ log.lastIndex + 1) :
    1 ≤ idx ∧ idx + ents.length ≤ log.lastIndex + 1 := by
  have positive := wf.first_pos
  rcases wf.entries_cases idx maxSize context with ⟨beyond, read⟩ | ⟨e, -, read⟩ | ⟨first, inside, read⟩
  · obtain rfl := Except.ok.inj (Except.ok.inj (done.symm.trans read))
    simp only [List.length_nil]
    omega
  · cases Except.ok.inj (done.symm.trans read)
  · refine ⟨by omega, ?_⟩
    cases size : ents.length with
    | zero => omega
    | succ k =>
        obtain ⟨e, present⟩ : ∃ e, ents[k]? = some e := ⟨_, List.getElem?_eq_getElem (by omega)⟩
        have := (wf.bounds ((wf.entries done).1 k e present)).2
        omega

end RaftLog

theorem Message.Formed.carry {m : Message} {log log' : RaftLog} (formed : m.Formed log)
    (carries : log.Carries log') :
    m.Formed log' where
  reach := formed.reach.trans carries.last
  contiguous := formed.contiguous
  entryAt e member e' present := by
    obtain ⟨k, found⟩ := List.getElem?_of_mem member
    have index := formed.contiguous k e found
    have inside : k < m.entries.length := (List.getElem?_eq_some_iff.1 found).1
    have reach := formed.reach
    exact formed.entryAt e member e' (carries.entryAt _ _ (by omega) present)
  term e present := formed.term e (carries.entryAt _ _ (Nat.le_of_add_right_le formed.reach) present)
  boundary first t known := by
    obtain ⟨same, known⟩ := carries.boundary t known
    exact formed.boundary (first.trans same) t known

namespace Position.Within

variable {pos : Position} {last : Nat}

theorem mono (within : pos.Within last) {later : Nat} (le : last ≤ later) : pos.Within later :=
  ⟨within.matched.trans le, within.next.trans (Nat.succ_le_succ le), within.snapshot.trans le,
    within.request.trans le⟩

theorem raise (within : pos.Within last) {index : Nat} (inside : index ≤ last) :
    (pos.raise index).Within last :=
  ⟨max_le within.matched inside, max_le within.next (Nat.succ_le_succ inside), within.snapshot,
    within.request⟩

end Position.Within

/-- A node that does not batch: the appends in its queue are older or well formed, and a leader
tracks only positions of its log. -/
structure Core.Forms (c : Core) : Prop where
  plain : c.batchAppend = false
  past : ∀ m ∈ c.msgs, m.msgType = .msgAppend → m.term ≤ c.term ∧
    (c.state = .candidate → m.term < c.term)
  formed : c.state = .leader → ∀ m ∈ c.msgs, m.msgType = .msgAppend → m.term = c.term → m.Formed c.log
  within : c.state = .leader → ∀ id pos, c.positions id = some pos → pos.Within c.log.lastIndex

/-- The append responses of a call acknowledge and ask for nothing behind the log of a leader. -/
def Core.Answered (inp : Input → Prop) (c : Core) : Prop :=
  c.state = .leader → ∀ m, inp (.message m) → m.msgType = .msgAppendResponse →
    (m.reject = false → m.index ≤ c.log.lastIndex) ∧ m.requestSnapshot ≤ c.log.lastIndex

variable {inp : Input → Prop} {c c' : Core} {m : Message}

/-- A leader queues a well formed append. -/
theorem Sends.formed (wf : c.log.WF) (within : c.state = .leader → ∀ id pos, c.positions id = some pos →
    pos.Within c.log.lastIndex) (sends : Sends inp c m) (kind : m.msgType = .msgAppend) :
    c.state = .leader ∧ m.term = c.term ∧ m.Formed c.log := by
  cases sends with
  | voteReject stepped other nonzero info =>
      rcases other with other | other <;> simp [Raft.voteRespMsgType, other] at kind
  | forward stepped role other =>
      rcases other with ⟨other, -⟩ | ⟨other, -⟩ | ⟨other, -⟩ <;> simp [other] at kind
  | @append toId logTerm pos ents maxSize context role other known term read =>
      have next := (within role toId pos known).next
      obtain ⟨positive, reach⟩ := wf.entries_reach read next
      have index : pos.nextIdx - 1 + 1 = pos.nextIdx := by omega
      refine ⟨role, rfl, ?_, ?_, ?_, ?_, ?_⟩
      · simp only
        omega
      · show Contiguous (pos.nextIdx - 1 + 1) ents
        rw [index]
        exact wf.entries_contiguous read
      · intro e member e' present
        obtain ⟨k, found⟩ := List.getElem?_of_mem member
        have shown := (wf.entries read).1 k e found
        rw [wf.entryAt_index shown] at present
        exact Option.some.inj (present.symm.trans shown)
      · intro e present
        exact Except.ok.inj ((wf.term_of_entryAt present).symm.trans term)
      · intro first t known
        have shown := wf.term_boundary first
        rw [known] at shown
        exact Except.ok.inj (shown.symm.trans term)
  | _ => cases kind

/-- A leader that stays one keeps its term and what its log shows. -/
theorem Act.carries (wf : c.log.WF) (act : Act inp c c') (leads : c.state = .leader)
    (leads' : c'.state = .leader) :
    c'.term = c.term ∧ c.log.Carries c'.log := by
  have same : c.log.Carries c.log := .of_eq rfl
  cases act with
  | bump stepped later => cases leads'
  | stepDown => cases leads'
  | campaign role => cases leads'
  | preCampaign role => cases leads'
  | lead may role => cases role.symm.trans leads
  | grow role admitted done => exact ⟨rfl, wf.append_carries (contiguous_assignPositions _ _ _) done⟩
  | leave role free done => exact ⟨rfl, wf.append_carries (contiguous_assignPositions _ _ _) done⟩
  | accept stepped kind heard role => cases role.symm.trans leads
  | heartbeat stepped kind heard role => cases role.symm.trans leads
  | restore stepped kind heard role => cases role.symm.trans leads
  | fastForward stepped kind heard role => cases role.symm.trans leads
  | commitByVote stepped kind role => exact absurd leads role
  | commitByRead stepped kind heard role => cases role.symm.trans leads
  | commitByQuorum role acked done => exact ⟨rfl, (RaftLog.marks_maybeCommit done).carries⟩
  | persist reported done =>
      rw [Core.countOwn_rest]
      exact ⟨rfl, (RaftLog.marks_maybePersist done).carries⟩
  | persistSnap reported done => exact ⟨rfl, (RaftLog.marks_maybePersistSnap done).carries⟩
  | apply given done => exact ⟨rfl, (RaftLog.marks_appliedTo done).carries⟩
  | trigger => exact ⟨rfl, le_rfl, fun _ _ _ present => present, fun _ known => ⟨rfl, known⟩⟩
  | limit set => exact ⟨rfl, le_rfl, fun _ _ _ present => present, fun _ known => ⟨rfl, known⟩⟩
  | @confirm ctx status readOnly confirmed role pending acked done =>
      obtain ⟨_, _, rest⟩ := Core.responds_rest { c with readOnly } confirmed
      rw [rest]
      exact ⟨rfl, same⟩
  | @respondNow req stepped kind role immediate =>
      obtain ⟨_, _, rest⟩ := c.respond_rest req c.log.committed
      rw [rest]
      exact ⟨rfl, same⟩
  | _ => exact ⟨rfl, same⟩

/-- A leader led before or has just won its election with a persisted log. -/
theorem Act.leader_cases (act : Act inp c c') (leads : c'.state = .leader) :
    c.state = .leader ∨
      (inp .election ∧ c.state = .candidate ∧ c' = c.asLeader ∧ c.log.lastIndex = c.log.persisted) := by
  cases act with
  | bump stepped later => cases leads
  | stepDown => cases leads
  | campaign may role cause => cases leads
  | preCampaign may role eligible => cases leads
  | lead may role won settled known => exact .inr ⟨may, role, rfl, settled⟩
  | persist reported done =>
      rw [Core.countOwn_rest] at leads
      exact .inl leads
  | confirm role pending acked done => exact .inl role
  | respondNow stepped kind role immediate => exact .inl role
  | _ => exact .inl leads

theorem Act.batching_cases (act : Act inp c c') :
    c'.batchAppend = c.batchAppend ∨ inp (.batching c'.batchAppend) := by
  cases act with
  | batching set => exact .inr set
  | persist reported done =>
      rw [Core.countOwn_rest]
      exact .inl rfl
  | @confirm ctx status readOnly confirmed role pending acked done =>
      obtain ⟨_, _, rest⟩ := Core.responds_rest { c with readOnly } confirmed
      rw [rest]
      exact .inl rfl
  | @respondNow req stepped kind role immediate =>
      obtain ⟨_, _, rest⟩ := c.respond_rest req c.log.committed
      rw [rest]
      exact .inl rfl
  | _ => exact .inl rfl

/-- An atomic change of a node that does not batch queues only well formed appends of its term. -/
theorem Act.emits_formed (wf : c.log.WF) (forms : c.Forms) (act : Act inp c c') (inside : m ∈ c'.msgs)
    (kind : m.msgType = .msgAppend) :
    m ∈ c.msgs ∨ (c.state = .leader ∧ m.term = c.term ∧ c'.term = c.term ∧ m.Formed c.log) := by
  rcases act.emits inside with old | new
  · exact .inl old
  · cases new with
    | sends sends same =>
        obtain ⟨leads, term, formed⟩ := sends.formed wf forms.within kind
        exact .inr ⟨leads, term, same.1, formed⟩
    | batched role queued other same enabled => cases forms.plain.symm.trans enabled
    | _ => cases kind

/-- The appends in the queue of a node stay older than its candidacy. -/
theorem Act.forms_past (wf : c.log.WF) (forms : c.Forms) (act : Act inp c c') (inside : m ∈ c'.msgs)
    (kind : m.msgType = .msgAppend) : m.term ≤ c'.term ∧ (c'.state = .candidate → m.term < c'.term) := by
  have forward := act.forward.term
  rcases act.emits_formed wf forms inside kind with old | ⟨leads, term, same, -⟩
  · obtain ⟨before, candidate⟩ := forms.past m old kind
    refine ⟨before.trans forward, fun runs => ?_⟩
    rcases act.candidate_cases runs with ⟨ran, same⟩ | next
    · rw [same]
      exact candidate ran
    · omega
  · refine ⟨by omega, fun runs => ?_⟩
    rcases act.candidate_cases runs with ⟨ran, -⟩ | next
    · cases leads.symm.trans ran
    · omega

/-- The appends of a leader stay well formed. -/
theorem Act.forms_formed (wf : c.log.WF) (forms : c.Forms) (act : Act inp c c')
    (leads : c'.state = .leader) (inside : m ∈ c'.msgs) (kind : m.msgType = .msgAppend)
    (current : m.term = c'.term) : m.Formed c'.log := by
  rcases act.leader_cases leads with led | ⟨-, ran, rfl, -⟩
  · obtain ⟨term, carries⟩ := act.carries wf led leads
    rcases act.emits_formed wf forms inside kind with old | ⟨-, -, -, formed⟩
    · exact (forms.formed led m old kind (current.trans term)).carry carries
    · exact formed.carry carries
  · -- The queue of a candidate holds only appends of earlier terms.
    have older : m.term < c.term := (forms.past m inside kind).2 ran
    exact absurd current older.ne

/-- Moved positions stay inside of the log. -/
theorem Moves.within {pos pos' : Position} (moves : Moves inp c pos pos')
    (within : pos.Within c.log.lastIndex) (answered : c.Answered inp) (leads : c.state = .leader) :
    pos'.Within c.log.lastIndex := by
  obtain ⟨matched, next, snapshot, request⟩ := within
  refine ⟨moves.matched ▸ matched, ?_, ?_, ?_⟩
  · have := moves.next
    omega
  · rcases moves.snapshot with same | zero <;> omega
  · rcases moves.request with same | zero | ⟨m, stepped, kind, same⟩
    · omega
    · omega
    · rw [same]
      exact (answered leads m stepped kind).2

/-- A new leader tracks positions of its log. -/
theorem Core.within_asLeader (settled : c.log.lastIndex = c.log.persisted) {id : Nat} {pos : Position}
    (known : c.asLeader.positions id = some pos) : pos.Within c.log.lastIndex := by
  simp only [asLeader, Function.update_apply] at known
  split_ifs at known with own
  · obtain rfl := Option.some.inj known
    exact ⟨settled.ge, by simp only; omega, Nat.zero_le _, Nat.zero_le _⟩
  · obtain ⟨old, -, rfl⟩ := Option.map_eq_some_iff.1 known
    simp only [if_neg own]
    exact ⟨Nat.zero_le _, le_rfl, Nat.zero_le _, Nat.zero_le _⟩

/-- Replaced positions of one node leave the others inside of the log. -/
theorem Core.within_at {last toId id : Nat} {pos pos' : Position}
    (within : ∀ id pos, c.positions id = some pos → pos.Within last) (new : pos'.Within last)
    (known : (c.at' toId pos').positions id = some pos) : pos.Within last := by
  simp only [at', Function.update_apply] at known
  split_ifs at known
  · obtain rfl := Option.some.inj known
    exact new
  · exact within id pos known

/-- The count of its own entries leaves the positions of a leader inside of the log. -/
theorem Core.within_countOwn {last index id : Nat} {pos : Position}
    (within : ∀ id pos, c.positions id = some pos → pos.Within last) (inside : index ≤ last)
    (known : (c.countOwn index).positions id = some pos) : pos.Within last := by
  unfold countOwn at known
  split at known
  · split at known
    next own found => exact within_at within ((within c.id own found).raise inside) known
    next => exact within id pos known
  · exact within id pos known

/-- A leader keeps tracking positions of its log. -/
theorem Act.forms_within (wf : c.log.WF)
    (stored : c.log.store.raftState.hardState.commit ≤ c.log.committed) (forms : c.Forms)
    (answered : c.Answered inp) (act : Act inp c c') (leads : c'.state = .leader) {id : Nat}
    {pos : Position} (known : c'.positions id = some pos) : pos.Within c'.log.lastIndex := by
  rcases act.leader_cases leads with led | ⟨-, -, rfl, settled⟩
  swap
  · exact Core.within_asLeader settled known
  have carries := (act.carries wf led leads).2
  have within := forms.within led
  cases act with
  | bump stepped later => cases leads
  | stepDown => cases leads
  | campaign may role cause => cases leads
  | lead may role won settled => exact Core.within_asLeader settled known
  | restore stepped kind heard role => cases role.symm.trans led
  | @acknowledge m pos stepped kind accepted heard role found =>
      exact Core.within_at within
        ((within _ _ found).raise ((answered led m stepped kind).1 accepted)) known
  | move found moves => exact Core.within_at within (moves.within (within _ _ found) answered led) known
  | @sent toId pos ents last maxSize context found read ends =>
      obtain ⟨matched, next, snapshot, request⟩ := within _ _ found
      obtain ⟨positive, reach⟩ := wf.entries_reach read next
      have index := (wf.entries_contiguous read).last ends
      have new : Position.Within { pos with nextIdx := last.index + 1 } c.log.lastIndex :=
        ⟨matched, by simp only; omega, snapshot, request⟩
      exact Core.within_at within new known
  | @sendSnapshot toId pos s role other found taken nonempty =>
      obtain ⟨matched, next, snapshot, request⟩ := within _ _ found
      have index := wf.snapshot_index stored taken
      have new : Position.Within { pos with pendingSnapshot := s.metadata.index } c.log.lastIndex :=
        ⟨matched, next, by simp only; omega, request⟩
      exact Core.within_at (c := c.push _) within new known
  | @persist index term log reported done =>
      have below := (wf.maybePersist_below done).1
      have last := wf.last
      rw [Core.countOwn_rest] at carries ⊢
      refine Core.within_countOwn (c := { c with log })
        (fun id pos known => (within id pos known).mono carries.last) ?_ known
      exact le_trans (by omega) carries.last
  | reconfigure changed current kept tracked =>
      rcases tracked id pos known with old | rfl
      · exact within id pos old
      · exact ⟨Nat.zero_le _, Nat.le_succ _, Nat.zero_le _, Nat.zero_le _⟩
  | @confirm ctx status readOnly confirmed role pending acked done =>
      obtain ⟨_, _, rest⟩ := Core.responds_rest { c with readOnly } confirmed
      rw [rest] at known ⊢
      exact within id pos known
  | @respondNow req stepped kind role immediate =>
      obtain ⟨_, _, rest⟩ := c.respond_rest req c.log.committed
      rw [rest] at known ⊢
      exact within id pos known
  | _ => exact (within id pos known).mono carries.last

/-- The answers stay inside of the log of a leader unless it has just won an election. -/
theorem Act.answered {given : Input → Prop} (wf : c.log.WF)
    (apart : ∀ m, given (.message m) → m.msgType = .msgAppendResponse → ¬ inp .election)
    (answered : c.Answered given) (act : Act inp c c') : c'.Answered given := by
  intro leads m stepped kind
  rcases act.leader_cases leads with led | ⟨may, -⟩
  · have last := (act.carries wf led leads).2.last
    obtain ⟨acked, asked⟩ := answered led m stepped kind
    exact ⟨fun accepted => (acked accepted).trans last, asked.trans last⟩
  · exact absurd may (apart m stepped kind)

/-- The answers stay inside of the log of a leader through a call without an election. -/
theorem Acts.answered {given : Input → Prop} (heard : ∀ m, inp (.message m) → m.Tidy) (tidy : c.Tidy)
    (apart : ∀ m, given (.message m) → m.msgType = .msgAppendResponse → ¬ inp .election)
    (answered : c.Answered given) (acts : Acts inp c c') : c'.Answered given := by
  induction acts with
  | refl => exact answered
  | tail before act ih => exact act.answered (Acts.tidy heard tidy before).log.wf apart ih

/-- Every atomic change of a node that does not batch keeps its appends well formed. -/
theorem Act.forms (wf : c.log.WF) (stored : c.log.store.raftState.hardState.commit ≤ c.log.committed)
    (plain : ∀ enabled, inp (.batching enabled) → enabled = false) (answered : c.Answered inp)
    (forms : c.Forms) (act : Act inp c c') : c'.Forms where
  plain := by
    rcases act.batching_cases with same | set
    · exact same.trans forms.plain
    · exact plain _ set
  past _ inside kind := act.forms_past wf forms inside kind
  formed leads _ inside kind current := act.forms_formed wf forms leads inside kind current
  within leads _ _ known := act.forms_within wf stored forms answered leads known

/-- A sequence of atomic changes of a node that does not batch keeps its appends well formed. -/
theorem Acts.forms (heard : ∀ m, inp (.message m) → m.Tidy)
    (apart : ∀ m, inp (.message m) → m.msgType = .msgAppendResponse → ¬ inp .election)
    (plain : ∀ enabled, inp (.batching enabled) → enabled = false) (tidy : c.Tidy)
    (stored : c.log.store.raftState.hardState.commit ≤ c.log.committed) (answered : c.Answered inp)
    (forms : c.Forms) (acts : Acts inp c c') : c'.Forms := by
  induction acts with
  | refl => exact forms
  | tail before act ih =>
      have wf := (Acts.tidy heard tidy before).log.wf
      exact act.forms wf (Acts.stored_le stored before) plain
        (Acts.answered heard tidy apart answered before) ih

/-- An operation that does not turn batching on. -/
def HostOp.Plain : HostOp → Prop
  | .setBatchAppend batchAppend => batchAppend = false
  | .restart config _ => config.batchAppend = false
  | _ => True

namespace Host

/-- An append response that is delivered to a leader acknowledges and asks for nothing behind its
log. -/
def Answers (host : Host) : HostOp → Prop
  | .deliver m => ∀ rn ∈ host.raw, rn.raft.state = .leader → m.msgType = .msgAppendResponse →
      (m.reject = false → m.index ≤ rn.raft.raftLog.lastIndex) ∧
        m.requestSnapshot ≤ rn.raft.raftLog.lastIndex
  | _ => True

/-- The check of an answer that is delivered to a leader. -/
def answers (host : Host) : HostOp → Bool
  | .deliver m => host.raw.all fun rn => rn.raft.state != .leader || m.msgType != .msgAppendResponse ||
      (m.reject || m.index ≤ rn.raft.raftLog.lastIndex) && m.requestSnapshot ≤ rn.raft.raftLog.lastIndex
  | _ => true

instance Answers.decidable (host : Host) (op : HostOp) : Decidable (host.Answers op) :=
  decidable_of_bool (host.answers op) <| by
    cases op with
    | deliver m =>
        cases raw : host.raw with
        | none => simp [answers, Answers, raw]
        | some rn =>
            simp only [answers, Answers, raw, Option.all_some, Option.mem_some_iff, forall_eq',
              Bool.or_eq_true, Bool.and_eq_true, bne_iff_ne, decide_eq_true_eq]
            cases m.reject <;> grind
    | _ => simp [answers, Answers]

/-- The node of a machine queues well formed appends. -/
structure Forms (host : Host) : Prop where
  tidy : host.Tidy
  marked : host.Marked
  running : ∀ rn, host.raw = some rn → rn.raft.core.Forms

variable {permitted : Config → Prop} {start host host' : Host} {sent : List Message}

/-- Every phase of a machine that does not batch keeps the appends of its node well formed. -/
theorem Phase.forms (heard : ∀ m, inp (.message m) → m.Tidy)
    (apart : ∀ m, inp (.message m) → m.msgType = .msgAppendResponse → ¬ inp .election)
    (plain : ∀ enabled, inp (.batching enabled) → enabled = false)
    (permits : ∀ config, permitted config → config.batchAppend = false) (tidy : host.Tidy)
    (marked : host.Marked)
    (forms : ∀ rn, host.raw = some rn → rn.raft.core.Forms ∧ rn.raft.core.Answered inp)
    (phase : Phase inp permitted host host' sent) {rn' : RawNode} (running : host'.raw = some rn') :
    rn'.raft.core.Forms ∧ rn'.raft.core.Answered inp := by
  refine phase.keepsNode (P := fun c => c.Forms ∧ c.Answered inp) ?_ ?_ ?_ ?_ tidy forms running
  · rintro c log msgs readStates fewer ⟨forms, answered⟩ shrinks
    have last : log.lastIndex = c.log.lastIndex := shrinks.last
    refine ⟨⟨forms.plain, fun m inside => forms.past m (fewer inside),
      fun leads m inside kind current => ?_, ?_⟩, ?_⟩
    · exact (forms.formed leads m (fewer inside) kind current).carry shrinks.carries
    · intro leads id pos known
      show pos.Within log.lastIndex
      rw [last]
      exact forms.within leads id pos known
    · intro leads m stepped kind
      show (_ → _ ≤ log.lastIndex) ∧ _ ≤ log.lastIndex
      rw [last]
      exact answered leads m stepped kind
  · intro config rn permit starts
    have follows : rn.raft.core.state = .follower := congrArg Core.state starts.core
    have none : rn.raft.core.msgs = [] := congrArg Core.msgs starts.core
    have mode : rn.raft.core.batchAppend = config.batchAppend := congrArg Core.batchAppend starts.core
    refine ⟨⟨mode.trans (permits config permit), ?_, ?_, ?_⟩, ?_⟩
    · rw [none]
      exact List.forall_mem_nil _
    · intro leads
      cases follows.symm.trans leads
    · intro leads
      cases follows.symm.trans leads
    · intro leads
      cases follows.symm.trans leads
  · rintro rn c raw tidy ⟨forms, answered⟩ acts
    have heard : ∀ m, rn.inputs inp (.message m) → m.Tidy := heard
    exact ⟨Acts.forms heard apart plain tidy (marked.running rn raw).stored answered forms acts,
      Acts.answered heard tidy apart answered acts⟩
  · rintro rn c snapIndex index term raw tidy ⟨forms, answered⟩ acts
    have heard : ∀ m, persistedInputs snapIndex index term (.message m) → m.Tidy :=
      fun _ given => given.elim
    refine ⟨Acts.forms heard ?_ ?_ tidy (marked.running rn raw).stored ?_ forms acts,
      Acts.answered heard tidy (fun _ _ _ may => may.elim) answered acts⟩
    · exact fun _ given => given.elim
    · exact fun _ given => given.elim
    · exact fun _ _ given => given.elim

variable [ConfChangeCodec] {op : HostOp} {ops : List HostOp}

/-- Every operation of a machine that does not batch keeps the appends of its node well formed. -/
theorem step_forms (forms : host.Forms) (formed : op.Tidy) (plain : op.Plain) (answers : host.Answers op)
    (stepped : host.step op = .ok (host', sent)) : host'.Forms := by
  have runs := Host.runs_step host op
  rw [stepped] at runs
  have delivers : ∀ m, op.inputs (.message m) → m.msgType = .msgAppendResponse → op = .deliver m := by
    intro m input kind
    rcases HostOp.inputs_message input with delivers | ⟨other | other | other, -⟩
    · exact delivers
    all_goals cases kind.symm.trans other
  have apart : ∀ m, op.inputs (.message m) → m.msgType = .msgAppendResponse → ¬ op.inputs .election := by
    intro m input kind may
    rw [delivers m input kind] at may
    rcases may with other | other | other | other <;> cases kind.symm.trans other
  have unbatched : ∀ enabled, op.inputs (.batching enabled) → enabled = false := by
    intro enabled input
    cases op with
    | setBatchAppend batchAppend => exact (show enabled = batchAppend from input).trans plain
    | _ => cases input
  have permits : ∀ config, op.permits config → config.batchAppend = false := by
    rintro config ⟨rng, rfl⟩
    exact plain
  have before : ∀ rn, host.raw = some rn → rn.raft.core.Forms ∧ rn.raft.core.Answered op.inputs := by
    intro rn raw
    refine ⟨forms.running rn raw, fun leads m input kind => ?_⟩
    rw [delivers m input kind] at answers
    exact answers rn raw leads kind
  have kept := Phases.keeps (P := fun host => host.Tidy ∧ host.Marked ∧
    ∀ rn, host.raw = some rn → rn.raft.core.Forms ∧ rn.raft.core.Answered op.inputs)
      (Q := Message.Tidy) ?_
    ⟨forms.tidy, forms.marked, before⟩ runs
  · obtain ⟨⟨tidy, marked, running⟩, -⟩ := kept
    exact ⟨tidy, marked, fun rn raw => (running rn raw).1⟩
  · rintro host host' sent ⟨tidy, marked, running⟩ phase
    obtain ⟨after, released⟩ := phase.tidy formed.heard tidy
    refine ⟨⟨after, phase.marked tidy marked, fun rn raw => ?_⟩, released⟩
    exact phase.forms formed.heard apart unbatched permits tidy marked running raw

/-- An append of a leader continues its log at its index, and its entries and its term are those of
the log. -/
theorem append_formed {rn : RawNode} (tidy : start.Tidy) (stopped : start.raw = none)
    (formed : ∀ op ∈ ops, op.Tidy) (plain : ∀ op ∈ ops, op.Plain)
    (answers : Obeys Answers start ops) (done : start.run ops = .ok host) (raw : host.raw = some rn)
    (leads : rn.raft.state = .leader) {m : Message} (inside : m ∈ rn.raft.msgs)
    (kind : m.msgType = .msgAppend) (current : m.term = rn.raft.term) :
    m.index + m.entries.length ≤ rn.raft.raftLog.lastIndex ∧
      (∀ k e, m.entries[k]? = some e → e.index = m.index + 1 + k ∧
        (rn.raft.raftLog.firstIndex ≤ e.index → rn.raft.raftLog.entryAt e.index = some e)) ∧
      (rn.raft.raftLog.firstIndex ≤ m.index + 1 → ∀ t, rn.raft.raftLog.term m.index = .ok t →
        t = m.logTerm) := by
  have forms : host.Forms := by
    refine answers.keeps (P := Forms) (fun op member _ _ _ forms answers stepped => ?_) ?_ done
    · exact step_forms forms (formed op member) (plain op member) answers stepped
    · refine ⟨tidy, ⟨fun rn raw => ?_, fun rn _ _ raw => ?_⟩, fun rn raw => ?_⟩ <;>
        cases stopped.symm.trans raw
  have fits : m.Formed rn.raft.raftLog := (forms.running rn raw).formed leads m inside kind current
  have wf : rn.raft.raftLog.WF := by
    cases outstanding : host.outstanding with
    | none => exact (forms.tidy.idle rn raw outstanding).log.wf
    | some rd =>
        obtain ⟨log, busy⟩ := forms.tidy.busy rn rd raw outstanding
        rw [busy.msgs] at inside
        cases inside
  have reach := fits.reach
  refine ⟨reach, fun k e found => ⟨fits.contiguous k e found, fun retained => ?_⟩,
    fun retained t known => ?_⟩
  · have index := fits.contiguous k e found
    have bound : k < m.entries.length := (List.getElem?_eq_some_iff.1 found).1
    obtain ⟨e', present⟩ := wf.exists_entry retained (by omega)
    rw [present, fits.entryAt e (List.mem_of_getElem? found) e' present]
  · rcases retained.eq_or_lt with boundary | behind
    · rw [wf.term_boundary boundary.symm] at known
      cases before : rn.raft.raftLog.boundaryTerm with
      | none => simp [before] at known
      | some term =>
          simp only [before] at known
          obtain rfl := Except.ok.inj known
          exact fits.boundary boundary.symm term before
    · obtain ⟨e, present⟩ := wf.exists_entry (Nat.le_of_lt_succ behind) (by omega)
      rw [wf.term_of_entryAt present] at known
      obtain rfl := Except.ok.inj known
      exact fits.term e present

omit [ConfChangeCodec] in
/-- The first appends of a new leader hold its first entry. -/
theorem append_formed_first : let _ := ConfChangeCodec.sample
    ∃ ops host rn m, (fresh 1 { voters := [1, 2, 3] }).run ops = .ok host ∧ host.raw = some rn ∧
      rn.raft.state = .leader ∧ m ∈ rn.raft.msgs ∧ m.msgType = .msgAppend ∧ m.entries.length = 1 ∧
      ∀ k e, m.entries[k]? = some e → e.index = m.index + 1 + k ∧
        (rn.raft.raftLog.firstIndex ≤ e.index → rn.raft.raftLog.entryAt e.index = some e) := by
  intro _
  let ops : List HostOp :=
    [.restart { id := 1 } fun _ => 0, .campaign,
      .deliver { msgType := .msgRequestVoteResponse, fromId := 2, toId := 1, term := 1 }]
  have passed : (fresh 1 { voters := [1, 2, 3] }).ends ops
      (fun host => host.raw.any fun rn => rn.raft.state == .leader &&
      rn.raft.msgs.any fun m => m.msgType == .msgAppend && m.term == rn.raft.term &&
        m.entries.length == 1) = true := by
    decide +kernel
  have formed : ∀ op ∈ ops, op.Tidy := HostOp.tidy_of_bare (by decide)
  have plain : ∀ op ∈ ops, op.Plain := by simp [ops, HostOp.Plain]
  have answers : Obeys Answers (fresh 1 { voters := [1, 2, 3] }) ops := by decide +kernel
  obtain ⟨host, done, tested⟩ := run_ends passed
  simp only [Bool.and_eq_true, beq_iff_eq, Option.any_eq_true, List.any_eq_true] at tested
  obtain ⟨rn, running, leads, m, inside, ⟨kind, current⟩, size⟩ := tested
  have fits :=
    append_formed (tidy_fresh 1 { voters := [1, 2, 3] }) rfl formed plain answers done running leads
      inside
    kind current
  exact ⟨ops, host, rn, m, done, running, leads, inside, kind, size, fits.2.1⟩

omit [ConfChangeCodec] in
/-- A leader that batches glues the entry of a rejected append onto a queued empty append at a later
index. -/
theorem batched_append_misplaced : let _ := ConfChangeCodec.sample
    ∃ ops host rn m e, (fresh 1 { voters := [1, 2, 3] }).run ops = .ok host ∧ (∀ op ∈ ops, op.Tidy) ∧
      Obeys Answers (fresh 1 { voters := [1, 2, 3] }) ops ∧ host.raw = some rn ∧
        rn.raft.state = .leader ∧
      m ∈ rn.raft.msgs ∧ m.msgType = .msgAppend ∧ m.term = rn.raft.term ∧ m.index = 3 ∧ m.entries = [e] ∧
      e.index = 2 := by
  intro _
  let ack : Nat → Nat → HostOp := fun fromId index =>
    .deliver { msgType := .msgAppendResponse, fromId, toId := 1, term := 1, index }
  -- Node 2 misses the append of entry 2 and rejects that of entry 3 while the commit of entry 3
  -- waits in the queue.
  let ops : List HostOp :=
    [.restart { id := 1, batchAppend := true } fun _ => 0, .campaign, .ready, .flush, .advance, .send 1,
      .deliver { msgType := .msgRequestVoteResponse, fromId := 2, toId := 1, term := 1 }, .ready,
        .flush, .advance,
      ack 2 1, ack 3 1, .propose [] [7], .ready, .flush, .advance, .propose [] [8], .ready, .flush,
        .advance, ack 3 3,
      .deliver { msgType := .msgAppendResponse, fromId := 2, toId := 1, term := 1, index := 2,
                 reject := true
                 rejectHint := 1, logTerm := 1 }]
  have passed : (fresh 1 { voters := [1, 2, 3] }).ends ops
      (fun host => host.raw.any fun rn => rn.raft.state == .leader &&
      rn.raft.msgs.any fun m => m.msgType == .msgAppend && m.term == rn.raft.term && m.index == 3 &&
        m.entries.map Entry.index == [2]) = true := by
    decide +kernel
  have formed : ∀ op ∈ ops, op.Tidy := HostOp.tidy_of_bare (by decide)
  have answers : Obeys Answers (fresh 1 { voters := [1, 2, 3] }) ops := by decide +kernel
  obtain ⟨host, done, tested⟩ := run_ends passed
  simp only [Bool.and_eq_true, beq_iff_eq, Option.any_eq_true, List.any_eq_true] at tested
  obtain ⟨rn, running, leads, m, inside, ⟨⟨kind, current⟩, index⟩, entries⟩ := tested
  obtain ⟨e, single, position⟩ := List.map_eq_singleton_iff.1 entries
  exact ⟨ops, host, rn, m, e, done, formed, answers, running, leads, inside, kind, current, index,
    single, position⟩

end Host

end RaftRs

import RaftRs.Act.Turn
import RaftRs.Conf.Branch
import RaftRs.Node.Propose
import RaftRs.Node.Termed

namespace RaftRs

open Library

namespace Raft

section Proposed

variable [ConfChangeCodec] {r r' : Raft} {m : Message}

theorem proposedChange_normal {e : Entry} (none : proposedChange e = .ok none) : ¬ e.Changes := by
  unfold proposedChange at none
  intro changes
  split at none
  · split at none <;> cases none
  · split at none <;> cases none
  next normal => exact changes normal

/-- An entry that the check keeps as a configuration change carries a change that the node
admits. -/
theorem filterProposal_kept {es kept : List Entry} {i : Nat}
    (done : r.filterProposal i es = (r', .ok kept)) {e : Entry} (member : e ∈ kept)
    (changes : e.Changes) :
    ∃ cc, proposedChange e = .ok (some cc) ∧ r.refusesChange cc = false := by
  induction es generalizing r r' i kept with
  | nil =>
      obtain ⟨-, same⟩ := Prod.mk.inj done
      obtain rfl := Except.ok.inj same
      cases member
  | cons first rest ih =>
      unfold filterProposal at done
      cases found : proposedChange first with
      | error error =>
          rw [found] at done
          obtain ⟨-, wrong⟩ := Prod.mk.inj done
          cases wrong
      | ok change =>
          rw [found] at done
          simp only at done
          split at done
          next r₁ es filtered =>
            obtain ⟨-, same⟩ := Prod.mk.inj done
            obtain rfl := Except.ok.inj same
            cases change with
            | none =>
                rcases List.mem_cons.1 member with rfl | later
                · exact absurd changes (proposedChange_normal found)
                · exact ih filtered later
            | some cc =>
                cases refused : r.refusesChange cc with
                | true =>
                    simp only [refused, if_true] at filtered member
                    rcases List.mem_cons.1 member with rfl | later
                    · exact absurd rfl changes
                    · exact ih filtered later
                | false =>
                    simp only [refused, Bool.false_eq_true, if_false] at filtered member
                    rcases List.mem_cons.1 member with rfl | later
                    · exact ⟨cc, found, refused⟩
                    · obtain ⟨cc', decoded, admitted⟩ := ih filtered later
                      refine ⟨cc', decoded, ?_⟩
                      simp only [refusesChange, Bool.or_eq_false_iff] at refused admitted ⊢
                      exact ⟨⟨refused.1.1, admitted.1.2⟩, admitted.2⟩
          next => cases done

end Proposed

end Raft

variable {inp : Input → Prop} {permitted : Config → Prop} {c c' : Core}

/-- Without inputs no change touches the entries of a log, the configuration or the tail. -/
theorem Acts.unprompted (none : ∀ input, ¬ inp input) (acts : Acts inp c c') :
    c'.log.unstable = c.log.unstable ∧ c'.conf = c.conf ∧ c'.tail = c.tail := by
  induction acts with
  | refl => exact ⟨rfl, rfl, rfl⟩
  | @tail c c' _ act ih =>
      suffices same : c'.log.unstable = c.log.unstable ∧ c'.conf = c.conf ∧ c'.tail = c.tail from
        ⟨same.1.trans ih.1, same.2.1.trans ih.2.1, same.2.2.trans ih.2.2⟩
      cases act with
      | grow role admitted done source =>
          rcases source with may | ⟨m, stepped, -⟩
          · exact absurd may (none _)
          · exact absurd stepped (none _)
      | leave role free done given =>
          obtain ⟨index, given⟩ := given
          exact absurd given (none _)
      | accept stepped => exact absurd stepped (none _)
      | heartbeat stepped => exact absurd stepped (none _)
      | restore stepped => exact absurd stepped (none _)
      | fastForward stepped => exact absurd stepped (none _)
      | commitByVote stepped => exact absurd stepped (none _)
      | commitByRead stepped => exact absurd stepped (none _)
      | lead may => exact absurd may (none _)
      | commitByQuorum role acked done => exact ⟨(RaftLog.marks_maybeCommit done).unstable, rfl, rfl⟩
      | persist reported => exact absurd reported (none _)
      | persistSnap reported => exact absurd reported (none _)
      | apply given => exact absurd given (none _)
      | reconfigure changed => exact absurd changed (none _)
      | @confirm ctx status readOnly confirmed role pending acked done =>
          obtain ⟨_, _, rest⟩ := Core.responds_rest { c with readOnly } confirmed
          rw [rest]
          exact ⟨rfl, rfl, rfl⟩
      | respondNow stepped => exact absurd stepped (none _)
      | _ => exact ⟨rfl, rfl, rfl⟩

theorem RaftLog.entryAt_same {log log' : RaftLog} (store : log.store.Same log'.store)
    (unstable : log'.unstable = log.unstable) (i : Nat) : log'.entryAt i = log.entryAt i := by
  have first : log'.store.firstIndex = log.store.firstIndex := by
    simp only [MemStorage.firstIndex, store.entries, store.snapshotMetadata]
  simp only [RaftLog.entryAt, MemStorage.entryAt, unstable, store.entries, first]

namespace Raft

section Proposed

variable [ConfChangeCodec] {r r' : Raft} {m : Message}

/-- What a proposal leaves of a leader: the new configuration changes of its log are ones that it
has admitted. -/
structure Admitted (r r' : Raft) : Prop where
  role : r'.state = .leader
  term : r'.term = r.term
  conf : r'.prs.conf = r.prs.conf
  tail : r'.uncommittedState.lastLogTailIndex = r.uncommittedState.lastLogTailIndex
  applied : r.raftLog.applied ≤ r'.raftLog.applied
  entries : ∀ i e, r'.raftLog.entryAt i = some e →
    (i ≤ r.raftLog.lastIndex ∧ r.raftLog.entryAt i = some e) ∨
    (r.raftLog.lastIndex < i ∧
      (e.Changes → ∃ cc, proposedChange e = .ok (some cc) ∧ r.refusesChange cc = false))

theorem admitted_refl (wf : r.raftLog.WF) (role : r.state = .leader) (pendingConfIndex : Nat) :
    Admitted r { r with pendingConfIndex } :=
  ⟨role, rfl, rfl, rfl, le_rfl, fun _ _ present => .inl ⟨(wf.bounds present).2, present⟩⟩

theorem Admitted.bcastAppend {r₁ : Raft} (admitted : Admitted r r₁) (done : r₁.bcastAppend = .ok r') :
    Admitted r r' := by
  have does : Does (fun _ => False) r₁.core r₁.bcastAppend core (Steady r₁) :=
    does_bcastAppend admitted.role
  rw [done] at does
  obtain ⟨acts, steady⟩ := does
  obtain ⟨unstable, conf, tail⟩ := Acts.unprompted (fun _ => not_false) acts
  refine ⟨steady.state.trans admitted.role, steady.term.trans admitted.term, conf.trans admitted.conf,
    tail.trans admitted.tail, admitted.applied.trans (Acts.forward acts).log.applied, ?_⟩
  intro i e present
  apply admitted.entries i e
  rw [← present]
  exact (RaftLog.entryAt_same (Acts.store_same acts) unstable i).symm

/-- Appended entries that the check has kept are admitted. -/
theorem admitted_appendEntry {kept : List Entry} {pendingConfIndex : Nat} {appended : Bool}
    (wf : r.raftLog.WF) (role : r.state = .leader)
    (fits : ∀ e ∈ kept, e.Changes → ∃ cc, proposedChange e = .ok (some cc) ∧ r.refusesChange cc = false)
    (done : appendEntry { r with pendingConfIndex } kept = .ok (r', appended)) : Admitted r r' := by
  unfold appendEntry at done
  split at done
  · obtain ⟨rfl, -⟩ := ok_pair_inj done
    exact admitted_refl wf role _
  next counted =>
    obtain ⟨log, grown, done⟩ := bind_eq_ok.1 done
    obtain ⟨rfl, -⟩ := ok_pair_inj done
    have grown : r.raftLog.append (assignPositions r.term r.raftLog.lastIndex kept) = .ok log := grown
    refine ⟨role, rfl, rfl, lastLogTailIndex_increase counted, (RaftLog.forward_append grown).applied,
      fun i e present => ?_⟩
    have present : log.entryAt i = some e := present
    cases kept with
    | nil =>
        obtain rfl : r.raftLog = log := Except.ok.inj grown
        exact .inl ⟨(wf.bounds present).2, present⟩
    | cons first rest =>
        have more :=
          wf.append (by simp [assignPositions]) (contiguous_assignPositions _ _ (first :: rest)) grown
        rw [more.entryAt] at present
        split at present
        next below => exact .inl ⟨by omega, present⟩
        next above =>
          refine .inr ⟨by omega, fun changes => ?_⟩
          rw [getElem?_assignPositions] at present
          obtain ⟨e', found, rfl⟩ := Option.map_eq_some_iff.1 present
          exact fits e' (List.mem_of_getElem? found) changes

/-- A leader keeps only the configuration changes of a proposal that it admits. -/
theorem admitted_handlePropose {result : Except RaftError Unit} (wf : r.raftLog.WF)
    (role : r.state = .leader) (done : r.handlePropose m = .ok (r', result)) : Admitted r r' := by
  have stay : Admitted r r := admitted_refl wf role r.pendingConfIndex
  unfold handlePropose at done
  split at done
  · cases done
  split at done
  · obtain ⟨rfl, -⟩ := ok_pair_inj done
    exact stay
  split at done
  · obtain ⟨rfl, -⟩ := ok_pair_inj done
    exact stay
  have filter : Filtered (fun _ => False) r _ 0 _ := filterProposal_filtered role 0 m.entries
  obtain ⟨pendingConfIndex, same⟩ := filter.same
  split at done
  next filtered =>
    obtain ⟨rfl, -⟩ := ok_pair_inj done
    rw [filtered] at same
    simp only at same
    rw [same]
    exact admitted_refl wf role _
  next r₁ kept filtered =>
    rw [filtered] at same
    simp only at same
    subst same
    have fits : ∀ e ∈ kept, e.Changes → ∃ cc, proposedChange e = .ok (some cc) ∧
        r.refusesChange cc = false :=
      fun e member changes => filterProposal_kept filtered member changes
    obtain ⟨⟨r₂, appended⟩, append, done⟩ := bind_eq_ok.1 done
    have grown := admitted_appendEntry wf role fits append
    cases appended with
    | false =>
        obtain ⟨rfl, -⟩ := ok_pair_inj done
        exact grown
    | true =>
        obtain ⟨r₃, sent, done⟩ := bind_eq_ok.1 done
        obtain ⟨rfl, -⟩ := ok_pair_inj done
        exact grown.bcastAppend sent

/-- A leader steps a proposal without a term by its check. -/
theorem step_untermed_propose (role : r.state = .leader) (kind : m.msgType = .msgPropose)
    (zero : m.term = 0) :
    r.step m = r.handlePropose m := by
  have compared : r.handleTerm m = .ok (r, true) := by
    unfold handleTerm
    rw [if_pos zero]
  unfold step
  rw [compared, ok_bind]
  simp only [dispatch, kind, role, stepLeader]

end Proposed

end Raft

/-- A node whose log has no unapplied configuration change before an index. -/
structure Core.Awaits (conf : Configuration) (index : Nat) (entry : Entry) (c : Core) : Prop where
  conf : c.conf = conf
  last : index ≤ c.log.lastIndex
  entry : ∀ e, c.log.entryAt index = some e → e = entry
  first : ∀ i e, c.log.entryAt i = some e → e.Changes → c.log.applied < i → index ≤ i

/-- A node that still leads a term awaits the change at an index; otherwise it cannot lead that term
again. -/
def Core.Waits (term : Nat) (conf : Configuration) (index : Nat) (entry : Entry) (c : Core) : Prop :=
  term ≤ c.term ∧ (c.term = term → (c.state = .leader ∧ c.Awaits conf index entry) ∨
    (c.state ≠ .leader ∧ c.state ≠ .candidate))

section Waits

variable {term index : Nat} {conf : Configuration} {entry : Entry}

theorem Core.Awaits.keep (awaits : c.Awaits conf index entry) (same : c'.conf = c.conf)
    (last : c.log.lastIndex ≤ c'.log.lastIndex) (applied : c.log.applied ≤ c'.log.applied)
    (entryAt : ∀ i e, c'.log.entryAt i = some e → c.log.entryAt i = some e) :
    c'.Awaits conf index entry :=
  ⟨same.trans awaits.conf, awaits.last.trans last, fun e present => awaits.entry e (entryAt _ e present),
    fun i e present changes above => awaits.first i e (entryAt i e present) changes
      (applied.trans_lt above)⟩

/-- A leader that appends entries goes on waiting. -/
theorem Core.Awaits.grow (awaits : c.Awaits conf index entry) (wf : c.log.WF) {es : List Entry}
    {log : RaftLog} (done : c.log.append (Raft.assignPositions c.term c.log.lastIndex es) = .ok log)
    (same : c'.conf = c.conf) (grown : c'.log = log) : c'.Awaits conf index entry := by
  cases es with
  | nil =>
      obtain rfl : c.log = log := Except.ok.inj done
      exact awaits.keep same (by rw [grown]) (by rw [grown])
        (fun i e present => by rw [← grown]; exact present)
  | cons first rest =>
      have more :=
        wf.append (by simp [Raft.assignPositions]) (contiguous_assignPositions _ _ (first :: rest)) done
      have applied : log.applied = c.log.applied := by rw [more.rest]
      have inside := awaits.last
      have size := more.last
      refine ⟨same.trans awaits.conf, by rw [grown]; omega, fun e present => ?_,
        fun i e present changes above => ?_⟩
      · rw [grown, more.entryAt, if_pos (by omega)] at present
        exact awaits.entry e present
      · rw [grown] at present above
        rw [more.entryAt] at present
        split at present
        · exact awaits.first i e present changes (applied ▸ above)
        · omega

theorem Core.Waits.keep (waits : c.Waits term conf index entry) (sameTerm : c'.term = c.term)
    (role : c'.state = c.state)
    (keeps : c.state = .leader → c.Awaits conf index entry → c'.Awaits conf index entry) :
    c'.Waits term conf index entry := by
  refine ⟨sameTerm ▸ waits.1, fun now => ?_⟩
  rw [role]
  exact (waits.2 (sameTerm ▸ now)).imp_left fun ⟨leads, awaits⟩ => ⟨leads, keeps leads awaits⟩

theorem Core.Waits.follow (waits : c.Waits term conf index entry) (sameTerm : c'.term = c.term)
    (role : c'.state = c.state) (follows : c.state = .follower) : c'.Waits term conf index entry :=
  waits.keep sameTerm role fun leads => by cases leads.symm.trans follows

/-- Every atomic change that applies no configuration change goes on waiting. -/
theorem Act.waits (changes : ∀ cc, ¬ inp (.confChange cc)) (wf : c.log.WF)
    (waits : c.Waits term conf index entry) (act : Act inp c c') : c'.Waits term conf index entry := by
  have same : ∀ c' : Core, c'.term = c.term → c'.state = c.state → c'.conf = c.conf → c'.log = c.log →
      c'.Waits term conf index entry := by
    intro c' sameTerm role sameConf log
    exact waits.keep sameTerm role fun _ awaits =>
      awaits.keep sameConf (by rw [log]) (by rw [log]) (fun i e present => by rw [← log]; exact present)
  have marked : ∀ c' : Core, c'.term = c.term → c'.state = c.state → c'.conf = c.conf →
      c.log.Marks c'.log → c.log.Forward c'.log → c'.Waits term conf index entry := by
    intro c' sameTerm role sameConf marks forward
    exact waits.keep sameTerm role fun _ awaits => awaits.keep sameConf marks.lastIndex.ge
      forward.applied
      (fun i e present => (marks.entryAt i).symm.trans present)
  cases act with
  | bump stepped later =>
      exact ⟨(waits.1.trans later.le), fun now => absurd (now ▸ later) (not_lt.2 waits.1)⟩
  | stepDown => exact ⟨waits.1, fun _ => .inr ⟨nofun, nofun⟩⟩
  | campaign may role cause =>
      have lower := waits.1
      refine ⟨lower.trans (Nat.le_succ _), fun now => ?_⟩
      have now : c.term + 1 = term := now
      omega
  | preCampaign may role eligible => exact ⟨waits.1, fun _ => .inr ⟨nofun, nofun⟩⟩
  | lead may role won settled known =>
      refine ⟨waits.1, fun now => ?_⟩
      rcases waits.2 now with ⟨leads, -⟩ | ⟨-, other⟩
      · cases role.symm.trans leads
      · exact absurd role other
  | grow role admitted done source =>
      exact waits.keep rfl rfl fun _ awaits => awaits.grow wf done rfl rfl
  | leave role free done given => exact waits.keep rfl rfl fun _ awaits => awaits.grow wf done rfl rfl
  | accept stepped kind heard role => exact waits.follow rfl rfl role
  | heartbeat stepped kind heard role => exact waits.follow rfl rfl role
  | restore stepped kind heard role => exact waits.follow rfl rfl role
  | fastForward stepped kind heard role => exact waits.follow rfl rfl role
  | commitByVote stepped kind role positive done =>
      exact marked _ rfl rfl rfl (RaftLog.marks_maybeCommit done) (RaftLog.forward_maybeCommit done)
  | commitByRead stepped kind heard role => exact waits.follow rfl rfl role
  | commitByQuorum role acked done =>
      exact marked _ rfl rfl rfl (RaftLog.marks_maybeCommit done) (RaftLog.forward_maybeCommit done)
  | persist reported done =>
      rw [Core.countOwn_rest]
      exact marked _ rfl rfl rfl (RaftLog.marks_maybePersist done) (RaftLog.forward_maybePersist done)
  | persistSnap reported done =>
      exact marked _ rfl rfl rfl (RaftLog.marks_maybePersistSnap done)
        (RaftLog.forward_maybePersistSnap done)
  | apply given done =>
      exact marked _ rfl rfl rfl (RaftLog.marks_appliedTo done) (RaftLog.forward_appliedTo done)
  | trigger =>
      exact waits.keep rfl rfl fun _ awaits => awaits.keep rfl le_rfl le_rfl
        (fun i e present => (RaftLog.entryAt_same ⟨rfl, rfl, rfl⟩ rfl i).symm.trans present)
  | limit set => exact marked _ rfl rfl rfl ⟨rfl, rfl⟩ (.of_eq rfl rfl)
  | reconfigure changed => exact absurd changed (changes _)
  | @confirm ctx status readOnly confirmed role pending acked done =>
      obtain ⟨_, _, rest⟩ := Core.responds_rest { c with readOnly } confirmed
      rw [rest]
      exact same _ rfl rfl rfl rfl
  | @respondNow m stepped kind role immediate =>
      obtain ⟨_, _, rest⟩ := c.respond_rest m c.log.committed
      rw [rest]
      exact same _ rfl rfl rfl rfl
  | _ => exact same _ rfl rfl rfl rfl

/-- A sequence of atomic changes that applies no configuration change goes on waiting. -/
theorem Acts.waits (changes : ∀ cc, ¬ inp (.confChange cc)) (heard : ∀ m, inp (.message m) → m.Tidy)
    (tidy : c.Tidy) (waits : c.Waits term conf index entry) (acts : Acts inp c c') :
    c'.Waits term conf index entry := by
  induction acts with
  | refl => exact waits
  | tail before act ih => exact act.waits changes (Acts.tidy heard tidy before).log.wf ih

variable {host host' : Host} {sent : List Message}

/-- Phases without a restart keep what shorter logs and atomic changes keep. -/
theorem Host.Phases.keepsNode {P : Core → Prop}
    (kept : ∀ c log msgs readStates, msgs ⊆ c.msgs → P c → c.log.Shrinks log →
      P { c with log, msgs, readStates })
    (calls : ∀ (rn : RawNode) c, rn.raft.core.Tidy → P rn.raft.core →
      Acts (rn.inputs inp) rn.raft.core c → P c)
    (reports : ∀ c c' snapIndex index term, c.Tidy → P c →
      Acts (persistedInputs snapIndex index term) c c' → P c')
    (heard : ∀ m, inp (.message m) → m.Tidy) (runs : ∀ config, ¬ permitted config) (tidy : host.Tidy)
    (holds : ∀ rn, host.raw = some rn → P rn.raft.core) (phases : Phases inp permitted host host' sent) :
    ∀ rn, host'.raw = some rn → P rn.raft.core := by
  induction phases with
  | refl => exact holds
  | step first _ ih =>
      refine ih (first.tidy heard tidy).1 fun rn' running => ?_
      refine first.keepsNode kept (fun config _ permits => absurd permits (runs config)) ?_ ?_ tidy
        holds running
      · exact fun rn c _ => calls rn c
      · exact fun rn c snapIndex index term _ => reports rn.raft.core c snapIndex index term

/-- Phases without a configuration change and without a restart go on waiting. -/
theorem Host.Phases.waits (changes : ∀ cc, ¬ inp (.confChange cc))
    (heard : ∀ m, inp (.message m) → m.Tidy) (runs : ∀ config, ¬ permitted config) (tidy : host.Tidy)
    (waits : ∀ rn, host.raw = some rn → rn.raft.core.Waits term conf index entry)
    (phases : Phases inp permitted host host' sent) :
    ∀ rn, host'.raw = some rn → rn.raft.core.Waits term conf index entry := by
  refine phases.keepsNode ?_ ?_ ?_ heard runs tidy waits
  · intro c log msgs readStates _ waits shrinks
    exact waits.keep rfl rfl fun _ awaits => awaits.keep rfl shrinks.last.ge shrinks.applied.ge
      shrinks.entryAt
  · intro rn c tidy waits acts
    have changes : ∀ cc, ¬ rn.inputs inp (.confChange cc) := changes
    have heard : ∀ m, rn.inputs inp (.message m) → m.Tidy := heard
    exact Acts.waits changes heard tidy waits acts
  · intro c c' _ _ _ tidy waits acts
    exact Acts.waits (fun _ => not_false) nofun tidy waits acts

/-- Phases without a configuration change, a snapshot and a restart keep the configuration and apply
more. -/
theorem Host.Phases.settled {applied : Nat} (changes : ∀ cc, ¬ inp (.confChange cc))
    (plain : ∀ m, inp (.message m) → m.msgType ≠ .msgSnapshot) (heard : ∀ m, inp (.message m) → m.Tidy)
    (runs : ∀ config, ¬ permitted config) (tidy : host.Tidy)
    (holds : ∀ rn, host.raw = some rn → rn.raft.core.conf = conf ∧ applied ≤ rn.raft.core.log.applied)
    (phases : Phases inp permitted host host' sent) :
    ∀ rn, host'.raw = some rn → rn.raft.core.conf = conf ∧ applied ≤ rn.raft.core.log.applied := by
  have settle : ∀ {inp : Input → Prop} {c c' : Core}, (∀ cc, ¬ inp (.confChange cc)) →
      (∀ m, inp (.message m) → m.msgType ≠ .msgSnapshot) → Acts inp c c' → c'.conf = c.conf := by
    intro inp c c' changes plain acts
    induction acts with
    | refl => rfl
    | tail _ act ih => exact (act.standing changes plain).1.trans ih
  refine phases.keepsNode (P := fun c => c.conf = conf ∧ applied ≤ c.log.applied) ?_ ?_ ?_ heard
    runs tidy holds
  · exact fun c log msgs readStates _ held shrinks => ⟨held.1, held.2.trans shrinks.applied.ge⟩
  · intro rn c _ held acts
    have changes : ∀ cc, ¬ rn.inputs inp (.confChange cc) := changes
    have plain : ∀ m, rn.inputs inp (.message m) → m.msgType ≠ .msgSnapshot := plain
    exact ⟨(settle changes plain acts).trans held.1, held.2.trans (Acts.forward acts).log.applied⟩
  · intro c c' _ _ _ _ held acts
    exact ⟨(settle (fun _ => not_false) nofun acts).trans held.1,
      held.2.trans (Acts.forward acts).log.applied⟩

end Waits

/-- The entries of a node lie below its last index. -/
theorem Host.Tidy.inside {host : Host} {rn : RawNode} (tidy : host.Tidy)
    (running : host.raw = some rn) {i : Nat} {e : Entry}
    (present : rn.raft.raftLog.entryAt i = some e) : i ≤ rn.raft.raftLog.lastIndex := by
  cases outstanding : host.outstanding with
  | none => exact ((tidy.idle rn running outstanding).log.wf.bounds present).2
  | some rd =>
      obtain ⟨log, busy⟩ := tidy.busy rn rd running outstanding
      have alike := busy.written.busy
      rw [← busy.same] at alike
      rw [alike.entryAt] at present
      rw [alike.last]
      exact (busy.sound.wf.bounds present).2

/-- Before an entry is applied, an application applies only unapplied changes of earlier entries. -/
def Host.InOrder [ConfChangeCodec] (index : Nat) (host : Host) (op : HostOp) : Prop :=
  ∀ cc, op = .applyConfChange cc → ∀ rn, host.raw = some rn →
    ∃ i e, rn.raft.raftLog.entryAt i = some e ∧ e.Changes ∧
    Raft.proposedChange e = .ok (some cc) ∧ rn.raft.raftLog.applied < i ∧ i < index

/-- The node of a machine leads a term. -/
def Host.Leads (term : Nat) (host : Host) : Prop :=
  ∃ rn, host.raw = some rn ∧ rn.raft.state = .leader ∧ rn.raft.term = term

/-- The proposal that an operation steps. -/
def HostOp.proposal [ConfChangeCodec] (rn : RawNode) : HostOp → Option Message
  | .deliver m => if m.msgType = .msgPropose then some m else none
  | .propose context data =>
      some { msgType := .msgPropose, fromId := rn.raft.id, entries := [{ data, context }] }
  | .proposeConfChange context (.inl cc) => some
      { msgType := .msgPropose
        entries := [{ entryType := .entryConfChange, data := ConfChangeCodec.encodeConfChange cc,
                      context }] }
  | .proposeConfChange context (.inr cc) => some
      { msgType := .msgPropose
        entries := [{ entryType := .entryConfChangeV2,
                      data := ConfChangeCodec.encodeConfChangeV2 cc, context }] }
  | _ => none

namespace Cluster

variable [ConfChangeCodec] {allowed : Host → HostOp → Prop} {cs : ConfState} {cluster final : Cluster}

/-- A proposal is stepped by the node unless the machine is busy. -/
theorem step_proposal {host host' : Host} {sent : List Message} {op : HostOp} {rn rn' : RawNode}
    {m : Message} (running : host.raw = some rn) (proposes : op.proposal rn = some m)
    (stepped : host.step op = .ok (host', sent)) (running' : host'.raw = some rn') :
    m.msgType = .msgPropose ∧ (rn' = rn ∨
      host.outstanding = none ∧ ∃ result, rn.raft.step m = .ok (rn'.raft, result)) := by
  have calls : ∀ action : RawNode → Except Fatal (RawNode × Except RaftError Unit), action rn =
      rn.stepRaft m → host.callWith action = .ok (host', sent) →
      rn' = rn ∨ host.outstanding = none ∧ ∃ result, rn.raft.step m = .ok (rn'.raft, result) := by
    intro action same done
    unfold Host.callWith Host.call at done
    rw [running] at done
    split at done
    next rn₀ known idle =>
      obtain rfl : rn = rn₀ := Option.some.inj known
      obtain ⟨rn₁, called, done⟩ := bind_eq_ok.1 done
      obtain ⟨⟨rn₂, result⟩, acted, back⟩ := bind_eq_ok.1 called
      rw [same] at acted
      obtain ⟨⟨raft, result'⟩, ran, made⟩ := bind_eq_ok.1 acted
      obtain ⟨rfl, rfl⟩ := ok_pair_inj made
      obtain rfl := Except.ok.inj back
      obtain ⟨rfl, -⟩ := ok_pair_inj done
      cases running'
      exact .inr ⟨idle, result', ran⟩
    next =>
      obtain ⟨rfl, -⟩ := ok_pair_inj done
      exact .inl (Option.some.inj (running'.symm.trans running))
  cases op with
  | deliver m' =>
      simp only [HostOp.proposal] at proposes
      split at proposes
      next kind =>
        obtain rfl := Option.some.inj proposes
        refine ⟨kind, calls _ ?_ stepped⟩
        simp [RawNode.step, kind, isLocalMsg, isResponseMsg]
      next => cases proposes
  | propose context data =>
      obtain rfl := Option.some.inj proposes
      exact ⟨rfl, calls _ rfl stepped⟩
  | proposeConfChange context cc =>
      cases cc with
      | inl cc =>
          obtain rfl := Option.some.inj proposes
          exact ⟨rfl, calls _ rfl stepped⟩
      | inr cc =>
          obtain rfl := Option.some.inj proposes
          exact ⟨rfl, calls _ rfl stepped⟩
  | _ => cases proposes

/-- The proposals of a reachable cluster carry no term. -/
theorem Reachable.proposal_untermed (reachable : Reachable allowed cs cluster) {id : Nat}
    {op : HostOp} {rn : RawNode} {m : Message} (deliverable : cluster.Deliverable id op)
    (proposes : op.proposal rn = some m) : m.term = 0 := by
  cases op with
  | deliver m' =>
      simp only [HostOp.proposal] at proposes
      split at proposes
      next kind =>
        obtain rfl := Option.some.inj proposes
        have termed : m'.Termed :=
          reachable.inputs_termed deliverable (show HostOp.inputs (.deliver m') (.message m') from rfl)
        exact termed.untermed (.inl kind)
      next => cases proposes
  | propose context data =>
      obtain rfl := Option.some.inj proposes
      rfl
  | proposeConfChange context cc =>
      cases cc with
      | inl cc =>
          obtain rfl := Option.some.inj proposes
          rfl
      | inr cc =>
          obtain rfl := Option.some.inj proposes
          rfl
  | _ => cases proposes

/-- A leader that has admitted a configuration change awaits it at its index. -/
theorem Reachable.awaits (reachable : Reachable allowed cs cluster) {id : Nat} {op : HostOp}
    {rn rn₁ : RawNode} {host : Host} {sent : List Message} {index : Nat} {entry : Entry}
    {cc : ConfChangeV2} (running : (cluster.hosts id).raw = some rn) (leads : rn.raft.state = .leader)
    (proposes : (op.proposal rn).isSome = true) (permitted : allowed (cluster.hosts id) op)
    (deliverable : cluster.Deliverable id op) (stepped : (cluster.hosts id).step op = .ok (host, sent))
    (running₁ : host.raw = some rn₁) (fresh : rn.raft.raftLog.lastIndex < index)
    (kept : rn₁.raft.raftLog.entryAt index = some entry) (changes : entry.Changes)
    (reads : Raft.proposedChange entry = .ok (some cc)) :
    joint rn.raft.prs.conf = cc.changes.isEmpty ∧ rn₁.raft.core.Awaits rn.raft.prs.conf index entry := by
  obtain ⟨m, proposes⟩ := Option.isSome_iff_exists.1 proposes
  obtain ⟨kind, same | ⟨idle, result, done⟩⟩ := step_proposal running proposes stepped running₁
  · subst same
    exact absurd ((reachable.tidy.1 id).inside running kept) (not_le.2 fresh)
  · have wf : rn.raft.raftLog.WF := ((reachable.tidy.1 id).idle rn running idle).log.wf
    rw [Raft.step_untermed_propose leads kind (reachable.proposal_untermed deliverable proposes)] at done
    have admitted := Raft.admitted_handlePropose wf leads done
    have after : Reachable allowed cs _ := reachable.tail (.host permitted deliverable stepped)
    have restrained := reachable.inFlight id rn running leads
    have restrained₁ := after.inFlight id rn₁ (by simpa using running₁) admitted.role
    have tail : rn₁.raft.core.tail = rn.raft.core.tail := admitted.tail
    have low : rn.raft.core.tail ≤ rn.raft.raftLog.lastIndex := restrained.tail
    have free : rn.raft.pendingConfIndex ≤ rn.raft.raftLog.applied ∧
        joint rn.raft.prs.conf = cc.changes.isEmpty := by
      rcases admitted.entries index entry kept with ⟨old, -⟩ | ⟨-, admits⟩
      · exact absurd fresh (not_lt.2 old)
      · obtain ⟨cc', reads', admits⟩ := admits changes
        obtain rfl : cc = cc' := Option.some.inj (Except.ok.inj (reads.symm.trans reads'))
        simp only [Raft.refusesChange, Raft.hasPendingConf, Bool.or_eq_false_iff,
          decide_eq_false_iff_not, not_lt] at admits
        refine ⟨admits.1.1, ?_⟩
        cases both : joint rn.raft.prs.conf <;> simp [both] at admits ⊢ <;> simp [admits]
    refine ⟨free.2, admitted.conf, ?_, ?_, ?_⟩
    · exact (after.tidy.1 id).inside (by simpa using running₁) kept
    · intro e present
      exact Option.some.inj (present.symm.trans kept)
    · intro i e present changed above
      by_contra earlier
      rcases admitted.entries i e present with ⟨-, old⟩ | ⟨own, -⟩
      · have bounded := restrained.bounded i e old changed (admitted.applied.trans_lt above)
        have below : i ≤ rn.raft.raftLog.applied := le_trans bounded free.1
        exact absurd (below.trans admitted.applied) (not_le.2 above)
      · have same := restrained₁.single i e index entry present changed above (by omega) kept changes
          (above.trans (not_le.1 earlier)) (by omega)
        exact earlier same.ge

end Cluster

namespace Cluster

variable [ConfChangeCodec] {allowed : Host → HostOp → Prop} {cs : ConfState} {cluster final : Cluster}

/-- An operation of a machine leaves an entry at an index, and the cluster passes a test
afterwards. -/
def admits (cluster : Cluster) (id : Nat) (op : HostOp) (index : Nat) (content : EntryType × Bytes)
    (test : Cluster → Bool) : Bool :=
  match (cluster.hosts id).step op with
  | .ok (host, sent) =>
      (host.raw.any fun rn => (rn.raft.raftLog.entryAt index).any fun e => (e.entryType, e.data) ==
        content) &&
        test { hosts := Function.update cluster.hosts id host, network := cluster.network ++ sent }
  | .error _ => false

end Cluster

end RaftRs

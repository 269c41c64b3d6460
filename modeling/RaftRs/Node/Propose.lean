import RaftRs.Node.InFlight

namespace RaftRs

open Library

namespace Raft

section Dropped

variable [ConfChangeCodec] {r r' : Raft} {m : Message}

/-- An entry carries no change or one that can be read. -/
def decodes (e : Entry) : Bool := (proposedChange e).isOk

/-- An entry carries a change that the node admits. -/
def admits (r : Raft) (e : Entry) : Bool :=
  match proposedChange e with
  | .ok (some cc) => !r.refusesChange cc
  | _ => false

/-- A proposal reserves an index when it has an admitted change before the first unreadable one. -/
def Reserves (r : Raft) (es : List Entry) : Prop := ∃ e ∈ es.takeWhile decodes, r.admits e = true

/-- A proposal that fails after the membership checks. -/
def Examines (r : Raft) : Prop := r.prs.progress.contains r.id = true ∧ r.leadTransferee = none

theorem filterProposal_unreserved {es : List Entry} (unreserved : ¬ r.Reserves es) (i : Nat) :
    (r.filterProposal i es).1 = r := by
  induction es generalizing i with
  | nil => rfl
  | cons e rest ih =>
      unfold filterProposal
      cases found : proposedChange e with
      | error error => rfl
      | ok change =>
          have readable : decodes e = true := by simp [decodes, found, Except.isOk, Except.toBool]
          have later : ¬ r.Reserves rest := by
            rintro ⟨other, inside, admitted⟩
            refine unreserved ⟨other, ?_, admitted⟩
            rw [List.takeWhile_cons_of_pos readable]
            exact List.mem_cons_of_mem _ inside
          have kept := ih later (i + 1)
          have first : r.admits e ≠ true := by
            intro admitted
            refine unreserved ⟨e, ?_, admitted⟩
            rw [List.takeWhile_cons_of_pos readable]
            exact List.mem_cons_self
          cases change with
          | none =>
              simp only
              split <;> (rename_i same; rw [same] at kept; exact kept)
          | some cc =>
              have refused : r.refusesChange cc = true := by simpa [admits, found] using first
              simp only [refused, if_true]
              split <;> (rename_i same; rw [same] at kept; exact kept)

theorem filterProposal_pending (pending : r.hasPendingConf = true) (i : Nat) (es : List Entry) :
    (r.filterProposal i es).1 = r := by
  refine filterProposal_unreserved ?_ i
  rintro ⟨e, -, admitted⟩
  unfold admits refusesChange at admitted
  split at admitted
  · simp [pending] at admitted
  · cases admitted

/-- A proposal that reserves an index leaves the node with an unapplied change. -/
theorem filterProposal_reserved {es : List Entry} (range : r.raftLog.applied ≤ r.raftLog.lastIndex)
    (reserves : r.Reserves es) (i : Nat) :
    r.hasPendingConf = false ∧ (r.filterProposal i es).1.hasPendingConf = true := by
  induction es generalizing i with
  | nil =>
      obtain ⟨e, inside, -⟩ := reserves
      cases inside
  | cons e rest ih =>
      unfold filterProposal
      obtain ⟨other, inside, admitted⟩ := reserves
      cases found : proposedChange e with
      | error error =>
          rw [List.takeWhile_cons_of_neg
            (by simp [decodes, found, Except.isOk, Except.toBool])] at inside
          cases inside
      | ok change =>
          rw [List.takeWhile_cons_of_pos
            (by simp [decodes, found, Except.isOk, Except.toBool])] at inside
          by_cases first : r.admits e = true
          · obtain ⟨cc, rfl, admitted⟩ : ∃ cc, change = some cc ∧ r.refusesChange cc = false := by
              cases change with
              | none => simp [admits, found] at first
              | some cc => exact ⟨cc, rfl, by simpa [admits, found] using first⟩
            have free : r.hasPendingConf = false := by
              simp only [refusesChange, Bool.or_eq_false_iff] at admitted
              exact admitted.1.1
            simp only [admitted, Bool.false_eq_true, if_false]
            have pending : { r with
                pendingConfIndex := r.raftLog.lastIndex + i + 1 }.hasPendingConf = true := by
              simp only [hasPendingConf, decide_eq_true_eq]
              omega
            have kept := filterProposal_pending pending (i + 1) rest
            refine ⟨free, ?_⟩
            split <;> (rename_i same; rw [same] at kept; simp only at kept; rw [kept]; exact pending)
          · have later : r.Reserves rest := by
              rcases List.mem_cons.1 inside with rfl | inside
              · exact absurd admitted first
              · exact ⟨other, inside, admitted⟩
            have kept := ih later (i + 1)
            have refused : ∀ cc, change = some cc → r.refusesChange cc = true := by
              rintro cc rfl
              simpa [admits, found] using first
            cases change with
            | none =>
                simp only
                split <;> (rename_i same; rw [same] at kept; exact kept)
            | some cc =>
                simp only [refused cc rfl, if_true]
                split <;> (rename_i same; rw [same] at kept; exact kept)

/-- A dropped proposal leaves the node as the filter has left it. -/
theorem handlePropose_dropped {error : RaftError} (done : r.handlePropose m = .ok (r', .error error)) :
    (¬ r.Examines ∧ r' = r) ∨ (r.Examines ∧ r' = (r.filterProposal 0 m.entries).1) := by
  unfold handlePropose at done
  split at done
  · cases done
  split at done
  next outside =>
    obtain ⟨rfl, -⟩ := ok_pair_inj done
    exact .inl ⟨fun examines => by simp [examines.1] at outside, rfl⟩
  next inside =>
    split at done
    next transfer =>
      obtain ⟨rfl, -⟩ := ok_pair_inj done
      exact .inl ⟨fun examines => by simp [examines.2] at transfer, rfl⟩
    next settled =>
      have examines : r.Examines := ⟨by simpa using inside, by simpa using settled⟩
      refine .inr ⟨examines, ?_⟩
      split at done
      next filtered _ same =>
        obtain ⟨rfl, -⟩ := ok_pair_inj done
        rw [same]
      next filtered entries same =>
        rw [same]
        unfold appendEntry at done
        split at done
        · obtain ⟨rfl, -⟩ := ok_pair_inj done
          rfl
        · obtain ⟨⟨grown, appended⟩, append, done⟩ := bind_eq_ok.1 done
          obtain ⟨log, -, grow⟩ := bind_eq_ok.1 append
          obtain ⟨rfl, rfl⟩ := ok_pair_inj grow
          obtain ⟨_, -, done⟩ := bind_eq_ok.1 done
          cases done

/-- A leader that steps a proposal examines it in its own term. -/
theorem step_propose (leads : r.state = .leader) (kind : m.msgType = .msgPropose) {error : RaftError}
    (done : r.step m = .ok (r', .error error)) :
    (m.term ≤ r.term ∧ r.handlePropose m = .ok (r', .error error)) ∨
      (r.term < m.term ∧ r'.term = m.term) := by
  have examined : ∀ r : Raft, r.state = .leader → r.dispatch m = r.handlePropose m := by
    intro r leads
    simp only [dispatch, stepLeader, kind, leads]
  obtain ⟨⟨next, goesOn⟩, compared, done⟩ := bind_eq_ok.1 done
  unfold handleTerm at compared
  simp only [kind, reduceCtorEq, false_and, or_self, if_false, and_false] at compared
  split at compared
  next zero =>
    obtain ⟨rfl, rfl⟩ := ok_pair_inj compared
    refine .inl ⟨by omega, ?_⟩
    rw [← examined _ leads]
    exact done
  split at compared
  next later =>
    obtain ⟨rfl, rfl⟩ := ok_pair_inj compared
    refine .inr ⟨later, ?_⟩
    have term : (r.becomeFollower m.term invalidId).term = m.term :=
      congrArg Core.term (r.core_becomeFollower m.term invalidId)
    have role : (r.becomeFollower m.term invalidId).state = .follower := rfl
    have leader : (r.becomeFollower m.term invalidId).leaderId = invalidId := rfl
    simp only [dispatch, kind, role, stepFollower, leader, if_true] at done
    obtain ⟨rfl, -⟩ := ok_pair_inj done
    exact term
  split at compared
  · obtain ⟨rfl, rfl⟩ := ok_pair_inj compared
    cases done
  next notLater _ =>
    obtain ⟨rfl, rfl⟩ := ok_pair_inj compared
    refine .inl ⟨not_lt.1 notLater, ?_⟩
    rw [← examined _ leads]
    exact done

/-- A dropped proposal leaves no trace exactly when it is of no later term and reserves no index. -/
theorem step_dropped_untraced (leads : r.state = .leader) (kind : m.msgType = .msgPropose)
    (done : r.step m = .ok (r', .error .proposalDropped)) :
    (m.term ≤ r.term ∧ (r.Examines → ¬ r.Reserves m.entries) → r' = r) ∧
      (r.raftLog.applied ≤ r.raftLog.lastIndex → r' = r →
        m.term ≤ r.term ∧ (r.Examines → ¬ r.Reserves m.entries)) := by
  rcases step_propose leads kind done with ⟨current, handled⟩ | ⟨later, term⟩
  · rcases handlePropose_dropped handled with ⟨unexamined, same⟩ | ⟨examines, filtered⟩
    · exact ⟨fun _ => same, fun _ _ => ⟨current, fun examines => absurd examines unexamined⟩⟩
    · refine ⟨fun ⟨_, free⟩ => filtered.trans (filterProposal_unreserved (free examines) 0), ?_⟩
      rintro range rfl
      refine ⟨current, fun _ reserves => ?_⟩
      obtain ⟨before, after⟩ := filterProposal_reserved range reserves 0
      rw [← filtered, before] at after
      cases after
  · refine ⟨fun ⟨current, _⟩ => absurd current (by omega), fun _ same => ?_⟩
    rw [same] at term
    omega

end Dropped

/-- A proposal of one byte of data. -/
def byteProposal : Message := { msgType := .msgPropose, entries := [{ data := [0] }] }

/-- A proposal of the change that adds node 2, which takes four bytes. -/
def nodeChange : Message :=
  { msgType := .msgPropose, entries := [{ entryType := .entryConfChangeV2, data := [18, 2, 16, 2] }] }

/-- A single node that leads with one uncommitted byte and no room for a second one. -/
def Crowded [ConfChangeCodec] (r : Raft) : Prop :=
  ∃ rn₀ rn₁ rn₂ : RawNode, RawNode.new { id := 1, maxUncommittedSize := 1 }
      (MemStorage.newWithConfState { voters := [1] }) (fun _ => 0) = .ok (.ok rn₀) ∧
    rn₀.campaign = .ok (rn₁, .ok ()) ∧ rn₁.stepRaft byteProposal = .ok (rn₂, .ok ()) ∧ r = rn₂.raft

/-- A second byte of data is dropped and leaves no trace. -/
theorem step_dropped_untraced_data : let _ := ConfChangeCodec.sample
    ∃ r r', Crowded r ∧ r.step byteProposal = .ok (r', .error .proposalDropped) ∧ r' = r := by
  intro _
  obtain ⟨r, crowded, r', leads, dropped, unreserved⟩ : ∃ r, Crowded r ∧ ∃ r', r.state = .leader ∧
      r.step byteProposal = .ok (r', .error .proposalDropped) ∧
      byteProposal.term ≤ r.term ∧ (r.Examines → ¬ r.Reserves byteProposal.entries) := by
    refine ⟨_, ⟨_, _, _, rfl, rfl, rfl, rfl⟩, _, rfl, rfl, by decide, fun _ => ?_⟩
    rintro ⟨e, inside, admitted⟩
    obtain rfl := List.mem_singleton.1 inside
    cases admitted
  exact ⟨r, r', crowded, dropped, (step_dropped_untraced leads rfl dropped).1 unreserved⟩

/-- A configuration change that is dropped for its size still counts as an unapplied one. -/
theorem step_dropped_reserved : let _ := ConfChangeCodec.sample
    ∃ r r', Crowded r ∧ r.state = .leader ∧ r.step nodeChange = .ok (r', .error .proposalDropped) ∧
      r.hasPendingConf = false ∧ r'.hasPendingConf = true ∧ r' ≠ r := by
  intro _
  refine ⟨_, _, ⟨_, _, _, rfl, rfl, rfl, rfl⟩, rfl, rfl, rfl, rfl, fun same => ?_⟩
  have pending := congrArg Raft.pendingConfIndex same
  cases pending

end Raft

end RaftRs

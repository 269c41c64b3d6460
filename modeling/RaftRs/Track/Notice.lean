import RaftRs.Track.Deliver

namespace RaftRs

open Library

/-- A Ready carries nothing for the application. -/
def Ready.isIdle (rd : Ready) : Bool :=
  rd.light.messages.isEmpty && rd.ss.isNone && rd.hs.isNone && rd.readStates.isEmpty &&
    rd.entries.isEmpty &&
    rd.snapshot.isEmpty && rd.light.committedEntries.isEmpty

theorem limitSize_isEmpty (ents : List Entry) (max : Option Nat) :
    (limitSize ents max).isEmpty = ents.isEmpty := by
  cases ents with
  | nil =>
      have none := (limitSize_start [] max).length_le
      rw [List.isEmpty_nil, List.isEmpty_iff]
      exact List.length_eq_zero_iff.1 (Nat.le_zero.1 none)
  | cons entry rest =>
      have some := limitSize_ne_nil (List.cons_ne_nil entry rest) max
      simpa using some

namespace RawNode

variable {rn rn' : RawNode} {rd : Ready}

/-- A light Ready is without entries exactly when the test for further entries is negative. -/
theorem light_entries_isEmpty {light : LightReady} (wf : rn.raft.raftLog.WF)
    (done : rn.genLightReady = .ok (rn', light)) :
    rn.raft.raftLog.hasNextEntriesSince rn.commitSinceIndex = .ok (!light.committedEntries.isEmpty) := by
  obtain ⟨ents, read, handed⟩ := (genLightReady_lights done).entries
  obtain ⟨fits, -⟩ := RaftLog.fits_of_ok read
  have high := wf.high
  have bound : rn.raft.raftLog.applyBound ≤ rn.raft.raftLog.committed := min_le_left _ _
  rw [fits.nextEntriesSince_eq wf] at read
  rw [fits.hasNextEntriesSince_eq, handed, ← Except.ok.inj read]
  split
  next some =>
    rw [decide_eq_true some, Option.getD_some, limitSize_isEmpty]
    have length := wf.length_range (le_max_right (rn.commitSinceIndex + 1) rn.raft.raftLog.firstIndex)
      (show rn.raft.raftLog.applyBound + 1 ≤ rn.raft.raftLog.lastIndex + 1 by omega)
    have filled : (rn.raft.raftLog.range (max (rn.commitSinceIndex + 1) rn.raft.raftLog.firstIndex)
        (rn.raft.raftLog.applyBound + 1)).isEmpty = false := by
      rw [List.isEmpty_eq_false_iff]
      intro empty
      rw [empty, List.length_nil] at length
      omega
    rw [filled]
    rfl
  next none =>
    rw [decide_eq_false none]
    rfl

theorem ready_ss (done : rn.ready = .ok (rn', rd)) :
    rd.ss = if rn.raft.softState ≠ rn.prevSs then some rn.raft.softState else none := by
  obtain ⟨rn₁, dropped, done⟩ := bind_eq_ok.1 done
  obtain ⟨⟨rn₂, snapshot⟩, taken, done⟩ := bind_eq_ok.1 done
  obtain ⟨⟨rn₃, light⟩, lit, done⟩ := bind_eq_ok.1 done
  obtain ⟨-, rfl⟩ := ok_pair_inj done
  have first := (dropRecords_ok dropped).1
  have raft : rn₁.raft = rn.raft := by rw [first]
  have prevSs : rn₃.prevSs = rn.prevSs := by
    rw [(genLightReady_lights lit).rest, (readySnapshot_ok taken).1, first]
  simp only [raft, prevSs]

/-- The test for a Ready fails only where the Ready itself fails, and is positive exactly when the
Ready carries something. -/
theorem hasReady_eq (sound : rn.raft.raftLog.Sound) (done : rn.ready = .ok (rn', rd)) :
    rn.hasReady = .ok (!rd.isIdle) := by
  have readies := ready_readies done
  obtain ⟨rn₁, rn₂, raft₁, lit, -, -, handed⟩ := ready_parts done
  have messages : rd.light.messages = rn.raft.msgs := by rw [(genLightReady_lights lit).messages, raft₁]
  have sound₁ : rn₁.raft.raftLog.Sound := by
    rw [raft₁]
    exact sound
  have further := light_entries_isEmpty sound₁.wf lit
  have log₁ : rn₁.raft.raftLog = rn.raft.raftLog := by rw [raft₁]
  rw [log₁] at further
  -- Everything but the committed entries is tested on the node as the Ready takes it.
  have pending : (rn.raft.raftLog.unstable.snapshot.any fun s => !s.isEmpty) = !rd.snapshot.isEmpty := by
    rw [readies.snapshot]
    cases rn.raft.raftLog.unstable.snapshot <;> rfl
  have tests : rn.hasReady = if !rn.raft.msgs.isEmpty || rn.raft.softState ≠ rn.prevSs ||
      rn.raft.hardState ≠ rn.prevHs || !rn.raft.readStates.isEmpty ||
        !rn.raft.raftLog.unstable.entries.isEmpty ||
      rn.raft.raftLog.unstable.snapshot.any fun s => !s.isEmpty then .ok true
      else rn.raft.raftLog.hasNextEntriesSince rn.commitSinceIndex := by
    unfold hasReady
    cases rn.raft.raftLog.unstable.snapshot <;> rfl
  have soft : decide (rn.raft.softState ≠ rn.prevSs) = !rd.ss.isNone := by
    rw [ready_ss done]
    split <;> simp_all
  have hard : decide (rn.raft.hardState ≠ rn.prevHs) = !rd.hs.isNone := by
    rw [readies.hs]
    split <;> simp_all
  unfold Ready.isIdle
  rw [tests, pending, soft, hard, ← messages, ← readies.readStates, ← readies.entries]
  split
  next some =>
    congr 1
    revert some
    cases rd.light.messages.isEmpty <;> cases rd.ss.isNone <;> cases rd.hs.isNone <;>
      cases rd.readStates.isEmpty <;>
      cases rd.entries.isEmpty <;> cases rd.snapshot.isEmpty <;> simp
  next none =>
    simp only [Bool.or_eq_true, Bool.not_eq_true', not_or, Bool.not_eq_false] at none
    obtain ⟨⟨⟨⟨⟨msgs, ss⟩, hs⟩, reads⟩, entries⟩, empty⟩ := none
    have unmoved : rn₁.commitSinceIndex = rn.commitSinceIndex := by
      rcases handed with ⟨-, same⟩ | ⟨s, waits, -⟩
      · exact same
      · rw [readies.snapshot, waits, Option.getD_some] at empty
        simp [Snapshot.isEmpty, sound.positioned s waits] at empty
    rw [unmoved] at further
    rw [further, msgs, ss, hs, reads, entries, empty]
    rfl

end RawNode

namespace Host

variable [ConfChangeCodec] {start host : Host} {ops : List HostOp}

/-- An idle node of every run tells exactly whether its next Ready carries something. -/
theorem notice_exact {rn rn' : RawNode} {rd : Ready} (tidy : start.Tidy) (formed : ∀ op ∈ ops, op.Tidy)
    (done : start.run ops = .ok host) (raw : host.raw = some rn) (idle : host.outstanding = none)
    (ready : rn.ready = .ok (rn', rd)) : rn.hasReady = .ok (!rd.isIdle) :=
  RawNode.hasReady_eq ((run_tidy tidy formed done).idle rn raw idle).log ready

omit [ConfChangeCodec] in
/-- A node that has just campaigned has something to hand out. -/
theorem notice_exact_campaign : let _ := ConfChangeCodec.sample
    ∃ ops host rn rn' rd, (fresh 1 { voters := [1, 2] }).run ops = .ok host ∧ host.raw = some rn ∧
      rn.ready = .ok (rn', rd) ∧ rd.isIdle = false ∧ rn.hasReady = .ok true := by
  intro _
  let ops : List HostOp := [.restart { id := 1 } fun _ => 0, .campaign]
  have passed : (fresh 1 { voters := [1, 2] }).ends ops (fun host => host.outstanding.isNone &&
      host.raw.any fun rn => rn.ready.toOption.any fun result => !result.2.isIdle) = true := by
        decide +kernel
  obtain ⟨host, done, tested⟩ := run_ends passed
  simp only [Bool.and_eq_true, Option.isNone_iff_eq_none, Option.any_eq_true,
    Bool.not_eq_true'] at tested
  obtain ⟨idle, rn, raw, ⟨rn', rd⟩, ready, busy⟩ := tested
  have ready : rn.ready = .ok (rn', rd) := by
    cases result : rn.ready with
    | error e =>
        rw [result] at ready
        cases ready
    | ok value =>
        rw [result] at ready
        obtain rfl := Option.some.inj ready
        rfl
  have noticed :=
    notice_exact (tidy_fresh 1 { voters := [1, 2] }) (HostOp.tidy_of_bare (by decide)) done raw idle
      ready
  rw [busy] at noticed
  exact ⟨ops, host, rn, rn', rd, done, raw, ready, busy, noticed⟩

end Host

end RaftRs

import RaftRs.Log.Stored
import RaftRs.Model.RaftLog

namespace RaftRs

namespace RaftLog

/-- The term of the position before the first entry, when it is known. -/
def boundaryTerm (log : RaftLog) : Option Nat :=
  match log.unstable.snapshot with
  | some snapshot => some snapshot.metadata.term
  | none =>
      if log.store.snapshotMetadata.index + 1 = log.store.firstIndex then
        some log.store.snapshotMetadata.term
      else none

/-- The entry of an index. -/
def entryAt (log : RaftLog) (i : Nat) : Option Entry :=
  if i < log.unstable.offset then
    if log.unstable.snapshot.isSome then none else log.store.entryAt i
  else log.unstable.entries[i - log.unstable.offset]?

/-- The stored and the unstable entries join without a gap, and the commit index lies inside of
them. -/
structure WF (log : RaftLog) : Prop where
  store : log.store.WF
  contiguous : Contiguous log.unstable.offset log.unstable.entries
  snapshot : ∀ s, log.unstable.snapshot = some s → log.unstable.offset = s.metadata.index + 1
  joined : log.unstable.snapshot = none → log.store.firstIndex ≤ log.unstable.offset ∧
    log.unstable.offset ≤ log.store.lastIndex + 1 ∧
    (log.unstable.entries = [] → log.unstable.offset = log.store.lastIndex + 1)
  low : log.firstIndex ≤ log.committed + 1
  high : log.committed ≤ log.lastIndex

variable {log log' : RaftLog}

theorem WF.setHardstate (wf : log.WF) (hs : HardState) :
    WF { log with store := log.store.setHardstate hs } :=
  ⟨⟨wf.store.contiguous, wf.store.after⟩, wf.contiguous, wf.snapshot, wf.joined, wf.low, wf.high⟩

theorem firstIndex_of_snapshot {s : Snapshot} (pending : log.unstable.snapshot = some s) :
    log.firstIndex = s.metadata.index + 1 := by
  simp [firstIndex, Unstable.maybeFirstIndex, pending]

theorem firstIndex_of_none (none : log.unstable.snapshot = none) :
    log.firstIndex = log.store.firstIndex := by
  simp [firstIndex, Unstable.maybeFirstIndex, none]

theorem firstIndex_new (store : MemStorage) (limit : Nat) :
    (new store limit).firstIndex = store.firstIndex :=
  firstIndex_of_none rfl

theorem lastIndex_new (store : MemStorage) (limit : Nat) :
    (new store limit).lastIndex = store.lastIndex := rfl

theorem entryAt_new {store : MemStorage} (wf : store.WF) (limit i : Nat) :
    (new store limit).entryAt i = store.entryAt i := by
  simp only [entryAt, new, Unstable.new, Option.isSome_none, Bool.false_eq_true, if_false,
    List.getElem?_nil]
  split
  · rfl
  · rename_i beyond
    rw [eq_comm, ← Option.not_isSome_iff_eq_none, wf.entryAt_isSome]
    omega

theorem wf_new {store : MemStorage} (wf : store.WF) (limit : Nat) : (new store limit).WF := by
  have last := wf.last
  have after := wf.after
  refine ⟨wf, contiguous_nil _, nofun, ?_, ?_, ?_⟩
  · intro _
    refine ⟨?_, le_rfl, fun _ => rfl⟩
    change store.firstIndex ≤ store.lastIndex + 1
    omega
  · rw [firstIndex_new]
    change store.firstIndex ≤ store.firstIndex - 1 + 1
    omega
  · rw [lastIndex_new]
    change store.firstIndex - 1 ≤ store.lastIndex
    omega

theorem WF.first_pos (wf : log.WF) : 1 ≤ log.firstIndex := by
  cases pending : log.unstable.snapshot with
  | none =>
      rw [firstIndex_of_none pending]
      have := wf.store.after
      omega
  | some s =>
      rw [firstIndex_of_snapshot pending]
      omega

theorem WF.first_le (wf : log.WF) : log.firstIndex ≤ log.unstable.offset := by
  cases pending : log.unstable.snapshot with
  | none =>
      rw [firstIndex_of_none pending]
      exact (wf.joined pending).1
  | some s => rw [firstIndex_of_snapshot pending, wf.snapshot s pending]

theorem WF.last (wf : log.WF) :
    log.lastIndex + 1 = log.unstable.offset + log.unstable.entries.length := by
  unfold lastIndex Unstable.maybeLastIndex
  cases size : log.unstable.entries.length with
  | zero =>
      cases pending : log.unstable.snapshot with
      | none =>
          have := (wf.joined pending).2.2 (List.length_eq_zero_iff.1 size)
          simp only [Option.map_none]
          omega
      | some s =>
          have := wf.snapshot s pending
          simp only [Option.map_some]
          omega
  | succ n =>
      have positive : 1 ≤ log.unstable.offset := wf.first_pos.trans wf.first_le
      simp only
      omega

theorem WF.entryAt_isSome (wf : log.WF) {i : Nat} :
    (log.entryAt i).isSome ↔ log.firstIndex ≤ i ∧ i ≤ log.lastIndex := by
  have last := wf.last
  have first := wf.first_le
  unfold entryAt
  by_cases below : i < log.unstable.offset
  · rw [if_pos below]
    cases pending : log.unstable.snapshot with
    | none =>
        rw [firstIndex_of_none pending]
        have joined := wf.joined pending
        simp only [Option.isSome_none, Bool.false_eq_true, if_false]
        rw [wf.store.entryAt_isSome]
        omega
    | some s =>
        have offset := wf.snapshot s pending
        rw [firstIndex_of_snapshot pending]
        simp
        omega
  · rw [if_neg below, Option.isSome_iff_exists]
    constructor
    · rintro ⟨entry, present⟩
      have := (List.getElem?_eq_some_iff.1 present).1
      omega
    · rintro ⟨-, bound⟩
      exact ⟨_, List.getElem?_eq_getElem (by omega)⟩

theorem WF.exists_entry (wf : log.WF) {i : Nat} (low : log.firstIndex ≤ i) (high : i ≤ log.lastIndex) :
    ∃ entry, log.entryAt i = some entry := Option.isSome_iff_exists.1 (wf.entryAt_isSome.2 ⟨low, high⟩)

theorem WF.bounds (wf : log.WF) {i : Nat} {entry : Entry} (present : log.entryAt i = some entry) :
    log.firstIndex ≤ i ∧ i ≤ log.lastIndex := wf.entryAt_isSome.1 (Option.isSome_of_eq_some present)

theorem WF.entryAt_index (wf : log.WF) {i : Nat} {entry : Entry} (present : log.entryAt i = some entry) :
    entry.index = i := by
  unfold entryAt at present
  split at present
  · split at present
    · cases present
    · exact wf.store.entryAt_index present
  · have := wf.contiguous _ entry present
    omega

/-- The term of an entry of the log. -/
theorem WF.term_of_entryAt (wf : log.WF) {i : Nat} {entry : Entry}
    (present : log.entryAt i = some entry) :
    log.term i = .ok entry.term := by
  obtain ⟨low, high⟩ := wf.bounds present
  have last := wf.last
  unfold term
  simp only
  rw [if_neg (by omega)]
  unfold entryAt at present
  split at present
  · rename_i below
    split at present
    · cases present
    · rename_i noSnapshot
      have none : log.unstable.snapshot = none := by simpa using noSnapshot
      have unknown : log.unstable.maybeTerm i = Option.none := by
        rw [Unstable.maybeTerm, if_pos below, none]
      rw [unknown]
      exact wf.store.term_of_entryAt present
  · rename_i above
    have inside := (List.getElem?_eq_some_iff.1 present).1
    have known : log.unstable.maybeTerm i = some entry.term := by
      rw [Unstable.maybeTerm, if_neg above]
      obtain ⟨n, size⟩ : ∃ n, log.unstable.entries.length = n + 1 :=
        ⟨log.unstable.entries.length - 1, by omega⟩
      have lastUnstable : log.unstable.maybeLastIndex = some (log.unstable.offset + (n + 1) - 1) := by
        simp [Unstable.maybeLastIndex, size]
      rw [lastUnstable]
      simp only
      rw [if_neg (by omega), present]
      rfl
    rw [known]

theorem term_outside {i : Nat} (outside : i + 1 < log.firstIndex ∨ log.lastIndex < i) :
    log.term i = .ok 0 := by
  unfold term
  simp only
  rw [if_pos (by omega)]

/-- The position before the first entry has the boundary term. -/
theorem WF.term_boundary (wf : log.WF) {i : Nat} (boundary : i + 1 = log.firstIndex) :
    log.term i = match log.boundaryTerm with
      | some term => .ok term
      | none => .error .compacted := by
  have last := wf.last
  have first := wf.first_le
  unfold term
  simp only
  rw [if_neg (by omega)]
  cases pending : log.unstable.snapshot with
  | some s =>
      have known : log.unstable.maybeTerm i = some s.metadata.term := by
        rw [firstIndex_of_snapshot pending] at boundary first
        rw [Unstable.maybeTerm, if_pos (by omega), pending]
        simp only
        rw [if_pos (by omega)]
      rw [known]
      simp [boundaryTerm, pending]
  | none =>
      have unknown : log.unstable.maybeTerm i = none := by
        rw [Unstable.maybeTerm, if_pos (by omega), pending]
      have dummy : i = log.store.firstIndex - 1 := by
        rw [firstIndex_of_none pending] at boundary
        omega
      rw [unknown, dummy]
      simp only
      rw [wf.store.term_boundary]
      simp only [boundaryTerm, pending]
      split <;> simp_all

/-- A position matches a term when its entry has it, when it is the boundary or when it lies
outside. -/
theorem WF.matchTerm_iff (wf : log.WF) {i t : Nat} :
    log.matchTerm i t = true ↔ (∃ entry, log.entryAt i = some entry ∧ entry.term = t) ∨
      (i + 1 = log.firstIndex ∧ log.boundaryTerm = some t) ∨
      (t = 0 ∧ (i + 1 < log.firstIndex ∨ log.lastIndex < i)) := by
  unfold matchTerm
  rcases Nat.lt_trichotomy (i + 1) log.firstIndex with below | boundary | inside
  · rw [term_outside (Or.inl below)]
    constructor
    · intro same
      exact Or.inr (Or.inr ⟨(beq_iff_eq.1 same).symm, Or.inl below⟩)
    · rintro (⟨entry, present, -⟩ | ⟨boundary, -⟩ | ⟨rfl, -⟩)
      · have := wf.bounds present
        omega
      · omega
      · rfl
  · have high := wf.last
    have first := wf.first_le
    rw [wf.term_boundary boundary]
    constructor
    · intro same
      cases known : log.boundaryTerm with
      | none => simp [known] at same
      | some term =>
          simp only [known, beq_iff_eq] at same
          exact Or.inr (Or.inl ⟨boundary, by rw [same]⟩)
    · rintro (⟨entry, present, -⟩ | ⟨-, known⟩ | ⟨rfl, outside⟩)
      · have := wf.bounds present
        omega
      · simp [known]
      · omega
  · rcases Nat.lt_or_ge log.lastIndex i with beyond | within
    · rw [term_outside (Or.inr beyond)]
      constructor
      · intro same
        exact Or.inr (Or.inr ⟨(beq_iff_eq.1 same).symm, Or.inr beyond⟩)
      · rintro (⟨entry, present, -⟩ | ⟨boundary, -⟩ | ⟨rfl, -⟩)
        · have := wf.bounds present
          omega
        · omega
        · rfl
    · obtain ⟨entry, present⟩ := wf.exists_entry (by omega) within
      rw [wf.term_of_entryAt present]
      simp only [beq_iff_eq, present, Option.some.injEq]
      constructor
      · intro same
        exact Or.inl ⟨entry, rfl, same⟩
      · rintro (⟨other, rfl, same⟩ | ⟨boundary, -⟩ | ⟨-, outside⟩)
        · exact same
        · omega
        · omega

/-- Compaction of committed and stored entries keeps the shape of the log. -/
theorem WF.compact (wf : log.WF) {index : Nat} {store : MemStorage}
    (committed : index ≤ log.committed + 1) (stored : index ≤ log.store.lastIndex)
    (settled : log.unstable.snapshot = none → index ≤ log.unstable.offset)
    (done : log.store.compact index = .ok store) (same : log' = { log with store }) :
    log'.WF ∧ log'.lastIndex = log.lastIndex ∧
      (∀ s, log.unstable.snapshot = some s → log'.firstIndex = log.firstIndex) ∧
      (log.unstable.snapshot = none → log'.firstIndex = max log.firstIndex index) ∧
      ∀ i, log'.firstIndex ≤ i → log'.entryAt i = log.entryAt i := by
  subst same
  obtain ⟨storeWf, storeFirst, storeLast, -, -, kept⟩ := wf.store.compact stored done
  have sameLast : ({ log with store } : RaftLog).lastIndex = log.lastIndex := by
    simp only [lastIndex, storeLast]
  have low := wf.low
  have high := wf.high
  cases pending : log.unstable.snapshot with
  | some s =>
      have sameFirst : ({ log with store } : RaftLog).firstIndex = log.firstIndex := by
        simp [firstIndex, Unstable.maybeFirstIndex, pending]
      refine ⟨⟨storeWf, wf.contiguous, wf.snapshot, ?_, sameFirst ▸ low, sameLast ▸ high⟩, sameLast,
        fun _ _ => sameFirst, nofun, fun i _ => ?_⟩
      · intro none
        cases pending.symm.trans none
      · simp [entryAt, pending]
  | none =>
      have newFirst : ({ log with store } : RaftLog).firstIndex = max log.firstIndex index := by
        rw [firstIndex_of_none pending]
        simp [firstIndex, Unstable.maybeFirstIndex, pending, storeFirst]
      obtain ⟨joined, reach, whenEmpty⟩ := wf.joined pending
      have below := settled pending
      refine ⟨⟨storeWf, wf.contiguous, wf.snapshot, fun _ => ⟨?_, ?_, fun empty => ?_⟩, ?_,
        sameLast ▸ high⟩, sameLast, nofun, fun _ => newFirst, fun i inside => ?_⟩
      · rw [storeFirst]
        exact max_le joined below
      · rw [storeLast]
        exact reach
      · rw [storeLast]
        exact whenEmpty empty
      · rw [newFirst]
        exact max_le low committed
      · rw [newFirst, firstIndex_of_none pending, ← storeFirst] at inside
        simp only [entryAt, pending, kept i inside]

end RaftLog

end RaftRs

import RaftRs.Log.Contiguous

namespace RaftRs

namespace MemStorage

/-- The entries of a storage are contiguous and follow its snapshot. -/
structure WF (store : MemStorage) : Prop where
  contiguous : Contiguous store.firstIndex store.entries
  after : store.snapshotMetadata.index < store.firstIndex

/-- The stored entry of an index. -/
def entryAt (store : MemStorage) (i : Nat) : Option Entry :=
  if i < store.firstIndex then none else store.entries[i - store.firstIndex]?

variable {store store' : MemStorage}

theorem firstIndex_of_head {entry : Entry} (head : store.entries.head? = some entry) :
    store.firstIndex = entry.index := by
  simp [firstIndex, head]

theorem WF.last (wf : store.WF) : store.lastIndex + 1 = store.firstIndex + store.entries.length := by
  unfold lastIndex
  split
  · rename_i entry last
    exact wf.contiguous.last last
  · rename_i none
    rw [List.getLast?_eq_none_iff] at none
    simp [firstIndex, none]

theorem WF.entryAt_isSome (wf : store.WF) {i : Nat} :
    (store.entryAt i).isSome ↔ store.firstIndex ≤ i ∧ i ≤ store.lastIndex := by
  have last := wf.last
  unfold entryAt
  split
  · simp
    omega
  · rw [Option.isSome_iff_exists]
    constructor
    · rintro ⟨entry, present⟩
      have := (List.getElem?_eq_some_iff.1 present).1
      omega
    · rintro ⟨low, high⟩
      exact ⟨_, List.getElem?_eq_getElem (by omega)⟩

theorem WF.entryAt_index (wf : store.WF) {i : Nat} {entry : Entry}
    (present : store.entryAt i = some entry) :
    entry.index = i := by
  unfold entryAt at present
  split at present
  · cases present
  · have := wf.contiguous _ entry present
    omega

/-- The term of a stored entry. -/
theorem WF.term_of_entryAt (wf : store.WF) {i : Nat} {entry : Entry}
    (present : store.entryAt i = some entry) :
    store.term i = .ok entry.term := by
  obtain ⟨low, high⟩ := wf.entryAt_isSome.1 (Option.isSome_of_eq_some present)
  have after := wf.after
  unfold entryAt at present
  rw [if_neg (by omega)] at present
  unfold term
  rw [if_neg (by omega), if_neg (by omega), if_neg (by omega), present]

/-- The position before the first entry has a term only at the snapshot. -/
theorem WF.term_boundary (wf : store.WF) :
    store.term (store.firstIndex - 1) = if store.snapshotMetadata.index + 1 = store.firstIndex then
      .ok store.snapshotMetadata.term else .error .compacted := by
  have after := wf.after
  unfold term
  by_cases boundary : store.snapshotMetadata.index + 1 = store.firstIndex
  · rw [if_pos (by omega), if_pos boundary]
  · rw [if_neg (by omega), if_pos (by omega), if_neg boundary]

theorem WF.append (wf : store.WF) {first : Nat} {ents : List Entry} (nonempty : ents ≠ [])
    (contiguous : Contiguous first ents) (done : store.append ents = .ok store') :
    store'.WF ∧ store'.firstIndex = store.firstIndex ∧ store.firstIndex ≤ first ∧
      first ≤ store.lastIndex + 1 ∧ store'.lastIndex + 1 = first + ents.length ∧
      store'.snapshotMetadata = store.snapshotMetadata ∧ store'.raftState = store.raftState ∧
      ∀ i, store'.entryAt i = if i < first then store.entryAt i else ents[i - first]? := by
  obtain ⟨entry, rest, rfl⟩ := List.exists_cons_of_ne_nil nonempty
  have index := (contiguous_cons.1 contiguous).1
  have last := wf.last
  simp only [MemStorage.append, index] at done
  split at done
  · cases done
  split at done
  · cases done
  rename_i low high
  simp only [Except.ok.injEq] at done
  subst done
  have kept : (store.entries.take (first - store.firstIndex)).length = first - store.firstIndex := by
    rw [List.length_take]
    omega
  have sameFirst : firstIndex { store with
      entries := store.entries.take (first - store.firstIndex) ++ entry :: rest } =
        store.firstIndex := by
    rcases Nat.eq_zero_or_pos (first - store.firstIndex) with zero | positive
    · rw [firstIndex_of_head (by rw [zero, List.take_zero]; rfl), index]
      omega
    · cases found : store.entries with
      | nil =>
          rw [found, List.length_nil] at last
          omega
      | cons head tail =>
          obtain ⟨n, size⟩ : ∃ n, first - store.firstIndex = n + 1 :=
            ⟨first - store.firstIndex - 1, by omega⟩
          rw [firstIndex_of_head (by rw [size]; rfl), firstIndex_of_head (by rw [found]; rfl)]
  have wf' : WF { store with
      entries := store.entries.take (first - store.firstIndex) ++ entry :: rest } := by
    refine ⟨?_, ?_⟩
    · rw [sameFirst]
      apply (wf.contiguous.take _).append
      rw [kept, show store.firstIndex + (first - store.firstIndex) = first by omega]
      exact contiguous
    · rw [sameFirst]
      exact wf.after
  refine ⟨wf', sameFirst, by omega, by omega, ?_, rfl, rfl, fun i => ?_⟩
  · rw [wf'.last, sameFirst, List.length_append, kept]
    omega
  · simp only [entryAt, sameFirst]
    by_cases below : i < store.firstIndex
    · rw [if_pos below, if_pos (by omega), if_pos below]
    · rw [if_neg below, if_neg below]
      split
      · rename_i inside
        rw [List.getElem?_append_left (by omega), List.getElem?_take_of_lt (by omega)]
      · rename_i outside
        rw [List.getElem?_append_right (by omega), kept]
        congr 1
        omega

/-- Compaction drops a beginning of the stored entries and keeps at least one. -/
theorem WF.compact (wf : store.WF) {index : Nat} (stored : index ≤ store.lastIndex)
    (done : store.compact index = .ok store') :
    store'.WF ∧ store'.firstIndex = max store.firstIndex index ∧ store'.lastIndex = store.lastIndex ∧
      store'.snapshotMetadata = store.snapshotMetadata ∧ store'.raftState = store.raftState ∧
      ∀ i, store'.firstIndex ≤ i → store'.entryAt i = store.entryAt i := by
  have last := wf.last
  have after := wf.after
  unfold MemStorage.compact at done
  split at done
  · rename_i low
    cases done
    exact ⟨wf, (max_eq_left low).symm, rfl, rfl, rfl, fun _ _ => rfl⟩
  split at done
  · cases done
  rename_i high _
  simp only [Except.ok.injEq] at done
  subst done
  obtain ⟨entry, rest, shape⟩ : ∃ entry rest, store.entries.drop (index - store.firstIndex) =
    entry :: rest := by
    apply List.exists_cons_of_ne_nil
    intro empty
    rw [List.drop_eq_nil_iff] at empty
    omega
  have contiguous := wf.contiguous.drop (index - store.firstIndex)
  rw [show store.firstIndex + (index - store.firstIndex) = index by omega] at contiguous
  have newFirst : firstIndex { store with
      entries := store.entries.drop (index - store.firstIndex) } = index := by
    rw [shape] at contiguous
    rw [firstIndex_of_head (by rw [shape]; rfl)]
    exact (contiguous_cons.1 contiguous).1
  have wf' : WF { store with entries := store.entries.drop (index - store.firstIndex) } := by
    refine ⟨?_, ?_⟩
    · rw [newFirst]
      exact contiguous
    · rw [newFirst]
      change store.snapshotMetadata.index < index
      omega
  refine ⟨wf', ?_, ?_, rfl, rfl, fun i inside => ?_⟩
  · rw [newFirst]
    omega
  · have last' := wf'.last
    rw [newFirst, List.length_drop] at last'
    omega
  · rw [newFirst] at inside
    simp only [entryAt, newFirst]
    rw [if_neg (by omega), if_neg (by omega), List.getElem?_drop]
    congr 1
    omega

theorem compact_total {index : Nat} (stored : index ≤ store.lastIndex) :
    ∃ store', store.compact index = .ok store' := by
  unfold MemStorage.compact
  split
  · exact ⟨store, rfl⟩
  · rw [if_neg (by omega)]
    exact ⟨_, rfl⟩

/-- An applied snapshot leaves only its position. -/
theorem WF.applySnapshot {snapshot : Snapshot} (done : store.applySnapshot snapshot = .ok store') :
    store'.WF ∧ store'.firstIndex = snapshot.metadata.index + 1 ∧
      store'.lastIndex = snapshot.metadata.index ∧
      store'.snapshotMetadata = snapshot.metadata ∧ store'.entries = [] := by
  unfold MemStorage.applySnapshot at done
  simp only at done
  split at done
  · cases done
  · simp only [Except.ok.injEq] at done
    subst done
    exact ⟨⟨by simp, by simp [firstIndex]⟩, rfl, rfl, rfl, rfl⟩

end MemStorage

end RaftRs

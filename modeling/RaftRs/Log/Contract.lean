import RaftRs.Log.Stored

namespace RaftRs

namespace MemStorage

/-- A call that changes the log of a storage. -/
inductive Call where
  | append (ents : List Entry)
  | compact (index : Nat)
  | applySnapshot (snapshot : Snapshot)
deriving DecidableEq, Repr

namespace Call

/-- A call runs the operation of the storage; a panic or an error gives no result. -/
def perform (store : MemStorage) : Call → Option MemStorage
  | .append ents => (store.append ents).toOption
  | .compact index => (store.compact index).toOption
  | .applySnapshot snapshot => (store.applySnapshot snapshot).toOption

/-- A call stays within the documented bounds of its operation. -/
def Admissible (store : MemStorage) : Call → Prop
  | .append [] => True
  | .append (first :: rest) =>
      Contiguous first.index (first :: rest) ∧ store.firstIndex ≤ first.index ∧
        first.index ≤ store.lastIndex + 1
  | .compact index => index ≤ store.lastIndex + 1
  | .applySnapshot snapshot => store.firstIndex ≤ snapshot.metadata.index

/-- What a call promises about the indexes and the entries of the storage. -/
def Lawful (store store' : MemStorage) : Call → Prop
  | .append [] => store' = store
  | .append (first :: rest) =>
      store'.firstIndex = store.firstIndex ∧ store'.lastIndex = first.index + rest.length ∧
        (∀ i < first.index, store'.entryAt i = store.entryAt i) ∧ (first :: rest) <:+ store'.entries
  | .compact index =>
      store'.firstIndex = max store.firstIndex index ∧ store'.lastIndex = store.lastIndex ∧
        ∀ i, index ≤ i → store'.entryAt i = store.entryAt i
  | .applySnapshot snapshot =>
      store'.firstIndex = snapshot.metadata.index + 1 ∧ store'.lastIndex = snapshot.metadata.index

/-- A compaction just past the last entry empties a storage that had entries. -/
def Empties (store : MemStorage) : Call → Prop
  | .compact index => store.entries ≠ [] ∧ index = store.lastIndex + 1
  | _ => False

end Call

/-- The storages that admissible calls reach from a first one. -/
inductive Called (start : MemStorage) : MemStorage → Prop
  | start : Called start start
  | call {store store' : MemStorage} {call : Call} (called : Called start store)
      (admissible : call.Admissible store) (done : call.perform store = some store') :
      Called start store'

variable {start store store' : MemStorage}

theorem WF.compact_all (wf : store.WF) (stored : store.entries ≠ []) :
    store.compact (store.lastIndex + 1) = .ok { store with entries := [] } := by
  have last := wf.last
  have positive := List.length_pos_iff.2 stored
  unfold MemStorage.compact
  rw [if_neg (by omega), if_neg (by omega), List.drop_eq_nil_of_le (by omega)]

/-- An admissible compaction succeeds, keeps the storage well formed and is lawful unless it empties
the storage. -/
theorem WF.call_compact (wf : store.WF) {index : Nat} (admissible : index ≤ store.lastIndex + 1) :
    ∃ store', store.compact index = .ok store' ∧ store'.WF ∧
      ((Call.compact index).Lawful store store' ↔ ¬ (Call.compact index).Empties store) := by
  have last := wf.last
  have after := wf.after
  by_cases empties : (Call.compact index).Empties store
  · obtain ⟨stored, rfl⟩ := empties
    refine ⟨_, wf.compact_all stored, ⟨by simp, Nat.lt_succ_self _⟩, ?_⟩
    refine iff_of_false (fun lawful => ?_) (fun kept => kept ⟨stored, rfl⟩)
    -- the new first index is the one after the snapshot, below every entry that was stored
    have first : store.snapshotMetadata.index + 1 = max store.firstIndex (store.lastIndex + 1) :=
      lawful.1
    have positive := List.length_pos_iff.2 stored
    omega
  · by_cases low : index ≤ store.firstIndex
    · have done : store.compact index = .ok store := by
        unfold MemStorage.compact
        rw [if_pos low]
      exact ⟨store, done, wf, iff_of_true ⟨(max_eq_left low).symm, rfl, fun _ _ => rfl⟩ empties⟩
    · have stored : index ≤ store.lastIndex := by
        by_contra past
        refine empties ⟨fun none => ?_, by omega⟩
        rw [none, List.length_nil] at last
        omega
      obtain ⟨store', done⟩ := compact_total stored
      obtain ⟨wf', first, sameLast, _, _, same⟩ := wf.compact stored done
      refine ⟨store', done, wf', iff_of_true ⟨first, sameLast, fun i inside => same i ?_⟩ empties⟩
      rw [first]
      omega

theorem WF.call_append (wf : store.WF) {ents : List Entry}
    (admissible : (Call.append ents).Admissible store) :
    ∃ store', store.append ents = .ok store' ∧ store'.WF ∧ (Call.append ents).Lawful store store' := by
  cases ents with
  | nil => exact ⟨store, rfl, wf, rfl⟩
  | cons first rest =>
      obtain ⟨contiguous, low, high⟩ := admissible
      have done : store.append (first :: rest) =
          .ok { store with
            entries := store.entries.take (first.index - store.firstIndex) ++ first :: rest } := by
        simp only [MemStorage.append]
        rw [if_neg (by omega), if_neg (by omega)]
      obtain ⟨wf', sameFirst, _, _, newLast, _, _, shows⟩ :=
        wf.append (List.cons_ne_nil _ _) contiguous done
      rw [List.length_cons] at newLast
      refine ⟨_, done, wf', sameFirst, by omega, fun i below => ?_, List.suffix_append _ _⟩
      rw [shows, if_pos below]

theorem call_applySnapshot {snapshot : Snapshot}
    (admissible : store.firstIndex ≤ snapshot.metadata.index) :
    ∃ store', store.applySnapshot snapshot = .ok store' ∧ store'.WF ∧
      (Call.applySnapshot snapshot).Lawful store store' := by
  obtain ⟨store', done⟩ : ∃ store', store.applySnapshot snapshot = .ok store' := by
    unfold MemStorage.applySnapshot
    simp only
    rw [if_neg (by omega)]
    exact ⟨_, rfl⟩
  obtain ⟨wf', first, last, _⟩ := WF.applySnapshot done
  exact ⟨store', done, wf', first, last⟩

/-- An admissible call succeeds, keeps the storage well formed and is lawful unless it empties the
storage. -/
theorem WF.call (wf : store.WF) {call : Call} (admissible : call.Admissible store) :
    ∃ store', call.perform store = some store' ∧ store'.WF ∧
      (call.Lawful store store' ↔ ¬ call.Empties store) := by
  cases call with
  | append ents =>
      obtain ⟨store', done, wf', lawful⟩ := wf.call_append admissible
      exact ⟨store', by rw [Call.perform, done]; rfl, wf', iff_of_true lawful id⟩
  | compact index =>
      obtain ⟨store', done, wf', lawful⟩ := wf.call_compact admissible
      exact ⟨store', by rw [Call.perform, done]; rfl, wf', lawful⟩
  | applySnapshot snapshot =>
      obtain ⟨store', done, wf', lawful⟩ := call_applySnapshot admissible
      exact ⟨store', by rw [Call.perform, done]; rfl, wf', iff_of_true lawful id⟩

/-- Every storage that admissible calls reach is well formed. -/
theorem Called.wf (wf : start.WF) (called : Called start store) : store.WF := by
  induction called with
  | start => exact wf
  | call called admissible done ih =>
      obtain ⟨next, performed, wf', _⟩ := ih.call admissible
      rw [done] at performed
      cases performed
      exact wf'

/-- After any admissible calls the entries are contiguous and the next call is lawful unless it
empties the storage. -/
theorem called_contract (wf : start.WF) (called : Called start store) :
    Contiguous store.firstIndex store.entries ∧ ∀ call : Call, call.Admissible store →
      ∃ store', call.perform store = some store' ∧
        (call.Lawful store store' ↔ ¬ call.Empties store) := by
  have reached := called.wf wf
  refine ⟨reached.contiguous, fun call admissible => ?_⟩
  obtain ⟨store', done, _, lawful⟩ := reached.call admissible
  exact ⟨store', done, lawful⟩

theorem wf_newWithConfState (confState : ConfState) : (newWithConfState confState).WF :=
  ⟨by simp [newWithConfState], Nat.lt_succ_self _⟩

/-- Three appended entries are compacted to the second one and replaced by a snapshot, and every
call is lawful. -/
theorem called_contract_calls :
    let ents : List Entry := [1, 2, 3].map fun index => { index, term := 1 }
    let snapshot : Snapshot := { metadata := { index := 5, term := 2 } }
    ∃ appended compacted restored, Called (newWithConfState {}) restored ∧
      (Call.append ents).perform (newWithConfState {}) = some appended ∧
      (Call.append ents).Lawful (newWithConfState {}) appended ∧
      (Call.compact 2).perform appended = some compacted ∧ (Call.compact 2).Lawful appended compacted ∧
      (Call.applySnapshot snapshot).perform compacted = some restored ∧
      (Call.applySnapshot snapshot).Lawful compacted restored ∧
        Contiguous restored.firstIndex restored.entries := by
  intro ents snapshot
  have wf := wf_newWithConfState {}
  have append : (Call.append ents).Admissible (newWithConfState {}) :=
    ⟨by simp [contiguous_cons], by decide, by decide⟩
  obtain ⟨appended, first, law⟩ := (called_contract wf .start).2 _ append
  have lawful := law.2 not_false
  have called := Called.call .start append first
  have last : appended.lastIndex = 3 := lawful.2.1
  have low : appended.firstIndex = 1 := lawful.1
  have compact : (Call.compact 2).Admissible appended := by
    change 2 ≤ appended.lastIndex + 1
    omega
  obtain ⟨compacted, second, law'⟩ := (called_contract wf called).2 _ compact
  have lawful' := law'.2 fun empties => by
    have past := empties.2
    omega
  have called := called.call compact second
  have restore : (Call.applySnapshot snapshot).Admissible compacted := by
    change compacted.firstIndex ≤ 5
    rw [lawful'.1, low]
    decide
  obtain ⟨restored, third, law''⟩ := (called_contract wf called).2 _ restore
  have called := called.call restore third
  exact ⟨appended, compacted, restored, called, first, lawful, second, lawful', third,
    law''.2 not_false, (called_contract wf called).1⟩

/-- Compacting five entries up to the end moves both indexes back to the position before them. -/
theorem compact_all_moves_back :
    ∃ store store' : MemStorage, Called (newWithConfState {}) store ∧ store.firstIndex = 1 ∧
      store.lastIndex = 5 ∧
      (Call.compact 6).Admissible store ∧ (Call.compact 6).perform store = some store' ∧
      store'.firstIndex = 1 ∧ store'.lastIndex = 0 ∧ ¬ (Call.compact 6).Lawful store store' := by
  let ents : List Entry := [1, 2, 3, 4, 5].map fun index => { index, term := 1 }
  have admissible : (Call.append ents).Admissible (newWithConfState {}) := by
    refine ⟨fun k entry found => ?_, by decide, by decide⟩
    have bound := (List.getElem?_eq_some_iff.1 found).1
    have cases : k = 0 ∨ k = 1 ∨ k = 2 ∨ k = 3 ∨ k = 4 := by
      change k < 5 at bound
      omega
    rcases cases with rfl | rfl | rfl | rfl | rfl <;> cases found <;> rfl
  refine ⟨{ (newWithConfState {}) with entries := ents }, newWithConfState {},
    .call .start admissible rfl, rfl, rfl, ?_, rfl, rfl, rfl, fun lawful => absurd lawful.1 (by decide)⟩
  exact Nat.le_refl 6

end MemStorage

end RaftRs

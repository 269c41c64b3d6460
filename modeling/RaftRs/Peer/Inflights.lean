import RaftRs.Library.Fallible
import RaftRs.Library.Ring
import RaftRs.Model.Progress

namespace RaftRs

open Library

/-- A plain queue of message indexes with a limit on its length. -/
structure BoundedQueue where
  items : List Nat
  limit : Nat

/-- The longest beginning of items up to an index leaves the queue. -/
def BoundedQueue.freeTo (queue : BoundedQueue) (toIdx : Nat) : BoundedQueue :=
  { queue with items := queue.items.dropWhile fun item => decide (item ≤ toIdx) }

namespace Inflights

/-- The capacity that bounds the window: a pending smaller one or the current one. -/
def limit (ins : Inflights) : Nat := ins.incomingCap.getD ins.cap

/-- The window holds items in its ring buffer and waits for a smaller capacity only while it holds
some. -/
structure Holds (ins : Inflights) (items : List Nat) : Prop where
  ring : Ring ins.buffer ins.cap ins.start items
  size : items.length = ins.count
  pending : ∀ cap, ins.incomingCap = some cap → cap < ins.cap ∧ 0 < ins.count
  unallocated : ins.allocated = false → ins.count = 0 ∧ ins.start = 0 ∧ ins.incomingCap = none

variable {ins ins' : Inflights} {items : List Nat}

theorem holds_new (cap : Nat) : (new cap).Holds [] :=
  ⟨Ring.empty cap, rfl, fun _ pending => (by cases pending), fun _ => ⟨rfl, rfl, rfl⟩⟩

theorem Holds.full_iff (holds : ins.Holds items) : ins.full = true ↔ ins.limit ≤ ins.count := by
  have fits := holds.ring.fits
  rw [holds.size] at fits
  unfold full limit
  cases waiting : ins.incomingCap with
  | none =>
      simp only [Bool.or_false, beq_iff_eq, Option.getD_none]
      omega
  | some cap =>
      have smaller := (holds.pending cap waiting).1
      simp only [Bool.or_eq_true, beq_iff_eq, decide_eq_true_iff, Option.getD_some]
      omega

/-- A window with room takes a message at its end. -/
theorem Holds.add (holds : ins.Holds items) (room : ins.full = false) (inflight : Nat) :
    ∃ ins', ins.add inflight = .ok ins' ∧ ins'.Holds (items ++ [inflight]) ∧ ins'.limit = ins.limit := by
  have fits := holds.ring.fits
  have below : ins.count < ins.cap := by
    have open' : ins.count ≠ ins.cap := by
      intro equal
      simp [full, equal] at room
    rw [holds.size] at fits
    omega
  have room' : items.length < ins.cap := holds.size ▸ below
  have next := holds.ring.next_le room'
  have pushed := holds.ring.push room' inflight
  rw [holds.size] at next pushed
  have asserted : (!ins.allocated && (ins.count ≠ 0 || ins.start ≠ 0 || ins.incomingCap.isSome)) =
      false := by
    cases allocated : ins.allocated with
    | true => rfl
    | false =>
        obtain ⟨count, start, pending⟩ := holds.unallocated allocated
        simp [count, start, pending]
  have kept : ∀ cap, ins.incomingCap = some cap → cap < ins.cap ∧ 0 < ins.count + 1 := fun cap waiting =>
    ⟨(holds.pending cap waiting).1, Nat.succ_pos _⟩
  have size : (items ++ [inflight]).length = ins.count + 1 := by rw [List.length_append, holds.size]; rfl
  unfold Inflights.add
  rw [if_neg (by rw [room]; exact Bool.false_ne_true),
    if_neg (by rw [asserted]; exact Bool.false_ne_true)]
  simp only [Ring.wrap_eq holds.ring.begins below.le]
  rw [if_neg (by omega)]
  split
  next last =>
    rw [if_pos last] at pushed
    exact ⟨_, rfl, ⟨pushed, size, kept, fun absent => (by cases absent)⟩, rfl⟩
  next inside =>
    rw [if_neg inside] at pushed
    exact ⟨_, rfl, ⟨pushed, size, kept, fun absent => (by cases absent)⟩, rfl⟩

theorem freeLoop_eq (ins : Inflights) (toIdx : Nat) {idx freed : Nat}
    (ring : Ring ins.buffer ins.cap idx items) :
    ∃ idx', ins.freeLoop toIdx items.length idx freed =
        .ok (freed + (items.takeWhile fun item => decide (item ≤ toIdx)).length, idx') ∧
      Ring ins.buffer ins.cap idx' (items.dropWhile fun item => decide (item ≤ toIdx)) := by
  induction items generalizing idx freed with
  | nil => exact ⟨idx, rfl, ring⟩
  | cons item rest ih =>
      have positive : 1 ≤ ins.cap := (Nat.succ_le_succ (Nat.zero_le _)).trans ring.fits
      rw [List.length_cons, freeLoop, ring.head]
      simp only
      by_cases larger : toIdx < item
      · have stays : decide (item ≤ toIdx) = false := decide_eq_false (by omega)
        simp only [if_pos larger, List.takeWhile_cons, List.dropWhile_cons, stays,
          Bool.false_eq_true, if_false]
        exact ⟨idx, rfl, ring⟩
      · have leaves : decide (item ≤ toIdx) = true := decide_eq_true (by omega)
        have after := ring.drop (n := 1) (Nat.succ_le_succ (Nat.zero_le _))
        rw [← Ring.wrap_eq ring.begins positive] at after
        obtain ⟨idx', done, shown⟩ : ∃ idx', ins.freeLoop toIdx rest.length _ (freed + 1) =
          .ok (_, idx') ∧ _ := ih after
        simp only [if_neg larger, List.takeWhile_cons, List.dropWhile_cons, leaves, if_true, done,
          List.length_cons]
        refine ⟨idx', ?_, shown⟩
        congr 2
        omega

/-- What a release leaves: an emptied window takes a pending capacity, any other one moves its
start. -/
def release (ins : Inflights) (count idx : Nat) : Inflights :=
  match count, ins.incomingCap with
  | 0, some incomingCap =>
      { start := 0, count := 0, buffer := [], allocated := decide (incomingCap > 0), cap := incomingCap }
  | count, _ => { ins with count, start := idx }

theorem release_eq {count idx : Nat} (kept : count ≠ 0 ∨ ins.incomingCap = none) :
    ins.release count idx = { ins with count, start := idx } := by
  unfold release
  split
  next waiting => simp [waiting] at kept
  next => rfl

theorem release_zero {idx cap : Nat} (waiting : ins.incomingCap = some cap) :
    ins.release 0 idx = { start := 0, count := 0, buffer := [], allocated := decide (cap > 0),
                          cap } := by
  simp only [release, waiting]

/-- A released window holds the remaining items under the same limit. -/
theorem Holds.release (holds : ins.Holds items) (some : items ≠ []) {idx : Nat} {remaining : List Nat}
    (ring : Ring ins.buffer ins.cap idx remaining) :
    (ins.release remaining.length idx).Holds remaining ∧
      (ins.release remaining.length idx).limit = ins.limit := by
  have positive : 0 < ins.count := holds.size ▸ List.length_pos_iff.2 some
  by_cases kept : remaining.length ≠ 0 ∨ ins.incomingCap = none
  · rw [release_eq kept]
    refine ⟨⟨ring, rfl, fun cap pending => ⟨(holds.pending cap pending).1, ?_⟩, fun absent => ?_⟩, rfl⟩
    · refine Nat.pos_of_ne_zero (kept.resolve_right fun none => ?_)
      cases none.symm.trans pending
    · exact absurd (holds.unallocated absent).1 positive.ne'
  · push Not at kept
    obtain ⟨cap, waiting⟩ := Option.ne_none_iff_exists'.1 kept.2
    obtain rfl := List.length_eq_zero_iff.1 kept.1
    rw [List.length_nil, release_zero waiting]
    refine ⟨⟨Ring.empty cap, rfl, fun _ pending => (by cases pending), fun _ => ⟨rfl, rfl, rfl⟩⟩, ?_⟩
    rw [limit, limit, waiting]
    rfl

/-- A release drops the longest beginning of items up to an index. -/
theorem Holds.freeTo (holds : ins.Holds items) (toIdx : Nat) :
    ∃ ins', ins.freeTo toIdx = .ok ins' ∧
      ins'.Holds (items.dropWhile fun item => decide (item ≤ toIdx)) ∧ ins'.limit = ins.limit := by
  have size := holds.size
  unfold Inflights.freeTo
  cases items with
  | nil =>
      have none : ins.count = 0 := size.symm
      rw [if_pos none]
      exact ⟨ins, rfl, holds, rfl⟩
  | cons item rest =>
      have counted : ins.count ≠ 0 := by
        rw [← size]
        exact Nat.succ_ne_zero _
      rw [if_neg counted, holds.ring.head]
      simp only
      by_cases larger : toIdx < item
      · have stays : decide (item ≤ toIdx) = false := decide_eq_false (by omega)
        simp only [if_pos larger, List.dropWhile_cons, stays, Bool.false_eq_true, if_false]
        exact ⟨ins, rfl, holds, rfl⟩
      · obtain ⟨idx, done, shown⟩ : ∃ idx, ins.freeLoop toIdx (item :: rest).length ins.start 0 =
          .ok (_, idx) ∧ _ :=
          ins.freeLoop_eq toIdx holds.ring
        -- The freed and the remaining items make up the window.
        have parts := congrArg List.length
          (List.takeWhile_append_dropWhile (p := fun item => decide (item ≤ toIdx)) (l := item :: rest))
        rw [List.length_append] at parts
        have left : (item :: rest).length -
            (0 + ((item :: rest).takeWhile fun item => decide (item ≤ toIdx)).length) =
              ((item :: rest).dropWhile fun item => decide (item ≤ toIdx)).length := by omega
        obtain ⟨holds', same⟩ := holds.release (List.cons_ne_nil _ _) shown
        refine ⟨_, ?_, holds', same⟩
        rw [if_neg larger, ← size, done, ok_bind]
        simp only [left, Inflights.release]
        generalize ((item :: rest).dropWhile fun item => decide (item ≤ toIdx)).length = count
        cases count <;> cases ins.incomingCap <;> rfl

/-- The release of the first message drops it with the following ones that are not larger. -/
theorem Holds.freeFirstOne {item : Nat} {rest : List Nat} (holds : ins.Holds (item :: rest)) :
    ∃ ins', ins.freeFirstOne = .ok ins' ∧
      ins'.Holds ((item :: rest).dropWhile fun other => decide (other ≤ item)) ∧
        ins'.limit = ins.limit := by
  have positive : ins.count > 0 := holds.size ▸ Nat.succ_pos _
  unfold Inflights.freeFirstOne
  rw [if_pos positive, holds.ring.head]
  exact holds.freeTo item

theorem holds_reset (ins : Inflights) : ins.reset.Holds [] ∧ ins.reset.limit = ins.limit :=
  ⟨⟨Ring.empty _, rfl, fun _ pending => (by cases pending), fun _ => ⟨rfl, rfl, rfl⟩⟩, rfl⟩

theorem Holds.maybeFreeBuffer (holds : ins.Holds items) :
    ins.maybeFreeBuffer.Holds items ∧ ins.maybeFreeBuffer.limit = ins.limit := by
  unfold Inflights.maybeFreeBuffer
  split
  next none =>
    have empty : items = [] := List.length_eq_zero_iff.1 (holds.size.trans none)
    have settled : ins.incomingCap = Option.none := by
      cases waiting : ins.incomingCap with
      | none => rfl
      | some cap => exact absurd none (holds.pending cap waiting).2.ne'
    subst empty
    exact ⟨⟨Ring.empty _, none.symm, holds.pending, fun _ => ⟨none, rfl, settled⟩⟩, rfl⟩
  next => exact ⟨holds, rfl⟩

theorem Holds.setCap (holds : ins.Holds items) (cap : Nat) :
    ∃ ins', ins.setCap cap = .ok ins' ∧ ins'.Holds items ∧ ins'.limit = cap := by
  have size := holds.size
  unfold Inflights.setCap
  by_cases equal : ins.cap = cap
  · rw [if_pos equal]
    refine ⟨_, rfl, ⟨holds.ring, size, fun _ pending => (by cases pending), fun absent => ?_⟩, equal⟩
    exact ⟨(holds.unallocated absent).1, (holds.unallocated absent).2.1, rfl⟩
  rw [if_neg equal]
  by_cases larger : ins.cap < cap
  · rw [if_pos larger]
    by_cases unwrapped : ins.start + ins.count ≤ ins.cap
    · rw [if_pos unwrapped]
      rw [← size] at unwrapped
      refine ⟨_, rfl,
        ⟨holds.ring.grow unwrapped larger, size, fun _ pending => (by cases pending),
          fun absent => ?_⟩, rfl⟩
      exact ⟨(holds.unallocated absent).1, (holds.unallocated absent).2.1, rfl⟩
    · rw [if_neg unwrapped]
      obtain ⟨length, joined⟩ := holds.ring.unwrap (by rw [size]; omega) larger
      have start := holds.ring.start_le
      have fits := holds.ring.fits
      rw [size] at joined fits
      rw [if_neg (by omega)]
      exact ⟨_, rfl,
        ⟨joined, size, fun _ pending => (by cases pending), fun absent => (by cases absent)⟩, rfl⟩
  · rw [if_neg larger]
    by_cases none : ins.count = 0
    · have empty : items = [] := List.length_eq_zero_iff.1 (size.trans none)
      subst empty
      rw [if_pos none]
      exact ⟨_, rfl,
        ⟨Ring.empty _, size, fun _ pending => (by cases pending), fun _ => ⟨none, rfl, rfl⟩⟩, rfl⟩
    · rw [if_neg none]
      refine ⟨_, rfl, ⟨holds.ring, size, fun other pending => ?_, fun absent => ?_⟩, rfl⟩
      · have smaller : cap < ins.cap := by omega
        obtain rfl := Option.some.inj pending
        exact ⟨smaller, Nat.pos_of_ne_zero none⟩
      · exact absurd (holds.unallocated absent).1 none

/-- A call on the window. -/
inductive Call where
  | add (inflight : Nat)
  | freeTo (toIdx : Nat)
  | freeFirstOne
  | reset
  | setCap (cap : Nat)
  | maybeFreeBuffer

/-- A call runs the operation of the window. -/
def Call.perform (ins : Inflights) : Call → Except Fatal Inflights
  | .add inflight => ins.add inflight
  | .freeTo toIdx => ins.freeTo toIdx
  | .freeFirstOne => ins.freeFirstOne
  | .reset => .ok ins.reset
  | .setCap cap => ins.setCap cap
  | .maybeFreeBuffer => .ok ins.maybeFreeBuffer

/-- What a call means for a plain queue. -/
def Call.apply (queue : BoundedQueue) : Call → BoundedQueue
  | .add inflight => { queue with items := queue.items ++ [inflight] }
  | .freeTo toIdx => queue.freeTo toIdx
  | .freeFirstOne =>
      match queue.items with
      | [] => queue
      | first :: _ => queue.freeTo first
  | .reset => { queue with items := [] }
  | .setCap cap => { queue with limit := cap }
  | .maybeFreeBuffer => queue

/-- A message is added only to a window that is not full. -/
def Call.Admissible (ins : Inflights) : Call → Prop
  | .add _ => ins.full = false
  | _ => True

/-- The windows and the plain queues that admissible calls reach together. -/
inductive Called (cap : Nat) : Inflights → BoundedQueue → Prop
  | new : Called cap (new cap) ⟨[], cap⟩
  | call {ins ins' : Inflights} {queue : BoundedQueue} {call : Call} (called : Called cap ins queue)
      (admissible : call.Admissible ins) (done : call.perform ins = .ok ins') :
      Called cap ins' (call.apply queue)

/-- An admissible call succeeds and does to the window what it means for a plain queue. -/
theorem Holds.call {queue : BoundedQueue} (holds : ins.Holds queue.items)
    (limited : ins.limit = queue.limit) (call : Call) (admissible : call.Admissible ins) :
    ∃ ins', call.perform ins = .ok ins' ∧ ins'.Holds (call.apply queue).items ∧
      ins'.limit = (call.apply queue).limit := by
  cases call with
  | add inflight =>
      obtain ⟨ins', done, holds', same⟩ := holds.add admissible inflight
      exact ⟨ins', done, holds', same.trans limited⟩
  | freeTo toIdx =>
      obtain ⟨ins', done, holds', same⟩ := holds.freeTo toIdx
      exact ⟨ins', done, holds', same.trans limited⟩
  | freeFirstOne =>
      cases shape : queue.items with
      | nil =>
          have none : ¬ ins.count > 0 := by rw [← holds.size, shape]; exact Nat.lt_irrefl 0
          refine ⟨ins, if_neg none, ?_, ?_⟩ <;> simp only [Call.apply, shape]
          · exact shape ▸ holds
          · exact limited
      | cons first rest =>
          obtain ⟨ins', done, holds', same⟩ := (shape ▸ holds : ins.Holds (first :: rest)).freeFirstOne
          refine ⟨ins', done, ?_, ?_⟩ <;> simp only [Call.apply, shape, BoundedQueue.freeTo]
          · exact holds'
          · exact same.trans limited
  | reset => exact ⟨_, rfl, (holds_reset ins).1, (holds_reset ins).2.trans limited⟩
  | setCap cap =>
      obtain ⟨ins', done, holds', same⟩ := holds.setCap cap
      exact ⟨ins', done, holds', same⟩
  | maybeFreeBuffer => exact ⟨_, rfl, holds.maybeFreeBuffer.1, holds.maybeFreeBuffer.2.trans limited⟩

/-- Windows and plain queues that calls reach together agree. -/
theorem Called.holds {cap : Nat} {queue : BoundedQueue} (called : Called cap ins queue) :
    ins.Holds queue.items ∧ ins.limit = queue.limit := by
  induction called with
  | new => exact ⟨holds_new cap, rfl⟩
  | @call ins ins' queue call called admissible done ih =>
      obtain ⟨next, performed, holds', limited⟩ := ih.1.call ih.2 call admissible
      obtain rfl := Except.ok.inj (done.symm.trans performed)
      exact ⟨holds', limited⟩

/-- Under any admissible calls the window is a bounded queue, and no call fails. -/
theorem called_bounded_queue {cap : Nat} {queue : BoundedQueue} (called : Called cap ins queue) :
    ins.count = queue.items.length ∧
      (∀ k < ins.count, ins.buffer[(ins.start + k) % ins.cap]? = queue.items[k]?) ∧
      ins.limit = queue.limit ∧ (ins.full = true ↔ queue.limit ≤ ins.count) ∧
      (∀ smaller, ins.incomingCap = some smaller → smaller < ins.cap ∧ 0 < ins.count) ∧
      (ins.count = 0 → ins.cap = queue.limit ∧ ins.incomingCap = none) ∧
      ins.start ≤ ins.cap ∧ ins.count ≤ ins.cap ∧ ins.buffer.length ≤ ins.cap ∧
      (∀ first rest, queue.items = first :: rest → (∀ item ∈ rest.head?, first < item) →
        (Call.freeFirstOne.apply queue).items = rest) ∧
      ∀ call : Call, call.Admissible ins → ∃ ins', call.perform ins = .ok ins' := by
  obtain ⟨holds, limited⟩ := called.holds
  have fits := holds.ring.fits
  rw [holds.size] at fits
  have settled : ins.count = 0 → ins.incomingCap = none := by
    intro none
    cases waiting : ins.incomingCap with
    | none => rfl
    | some smaller => exact absurd none (holds.pending smaller waiting).2.ne'
  refine ⟨holds.size.symm, fun k inside => ?_, limited, limited ▸ holds.full_iff, holds.pending,
    fun none => ?_, holds.ring.start_le, fits, holds.ring.bounded,
      fun first rest shape larger => ?_, fun call admissible => ?_⟩
  · have present := List.getElem?_eq_getElem (holds.size ▸ inside : k < queue.items.length)
    rw [present]
    exact holds.ring.shown k _ present
  · refine ⟨?_, settled none⟩
    rw [← limited, limit, settled none, Option.getD_none]
  · simp only [Call.apply, shape, BoundedQueue.freeTo]
    rw [List.dropWhile_cons_of_pos (by simp)]
    cases rest with
    | nil => rfl
    | cons next rest =>
        have stays := larger next rfl
        rw [List.dropWhile_cons_of_neg (by simpa using stays)]
  · obtain ⟨ins', done, _⟩ := holds.call limited call admissible
    exact ⟨ins', done⟩

/-- A full window of capacity 1 takes a larger capacity and then a second message. -/
theorem called_bounded_queue_grown : ∃ ins, Called 1 ins ⟨[4, 7], 2⟩ ∧ ins.count = 2 := by
  have one := @Called.call 1 _ _ _ (.add 4) .new rfl rfl
  have grown := @Called.call 1 _ _ _ (.setCap 2) one trivial rfl
  have two := @Called.call 1 _ _ _ (.add 7) grown rfl rfl
  exact ⟨_, two, (called_bounded_queue two).1⟩

end Inflights

end RaftRs

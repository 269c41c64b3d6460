import RaftRs.Model.ReadOnly

namespace RaftRs

open Library

/-- A read request with the commit index at which it was accepted. -/
structure ReadRequest where
  req : Message
  index : Nat

/-- The context of a request is the data of its first entry. -/
def ReadRequest.ctx (request : ReadRequest) : Bytes :=
  match request.req.entries.head? with
  | some entry => entry.data
  | none => []

/-- The request of a status, without its acknowledgements. -/
def ReadIndexStatus.request (status : ReadIndexStatus) : ReadRequest := ⟨status.req, status.index⟩

namespace ReadOnly

/-- The requests that wait, in their order of arrival. -/
structure Holds (ro : ReadOnly) (waiting : List ReadRequest) : Prop where
  queue : ro.readIndexQueue = waiting.map ReadRequest.ctx
  distinct : ro.readIndexQueue.Nodup
  pending : ∀ request ∈ waiting, (ro.pendingReadIndex.get? request.ctx).map
    ReadIndexStatus.request = some request
  known : ∀ ctx, (ro.pendingReadIndex.get? ctx).isSome → ctx ∈ ro.readIndexQueue

variable {ro ro' : ReadOnly} {waiting : List ReadRequest}

theorem holds_new (option : ReadOnlyOption) : (new option).Holds [] :=
  ⟨rfl, List.nodup_nil, List.forall_mem_nil _, fun _ some => by cases some⟩

theorem Holds.mem_queue (holds : ro.Holds waiting) (ctx : Bytes) :
    ctx ∈ ro.readIndexQueue ↔ ro.pendingReadIndex.contains ctx = true := by
  refine ⟨fun queued => ?_, holds.known ctx⟩
  rw [holds.queue, List.mem_map] at queued
  obtain ⟨request, waits, rfl⟩ := queued
  have found := holds.pending request waits
  unfold KeyMap.contains
  cases status : ro.pendingReadIndex.get? request.ctx with
  | none => rw [status] at found; cases found
  | some status => rfl

/-- A pending context is not accepted again. -/
theorem addRequest_repeated {index selfId : Nat} {req : Message} (named : req.entries ≠ [])
    (repeated : ro.pendingReadIndex.contains (ReadRequest.ctx ⟨req, index⟩) = true) :
    ro.addRequest index req selfId = .ok ro := by
  obtain ⟨entry, rest, shape⟩ := List.exists_cons_of_ne_nil named
  simp only [ReadRequest.ctx, shape, List.head?_cons] at repeated
  simp only [addRequest, shape, List.head?_cons, repeated, if_true]

/-- A new context joins the end of the queue. -/
theorem Holds.addRequest (holds : ro.Holds waiting) (selfId : Nat) {index : Nat} {req : Message}
    (named : req.entries ≠ [])
    (fresh : ro.pendingReadIndex.contains (ReadRequest.ctx ⟨req, index⟩) = false) :
    ∃ ro', ro.addRequest index req selfId = .ok ro' ∧ ro'.Holds (waiting ++ [⟨req, index⟩]) := by
  obtain ⟨entry, rest, shape⟩ := List.exists_cons_of_ne_nil named
  have ctx : ReadRequest.ctx ⟨req, index⟩ = entry.data := by
    simp only [ReadRequest.ctx, shape, List.head?_cons]
  have unqueued : entry.data ∉ ro.readIndexQueue := by
    rw [holds.mem_queue, ← ctx, fresh]
    exact Bool.false_ne_true
  rw [ctx] at fresh
  simp only [ReadOnly.addRequest, shape, List.head?_cons, fresh, Bool.false_eq_true, if_false]
  refine ⟨_, rfl, ?_, ?_, fun request member => ?_, fun other found => ?_⟩
  · show ro.readIndexQueue ++ [entry.data] = _
    rw [List.map_append, holds.queue, List.map_singleton, ctx]
  · exact List.nodup_append.2 ⟨holds.distinct, List.nodup_singleton _, fun x old y new => by
      rw [List.mem_singleton] at new
      rintro rfl
      exact unqueued (new ▸ old)⟩
  · show ((ro.pendingReadIndex.insert entry.data _).get? request.ctx).map _ = _
    rw [KeyMap.get?_insert]
    rcases List.mem_append.1 member with old | new
    · have different : request.ctx ≠ entry.data := fun same =>
        unqueued (same ▸ holds.queue ▸ List.mem_map_of_mem old)
      rw [if_neg different]
      exact holds.pending request old
    · rw [List.mem_singleton] at new
      subst new
      rw [if_pos ctx]
      rfl
  · show other ∈ ro.readIndexQueue ++ [entry.data]
    change ((ro.pendingReadIndex.insert entry.data _).get? other).isSome = true at found
    rw [KeyMap.get?_insert] at found
    split at found
    · rename_i same
      exact List.mem_append_right _ (List.mem_singleton.2 same)
    · exact List.mem_append_left _ (holds.known other found)

theorem Holds.recvAck (holds : ro.Holds waiting) (id : Nat) (ctx : Bytes) :
    (ro.recvAck id ctx).1.Holds waiting := by
  unfold ReadOnly.recvAck
  cases found : ro.pendingReadIndex.get? ctx with
  | none => exact holds
  | some status =>
      refine ⟨holds.queue, holds.distinct, fun request waits => ?_,
        fun other present => holds.known other ?_⟩
      · have old := holds.pending request waits
        simp only [KeyMap.get?_modify]
        split
        · rw [Option.map_map]
          exact old
        · exact old
      · simp only [KeyMap.get?_modify] at present
        split at present
        · rwa [Option.isSome_map] at present
        · exact present

/-- The first waiting request leaves both the queue and the map. -/
theorem Holds.pop {request : ReadRequest} {rest : List ReadRequest}
    (holds : ro.Holds (request :: rest)) :
    ∃ status, ro.pendingReadIndex.get? request.ctx = some status ∧ status.request = request ∧
      Holds { ro with
        pendingReadIndex := ro.pendingReadIndex.remove request.ctx
        readIndexQueue := rest.map ReadRequest.ctx } rest := by
  obtain ⟨status, found, same⟩ := Option.map_eq_some_iff.1 (holds.pending request List.mem_cons_self)
  have distinct := holds.distinct
  rw [holds.queue, List.map_cons, List.nodup_cons] at distinct
  refine ⟨status, found, same, rfl, distinct.2, fun other waits => ?_, fun ctx present => ?_⟩
  · have different : other.ctx ≠ request.ctx :=
      fun equal => distinct.1 (equal ▸ List.mem_map_of_mem waits)
    rw [KeyMap.get?_remove, if_neg different]
    exact holds.pending other (List.mem_cons_of_mem _ waits)
  · rw [KeyMap.get?_remove] at present
    split at present
    · cases present
    · rename_i different
      have queued := holds.known ctx present
      rw [holds.queue, List.map_cons, List.mem_cons] at queued
      exact queued.resolve_left different

/-- The first requests leave in their order of arrival. -/
theorem Holds.popFront (holds : ro.Holds waiting) {count : Nat} (enough : count ≤ waiting.length) :
    ∃ ro' rss, ro.popFront count = .ok (ro', rss) ∧ ro'.Holds (waiting.drop count) ∧
      rss.map ReadIndexStatus.request = waiting.take count := by
  induction count generalizing ro waiting with
  | zero => exact ⟨ro, [], rfl, holds, rfl⟩
  | succ count ih =>
      cases waiting with
      | nil => simp at enough
      | cons request rest =>
          obtain ⟨status, found, same, holds'⟩ := holds.pop
          obtain ⟨ro', rss, done, after, released⟩ := ih holds' (Nat.le_of_succ_le_succ enough)
          refine ⟨ro', status :: rss, ?_,
            after, by rw [List.map_cons, same, released, List.take_succ_cons]⟩
          simp only [ReadOnly.popFront, holds.queue, List.map_cons, found, done]
          rfl

/-- The search finds a context behind others and skips pending requests only. -/
theorem position_found {ctx : Bytes} {before after : List Bytes} {i : Nat}
    (pending : ∀ x ∈ before ++ [ctx], ro.pendingReadIndex.contains x = true) (fresh : ctx ∉ before) :
    ro.position ctx (before ++ ctx :: after) i = .ok (some (i + before.length)) := by
  induction before generalizing i with
  | nil => simp [position, pending ctx (by simp)]
  | cons x before ih =>
      have known := pending x (by simp)
      have different : x ≠ ctx := fun same => fresh (same ▸ List.mem_cons_self)
      rw [List.cons_append, position, known, if_neg (by simp), if_neg different,
        ih (fun y member => pending y (List.mem_cons_of_mem _ member))
          (fun member => fresh (List.mem_cons_of_mem _ member)), List.length_cons]
      congr 2
      omega

/-- The search of a context that is not queued finds nothing. -/
theorem position_missing {ctx : Bytes} {queue : List Bytes} {i : Nat}
    (pending : ∀ x ∈ queue, ro.pendingReadIndex.contains x = true) (missing : ctx ∉ queue) :
    ro.position ctx queue i = .ok none := by
  induction queue generalizing i with
  | nil => rfl
  | cons x queue ih =>
      have known := pending x List.mem_cons_self
      have different : x ≠ ctx := fun same => missing (same ▸ List.mem_cons_self)
      rw [position, known, if_neg (by simp), if_neg different]
      exact ih (fun y member => pending y (List.mem_cons_of_mem _ member))
        fun member => missing (List.mem_cons_of_mem _ member)

/-- Nothing is released for a context that is not pending. -/
theorem Holds.advance_missing (holds : ro.Holds waiting) {ctx : Bytes}
    (missing : ctx ∉ ro.readIndexQueue) :
    ro.advance ctx = .ok (ro, []) := by
  have found := position_missing (i := 0) (fun x queued => (holds.mem_queue x).1 queued) missing
  simp only [ReadOnly.advance, found]
  rfl

/-- A pending context releases the requests up to its own in their order of arrival. -/
theorem Holds.advance {before after : List ReadRequest} {request : ReadRequest}
    (holds : ro.Holds (before ++ request :: after)) :
    ∃ ro' rss, ro.advance request.ctx = .ok (ro', rss) ∧ ro'.Holds after ∧
      rss.map ReadIndexStatus.request = before ++ [request] := by
  have queue := holds.queue
  rw [List.map_append, List.map_cons] at queue
  have fresh : request.ctx ∉ before.map ReadRequest.ctx := by
    have distinct := holds.distinct
    rw [queue] at distinct
    intro earlier
    exact (List.nodup_append.1 distinct).2.2 _ earlier _ List.mem_cons_self rfl
  have found : ro.position request.ctx ro.readIndexQueue 0 =
      .ok (some (0 + (before.map ReadRequest.ctx).length)) := by
    rw [queue]
    refine position_found (fun x member => (holds.mem_queue x).1 ?_) fresh
    rw [queue, List.append_cons]
    exact List.mem_append_left _ member
  have enough : before.length + 1 ≤ (before ++ request :: after).length := by
    rw [List.length_append, List.length_cons]
    omega
  obtain ⟨ro', rss, done, holds', released⟩ := holds.popFront enough
  have size : before.length + 1 = (before ++ [request]).length := by simp
  rw [List.append_cons, size, List.drop_left] at holds'
  rw [List.append_cons, size, List.take_left] at released
  refine ⟨ro', rss, ?_, holds', released⟩
  simp only [ReadOnly.advance, found, List.length_map, Nat.zero_add]
  exact done

/-- A run of read requests, acknowledgements and releases with the requests that were accepted and
those released. -/
inductive Serves (option : ReadOnlyOption) : ReadOnly → List ReadRequest → List ReadRequest → Nat → Prop
  | new : Serves option (new option) [] [] 0
  | add {ro ro' : ReadOnly} {accepted released : List ReadRequest} {commit index selfId : Nat}
      {req : Message} (serves : Serves option ro accepted released commit)
      (named : req.entries ≠ []) (later : commit ≤ index)
      (done : ro.addRequest index req selfId = .ok ro') :
      Serves option ro' (if ro.pendingReadIndex.contains (ReadRequest.ctx ⟨req, index⟩) then accepted
        else accepted ++ [⟨req, index⟩]) released index
  | ack {ro : ReadOnly} {accepted released : List ReadRequest} {commit : Nat} (id : Nat) (ctx : Bytes)
      (serves : Serves option ro accepted released commit) :
      Serves option (ro.recvAck id ctx).1 accepted released commit
  | advance {ro ro' : ReadOnly} {accepted released : List ReadRequest} {commit : Nat} {ctx : Bytes}
      {rss : List ReadIndexStatus} (serves : Serves option ro accepted released commit)
      (done : ro.advance ctx = .ok (ro', rss)) :
      Serves option ro' accepted (released ++ rss.map ReadIndexStatus.request) commit

/-- What holds in every state of a run: the accepted requests are those released and then those that
wait. -/
structure Ordered (ro : ReadOnly) (accepted released waiting : List ReadRequest) (commit : Nat) :
    Prop where
  holds : ro.Holds waiting
  accounted : accepted = released ++ waiting
  sorted : waiting.Pairwise (fun earlier later => earlier.index ≤ later.index)
  bounded : ∀ request ∈ waiting, request.index ≤ commit

variable {option : ReadOnlyOption} {accepted released : List ReadRequest} {commit : Nat}

/-- A request adds itself to the accepted and the waiting ones, or nothing. -/
theorem Ordered.add (ordered : ro.Ordered accepted released waiting commit) {index selfId : Nat}
    {req : Message} (named : req.entries ≠ []) (later : commit ≤ index)
    (done : ro.addRequest index req selfId = .ok ro') :
    ∃ waiting', ro'.Ordered (if ro.pendingReadIndex.contains (ReadRequest.ctx ⟨req, index⟩) then accepted
      else accepted ++ [⟨req, index⟩]) released waiting' index := by
  have bounded : ∀ request ∈ waiting, request.index ≤ index := fun request waits =>
    (ordered.bounded request waits).trans later
  cases repeated : ro.pendingReadIndex.contains (ReadRequest.ctx ⟨req, index⟩) with
  | true =>
      rw [addRequest_repeated named repeated] at done
      obtain rfl := Except.ok.inj done
      exact ⟨waiting, ordered.holds, ordered.accounted, ordered.sorted, bounded⟩
  | false =>
      obtain ⟨next, performed, holds⟩ := ordered.holds.addRequest selfId named repeated
      rw [done] at performed
      obtain rfl := Except.ok.inj performed
      refine ⟨waiting ++ [⟨req, index⟩], holds, ?_, ?_, ?_⟩
      · rw [ordered.accounted, if_neg Bool.false_ne_true, List.append_assoc]
      · refine List.pairwise_append.2 ⟨ordered.sorted, List.pairwise_singleton _ _,
          fun request waits last new => ?_⟩
        rw [List.mem_singleton.1 new]
        exact bounded request waits
      · refine List.forall_mem_append.2 ⟨bounded, fun request new => ?_⟩
        rw [List.mem_singleton.1 new]

/-- A release moves the first waiting requests to the released ones. -/
theorem Ordered.advance (ordered : ro.Ordered accepted released waiting commit) {ctx : Bytes}
    {rss : List ReadIndexStatus} (done : ro.advance ctx = .ok (ro', rss)) :
    ∃ waiting', ro'.Ordered accepted (released ++ rss.map ReadIndexStatus.request) waiting' commit := by
  by_cases queued : ctx ∈ ro.readIndexQueue
  · rw [ordered.holds.queue, List.mem_map] at queued
    obtain ⟨request, waits, rfl⟩ := queued
    obtain ⟨before, after, rfl⟩ := List.append_of_mem waits
    obtain ⟨next, statuses, performed, holds, freed⟩ := ordered.holds.advance
    rw [done] at performed
    obtain ⟨rfl, rfl⟩ := Prod.mk.inj (Except.ok.inj performed)
    refine ⟨after, holds, ?_, ?_, fun other waits => ordered.bounded other ?_⟩
    · rw [ordered.accounted, freed, List.append_assoc, List.append_assoc]
      rfl
    · exact (List.pairwise_append.1 ordered.sorted).2.1.of_cons
    · exact List.mem_append_right _ (List.mem_cons_of_mem _ waits)
  · rw [ordered.holds.advance_missing queued] at done
    obtain ⟨rfl, rfl⟩ := Prod.mk.inj (Except.ok.inj done)
    exact ⟨waiting, ordered.holds, by rw [List.map_nil, List.append_nil]; exact ordered.accounted,
      ordered.sorted, ordered.bounded⟩

/-- Every run keeps its requests in order. -/
theorem Serves.ordered (serves : Serves option ro accepted released commit) :
    ∃ waiting, ro.Ordered accepted released waiting commit := by
  induction serves with
  | new => exact ⟨[], holds_new option, rfl, .nil, List.forall_mem_nil _⟩
  | add serves named later done ih =>
      obtain ⟨waiting, ordered⟩ := ih
      exact ordered.add named later done
  | ack id ctx serves ih =>
      obtain ⟨waiting, ordered⟩ := ih
      exact ⟨waiting, ordered.holds.recvAck id ctx, ordered.accounted, ordered.sorted, ordered.bounded⟩
  | advance serves done ih =>
      obtain ⟨waiting, ordered⟩ := ih
      exact ordered.advance done

/-- In every run the pending reads are a queue that is released from its front, each accepted
request at most once. -/
theorem serves_fifo (serves : Serves option ro accepted released commit) :
    ro.readIndexQueue.Nodup ∧ (∀ ctx, ctx ∈ ro.readIndexQueue ↔ ctx ∈ ro.pendingReadIndex.keys) ∧
      (∀ index req selfId, req.entries ≠ [] → ∃ ro', ro.addRequest index req selfId = .ok ro') ∧
      (∀ ctx, ctx ∉ ro.readIndexQueue → ro.advance ctx = .ok (ro, [])) ∧
      ∃ waiting : List ReadRequest, accepted = released ++ waiting ∧
        ro.readIndexQueue = waiting.map ReadRequest.ctx ∧
        waiting.Pairwise (fun earlier later => earlier.index ≤ later.index) ∧
        (∀ request ∈ waiting,
          (ro.pendingReadIndex.get? request.ctx).map ReadIndexStatus.request = some request) ∧
        ∀ before request after, waiting = before ++ request :: after →
          ∃ ro' rss, ro.advance request.ctx = .ok (ro', rss) ∧
            rss.map ReadIndexStatus.request = before ++ [request] ∧
              ro'.readIndexQueue = after.map ReadRequest.ctx ∧
            ∀ status ∈ rss, status.index ≤ request.index := by
  obtain ⟨waiting, ordered⟩ := serves.ordered
  have holds := ordered.holds
  refine ⟨holds.distinct, fun ctx => (holds.mem_queue ctx).trans (KeyMap.mem_keys _ ctx).symm,
    fun index req selfId named => ?_, fun ctx => holds.advance_missing, waiting, ordered.accounted,
      holds.queue,
    ordered.sorted, holds.pending, ?_⟩
  · cases repeated : ro.pendingReadIndex.contains (ReadRequest.ctx ⟨req, index⟩) with
    | true => exact ⟨ro, addRequest_repeated named repeated⟩
    | false =>
        obtain ⟨ro', done, _⟩ := holds.addRequest selfId named repeated
        exact ⟨ro', done⟩
  · rintro before request after rfl
    obtain ⟨ro', rss, done, holds', freed⟩ := holds.advance
    refine ⟨ro', rss, done, freed, holds'.queue, fun status released => ?_⟩
    have member : status.request ∈ before ++ [request] := freed ▸ List.mem_map_of_mem released
    rcases List.mem_append.1 member with earlier | last
    · exact (List.pairwise_append.1 ordered.sorted).2.2 _ earlier _ List.mem_cons_self
    · exact (congrArg ReadRequest.index (List.mem_singleton.1 last)).le

/-- Of three requests, the first of which is repeated, the second context releases two; the third
one waits. -/
theorem serves_fifo_later : let read (ctx : UInt8) : Message := { entries := [{ data := [ctx] }] }
    ∃ ro, Serves .safe ro [⟨read 1, 3⟩, ⟨read 2, 3⟩, ⟨read 3, 5⟩] [⟨read 1, 3⟩, ⟨read 2, 3⟩] 5 ∧
      ro.readIndexQueue = [[3]] ∧ ro.readIndexQueue.Nodup ∧
      ∃ waiting : List ReadRequest, [⟨read 1, 3⟩, ⟨read 2, 3⟩, ⟨read 3, 5⟩] =
        [⟨read 1, 3⟩, ⟨read 2, 3⟩] ++ waiting ∧
        ro.readIndexQueue = waiting.map ReadRequest.ctx := by
  intro read
  have named : ∀ ctx, (read ctx).entries ≠ [] := fun ctx => List.cons_ne_nil _ _
  have first :=
    Serves.add .new (named 1) (Nat.zero_le 3) (rfl : (new .safe).addRequest 3 (read 1) 1 = .ok _)
  have second := first.add (named 2) le_rfl (rfl : ReadOnly.addRequest _ 3 (read 2) 1 = .ok _)
  have again := second.add (named 1) (by decide) (rfl : ReadOnly.addRequest _ 4 (read 1) 1 = .ok _)
  have third := again.add (named 3) (by decide) (rfl : ReadOnly.addRequest _ 5 (read 3) 1 = .ok _)
  have freed := (third.ack 2 [2]).advance (rfl : ReadOnly.advance _ [2] = .ok (_, _))
  obtain ⟨distinct, -, -, -, waiting, accounted, queue, -⟩ := serves_fifo freed
  exact ⟨_, freed, rfl, distinct, waiting, accounted, queue⟩

end ReadOnly

end RaftRs

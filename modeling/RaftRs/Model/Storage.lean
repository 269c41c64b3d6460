import RaftRs.Model.Proto

namespace RaftRs

def varintLen (value : Nat) : Nat := Nat.log2 value / 7 + 1

/-- An integer field takes a tag and a varint unless it has its default value. -/
def uintFieldSize (value : Nat) : Nat := if value = 0 then 0 else 1 + varintLen value

/-- A bytes field takes a tag, its length and its content unless it is empty. -/
def bytesFieldSize (value : Bytes) : Nat :=
  if value.isEmpty then 0 else 1 + varintLen value.length + value.length

/-- The wire number of an entry type. -/
def EntryType.number : EntryType → Nat
  | .entryNormal => 0
  | .entryConfChange => 1
  | .entryConfChangeV2 => 2

/-- The encoded length of an entry. -/
def Entry.computeSize (entry : Entry) : Nat :=
  uintFieldSize entry.entryType.number + uintFieldSize entry.term + uintFieldSize entry.index +
    bytesFieldSize entry.data + bytesFieldSize entry.context + (if entry.syncLog then 2 else 0)

def entryApproximateSize (entry : Entry) : Nat := entry.data.length + entry.context.length + 12

/-- The scan of the size limit counts the entries it keeps. -/
def limitCount (max : Nat) : Nat → List Entry → Nat
  | _, [] => 0
  | size, entry :: rest =>
      if size = 0 then limitCount max (size + entry.computeSize) rest + 1
      else if size + entry.computeSize ≤ max then limitCount max (size + entry.computeSize) rest + 1
      else 0

/-- The entries are truncated to a total encoded length. -/
def limitSize (entries : List Entry) (max : Option Nat) : List Entry :=
  if entries.length ≤ 1 then entries
  else match max with
    | none => entries
    | some max => if max = noLimit then entries else entries.take (limitCount max 0 entries)

/-- The entries continue the entries of a message unless one of the two has none. -/
def isContinuousEnts (msg : Message) (ents : List Entry) : Bool :=
  match msg.entries.getLast?, ents.head? with
  | some last, some first => last.index + 1 == first.index
  | _, _ => true

/-- A vector slice fails when its bounds are out of order or out of range. -/
def sliceVec {α : Type} (items : List α) (low high : Nat) : Except Fatal (List α) :=
  if low ≤ high ∧ high ≤ items.length then .ok ((items.drop low).take (high - low))
  else .error .indexOutOfRange

/-- The purpose for which entries are read from the storage. -/
inductive GetEntriesFor where
  | sendAppend (toId : Nat) (term : Nat) (aggressively : Bool)
  | genReady
  | transferLeader
  | commitByVote
  | empty (canAsync : Bool)
deriving DecidableEq, Repr

/-- Only replication and willing outside callers accept an asynchronous fetch. -/
def GetEntriesFor.canAsync : GetEntriesFor → Bool
  | .sendAppend _ _ _ => true
  | .empty canAsync => canAsync
  | _ => false

/-- The state that a restarted node reads from its storage. -/
structure RaftState where
  hardState : HardState := {}
  confState : ConfState := {}
deriving DecidableEq, Repr

/-- The memory storage holds the hard state, the last snapshot position and the entries after it. -/
structure MemStorage where
  raftState : RaftState := {}
  entries : List Entry := []
  snapshotMetadata : SnapshotMetadata := {}
  triggerSnapUnavailable : Bool := false
  triggerLogUnavailable : Bool := false
deriving DecidableEq, Repr

namespace MemStorage

def newWithConfState (confState : ConfState) : MemStorage := { raftState := { confState } }

def setHardstate (store : MemStorage) (hardState : HardState) : MemStorage :=
  { store with raftState := { store.raftState with hardState } }

/-- The first index is that of the first entry or the one after the snapshot. -/
def firstIndex (store : MemStorage) : Nat :=
  match store.entries.head? with
  | some entry => entry.index
  | none => store.snapshotMetadata.index + 1

/-- The last index is that of the last entry or that of the snapshot. -/
def lastIndex (store : MemStorage) : Nat :=
  match store.entries.getLast? with
  | some entry => entry.index
  | none => store.snapshotMetadata.index

/-- A snapshot replaces the content of the storage unless it is out of date. -/
def applySnapshot (store : MemStorage) (snapshot : Snapshot) : Except StorageError MemStorage :=
  let metadata := snapshot.metadata
  if store.firstIndex > metadata.index then .error .snapshotOutOfDate
  else .ok
    { store with
      snapshotMetadata := metadata
      raftState :=
        { hardState :=
            { store.raftState.hardState with
              term := max store.raftState.hardState.term metadata.term
              commit := metadata.index }
          confState := metadata.confState }
      entries := [] }

/-- The snapshot of the core stands at the persisted commit index. -/
def snapshotCore (store : MemStorage) : Except Fatal Snapshot :=
  let index := store.raftState.hardState.commit
  let make (term : Nat) : Snapshot :=
    { metadata := { index, term, confState := store.raftState.confState } }
  if index = store.snapshotMetadata.index then .ok (make store.snapshotMetadata.term)
  else if index > store.snapshotMetadata.index then
    match store.entries.head? with
    | none => .error .indexOutOfRange
    | some first =>
        if index < first.index then .error .indexOutOfRange
        else match store.entries[index - first.index]? with
          | some entry => .ok (make entry.term)
          | none => .error .indexOutOfRange
  else .error .commitBelowSnapshot

/-- Compaction drops the entries below an index. -/
def compact (store : MemStorage) (compactIndex : Nat) : Except Fatal MemStorage :=
  if compactIndex ≤ store.firstIndex then .ok store
  else if compactIndex > store.lastIndex + 1 then
    .error (.compactNotReceived compactIndex store.lastIndex)
  else .ok { store with entries := store.entries.drop (compactIndex - store.firstIndex) }

/-- Appended entries overwrite the entries from their first index on. -/
def append (store : MemStorage) (ents : List Entry) : Except Fatal MemStorage :=
  match ents with
  | [] => .ok store
  | first :: _ =>
      if store.firstIndex > first.index then .error (.appendGap first.index)
      else if store.lastIndex + 1 < first.index then .error (.appendGap first.index)
      else .ok { store with entries := store.entries.take (first.index - store.firstIndex) ++ ents }

/-- The entries of a range, limited in size and always at least one. -/
def entriesIn (store : MemStorage) (low high : Nat) (maxSize : Option Nat) (context : GetEntriesFor) :
    Except Fatal (Except StorageError (List Entry)) :=
  if low < store.firstIndex then .ok (.error .compacted)
  else if high > store.lastIndex + 1 then .error (.sliceOutOfBounds low high)
  else if store.triggerLogUnavailable && context.canAsync then .ok (.error .logTemporarilyUnavailable)
  else
    match store.entries.head? with
    | none => .error .indexOutOfRange
    | some first => do
        let ents ← sliceVec store.entries (low - first.index) (high - first.index)
        return .ok (limitSize ents maxSize)

/-- The term of a stored index; the entry list has no gap, so the lookup always finds the entry. -/
def term (store : MemStorage) (idx : Nat) : Except StorageError Nat :=
  if idx = store.snapshotMetadata.index then .ok store.snapshotMetadata.term
  else if idx < store.firstIndex then .error .compacted
  else if idx > store.lastIndex then .error .unavailable
  else match store.entries[idx - store.firstIndex]? with
    | some entry => .ok entry.term
    | none => .error .unavailable

/-- A snapshot for a peer; the unavailability trigger fires once. -/
def snapshot (store : MemStorage) (requestIndex : Nat) :
    Except Fatal (MemStorage × Except StorageError Snapshot) :=
  if store.triggerSnapUnavailable then
    .ok ({ store with triggerSnapUnavailable := false }, .error .snapshotTemporarilyUnavailable)
  else do
    let snap ← store.snapshotCore
    if snap.metadata.index < requestIndex then
      return (store, .ok { snap with metadata := { snap.metadata with index := requestIndex } })
    else return (store, .ok snap)

end MemStorage

end RaftRs

import RaftRs.Model.LogUnstable

namespace RaftRs

/-- The log joins the stored entries with the unstable ones and tracks its positions. -/
structure RaftLog where
  store : MemStorage
  unstable : Unstable
  committed : Nat
  persisted : Nat
  applied : Nat
  maxApplyUnpersistedLogLimit : Nat
deriving DecidableEq, Repr

namespace RaftLog

/-- A new log starts at the last compaction of its storage. -/
def new (store : MemStorage) (maxApplyUnpersistedLogLimit : Nat) : RaftLog :=
  { store
    committed := store.firstIndex - 1
    persisted := store.lastIndex
    applied := store.firstIndex - 1
    unstable := Unstable.new (store.lastIndex + 1)
    maxApplyUnpersistedLogLimit }

/-- The first index that is available. -/
def firstIndex (log : RaftLog) : Nat :=
  match log.unstable.maybeFirstIndex with
  | some idx => idx
  | none => log.store.firstIndex

/-- The last index that is available. -/
def lastIndex (log : RaftLog) : Nat :=
  match log.unstable.maybeLastIndex with
  | some idx => idx
  | none => log.store.lastIndex

/-- The term of an index; the storage reports no error that the source treats as fatal. -/
def term (log : RaftLog) (idx : Nat) : Except StorageError Nat :=
  let dummyIdx := log.firstIndex - 1
  if idx < dummyIdx ∨ idx > log.lastIndex then .ok 0
  else match log.unstable.maybeTerm idx with
    | some term => .ok term
    | none => log.store.term idx

/-- The term of the last index. -/
def lastTerm (log : RaftLog) : Except Fatal Nat :=
  match log.term log.lastIndex with
  | .ok term => .ok term
  | .error _ => .error (.unexpectedTerm log.lastIndex)

/-- An index belongs to a term. -/
def matchTerm (log : RaftLog) (idx term : Nat) : Bool :=
  match log.term idx with
  | .ok t => t == term
  | .error _ => false

/-- The first entry whose term does not match, or zero. -/
def findConflict (log : RaftLog) : List Entry → Nat
  | [] => 0
  | entry :: rest => if log.matchTerm entry.index entry.term then log.findConflict rest else entry.index

/-- The descent of the conflict search from an index. -/
def conflictDescent (log : RaftLog) (term : Nat) : Nat → Except Fatal (Nat × Option Nat)
  | 0 =>
      match log.term 0 with
      | .ok t => if t > term then .error .indexOutOfRange else .ok (0, some t)
      | .error _ => .ok (0, none)
  | conflictIndex + 1 =>
      match log.term (conflictIndex + 1) with
      | .ok t =>
          if t > term then log.conflictDescent term conflictIndex else .ok (conflictIndex + 1, some t)
      | .error _ => .ok (conflictIndex + 1, none)

/-- The largest index up to a bound whose term does not exceed a term. -/
def findConflictByTerm (log : RaftLog) (index term : Nat) : Except Fatal (Nat × Option Nat) :=
  if index > log.lastIndex then .ok (index, none) else log.conflictDescent term index

/-- The commit index moves up and never past the last index. -/
def commitTo (log : RaftLog) (toCommit : Nat) : Except Fatal RaftLog :=
  if log.committed ≥ toCommit then .ok log
  else if log.lastIndex < toCommit then .error (.toCommitOutOfRange toCommit log.lastIndex)
  else .ok { log with committed := toCommit }

def appliedToUnchecked (log : RaftLog) (idx : Nat) : RaftLog := { log with applied := idx }

/-- The applied index moves up and never past the commit index. -/
def appliedTo (log : RaftLog) (idx : Nat) : Except Fatal RaftLog :=
  if idx = 0 then .ok log
  else if idx > log.committed ∨ idx < log.applied then .error (.appliedOutOfRange idx)
  else .ok (log.appliedToUnchecked idx)

/-- The stored entries leave the unstable part. -/
def stableEntries (log : RaftLog) (index term : Nat) : Except Fatal RaftLog := do
  let unstable ← log.unstable.stableEntries index term
  return { log with unstable }

/-- The stored snapshot leaves the unstable part. -/
def stableSnap (log : RaftLog) (index : Nat) : Except Fatal RaftLog := do
  let unstable ← log.unstable.stableSnap index
  return { log with unstable }

/-- Entries are appended to the unstable part and never below the commit index. -/
def append (log : RaftLog) (ents : List Entry) : Except Fatal RaftLog :=
  match ents.head? with
  | none => .ok log
  | some first =>
      if first.index = 0 then .error .indexOutOfRange
      else if first.index - 1 < log.committed then
        .error (.appendOutOfRange (first.index - 1) log.committed)
      else do
        let unstable ← log.unstable.truncateAndAppend ents
        return { log with unstable }

/-- The append of the entries from a conflict on also takes back the persisted index. -/
def appendFrom (log : RaftLog) (idx conflictIdx : Nat) (ents : List Entry) : Except Fatal RaftLog :=
  if conflictIdx = 0 then .ok log
  else if conflictIdx ≤ log.committed then .error (.entryConflict conflictIdx log.committed)
  else if conflictIdx < idx + 1 ∨ ents.length < conflictIdx - (idx + 1) then .error .indexOutOfRange
  else do
    let log ← log.append (ents.drop (conflictIdx - (idx + 1)))
    return if log.persisted > conflictIdx - 1 then { log with persisted := conflictIdx - 1 } else log

/-- Entries that follow a matching position are appended and committed up to a bound. -/
def maybeAppend (log : RaftLog) (idx term committed : Nat) (ents : List Entry) :
    Except Fatal (RaftLog × Option (Nat × Nat)) :=
  if log.matchTerm idx term then do
    let conflictIdx := log.findConflict ents
    let log ← log.appendFrom idx conflictIdx ents
    let lastNewIndex := idx + ents.length
    let log ← log.commitTo (min committed lastNewIndex)
    return (log, some (conflictIdx, lastNewIndex))
  else .ok (log, none)

/-- A range of the log must be ordered and end inside of the log. -/
def mustCheckOutofbounds (log : RaftLog) (low high : Nat) : Except Fatal (Option StorageError) :=
  if low > high then .error (.sliceOutOfBounds low high)
  else if low < log.firstIndex then .ok (some .compacted)
  else if high > log.firstIndex + (log.lastIndex + 1 - log.firstIndex) then
    .error (.sliceOutOfBounds low high)
  else .ok none

/-- The stored part of a range; a short answer ends the range. -/
def storedSlice (log : RaftLog) (low high : Nat) (maxSize : Option Nat) (context : GetEntriesFor) :
    Except Fatal (Except StorageError (List Entry × Bool)) :=
  if low < log.unstable.offset then do
    let unstableHigh := min high log.unstable.offset
    match ← log.store.entriesIn low unstableHigh maxSize context with
    | .error .compacted => return .error .compacted
    | .error .logTemporarilyUnavailable => return .error .logTemporarilyUnavailable
    | .error _ => throw (.unavailableEntries low unstableHigh)
    | .ok ents => return .ok (ents, decide (ents.length < unstableHigh - low))
  else .ok (.ok ([], false))

/-- The entries of a range, limited in size. -/
def slice (log : RaftLog) (low high : Nat) (maxSize : Option Nat) (context : GetEntriesFor) :
    Except Fatal (Except StorageError (List Entry)) := do
  match ← log.mustCheckOutofbounds low high with
  | some error => return .error error
  | none =>
      if low = high then return .ok []
      else match ← log.storedSlice low high maxSize context with
        | .error error => return .error error
        | .ok (ents, short) =>
            if short then return .ok ents
            else if high > log.unstable.offset then
              let unstable ← log.unstable.slice (max low log.unstable.offset) high
              return .ok (limitSize (ents ++ unstable) maxSize)
            else return .ok (limitSize ents maxSize)

/-- The entries from an index on, limited in size. -/
def entries (log : RaftLog) (idx : Nat) (maxSize : Option Nat) (context : GetEntriesFor) :
    Except Fatal (Except StorageError (List Entry)) :=
  if idx > log.lastIndex then .ok (.ok []) else log.slice idx (log.lastIndex + 1) maxSize context

/-- A log that ends at the given position is at least as complete as this one. -/
def isUpToDate (log : RaftLog) (lastIndex term : Nat) : Except Fatal Bool := do
  let lastTerm ← log.lastTerm
  return term > lastTerm || (term == lastTerm && lastIndex ≥ log.lastIndex)

/-- The highest index that may be applied. -/
def appliedIndexUpperBound (log : RaftLog) : Except Fatal Nat := do
  let bound ← checkedAdd log.persisted log.maxApplyUnpersistedLogLimit
  return min log.committed bound

/-- The committed entries after an index that may be applied. -/
def nextEntriesSince (log : RaftLog) (sinceIdx : Nat) (maxSize : Option Nat) :
    Except Fatal (Option (List Entry)) := do
  let offset := max (← checkedAdd sinceIdx 1) log.firstIndex
  let high ← checkedAdd (← log.appliedIndexUpperBound) 1
  if high > offset then
    match ← log.slice offset high maxSize .genReady with
    | .ok ents => return some ents
    | .error _ => throw .unexpectedStorageError
  else return none

/-- Some committed entry after an index may be applied. -/
def hasNextEntriesSince (log : RaftLog) (sinceIdx : Nat) : Except Fatal Bool := do
  let offset := max (← checkedAdd sinceIdx 1) log.firstIndex
  let high ← checkedAdd (← log.appliedIndexUpperBound) 1
  return decide (high > offset)

/-- The highest index that may be applied when sums have no bound. -/
def applyBound (log : RaftLog) : Nat :=
  min log.committed (log.persisted + log.maxApplyUnpersistedLogLimit)

/-- The snapshot to send is the pending one or that of the storage. -/
def snapshot (log : RaftLog) (requestIndex : Nat) :
    Except Fatal (RaftLog × Except StorageError Snapshot) :=
  let stored : Except Fatal (RaftLog × Except StorageError Snapshot) := do
    let (store, result) ← log.store.snapshot requestIndex
    return ({ log with store }, result)
  match log.unstable.snapshot with
  | some snap => if snap.metadata.index ≥ requestIndex then .ok (log, .ok snap) else stored
  | none => stored

/-- The commit index moves up to an index of the given term. -/
def maybeCommit (log : RaftLog) (maxIndex term : Nat) : Except Fatal (RaftLog × Bool) :=
  if maxIndex > log.committed ∧ log.matchTerm maxIndex term then do
    let log ← log.commitTo maxIndex
    return (log, true)
  else .ok (log, false)

/-- The persisted index moves up to a stored index of the given term below the first unstable
change. -/
def maybePersist (log : RaftLog) (index term : Nat) : RaftLog × Bool :=
  let firstUpdateIndex :=
    match log.unstable.snapshot with
    | some snapshot => snapshot.metadata.index
    | none => log.unstable.offset
  let stored :=
    match log.store.term index with
    | .ok t => t == term
    | .error _ => false
  if index > log.persisted && index < firstUpdateIndex &&
    stored then ({ log with persisted := index }, true)
  else (log, false)

/-- The persisted index moves up to a stored snapshot. -/
def maybePersistSnap (log : RaftLog) (index : Nat) : Except Fatal (RaftLog × Bool) :=
  if index > log.persisted then
    if index > log.committed then .error (.persistOutOfRange index)
    else if index ≥ log.unstable.offset then .error (.persistOutOfRange index)
    else .ok ({ log with persisted := index }, true)
  else .ok (log, false)

/-- A range is visited page by page until the visitor stops. -/
def scan {α : Type} (log : RaftLog) (hi pageSize : Nat) (context : GetEntriesFor)
    (visit : α → List Entry → α × Bool) : Nat → Nat → α → Except Fatal (Except StorageError α)
  | 0, lo, acc => if lo < hi then .error .diverges else .ok (.ok acc)
  | fuel + 1, lo, acc =>
      if lo < hi then do
        match ← log.slice lo hi (some pageSize) context with
        | .error error => return .error error
        | .ok [] => return .error (.other "got 0 entries")
        | .ok (first :: rest) =>
            let (acc, continues) := visit acc (first :: rest)
            if continues then log.scan hi pageSize context visit fuel (lo + (first :: rest).length) acc
            else return .ok acc
      else .ok (.ok acc)

/-- A snapshot that is not below the commit index replaces the log. -/
def restore (log : RaftLog) (snapshot : Snapshot) : Except Fatal RaftLog :=
  let index := snapshot.metadata.index
  if index < log.committed then .error (.restoreBelowCommitted index)
  else .ok
    { log with
      persisted := if log.persisted > log.committed then log.committed else log.persisted
      committed := index
      unstable := log.unstable.restore snapshot }

/-- The commit index and its term. -/
def commitInfo (log : RaftLog) : Except Fatal (Nat × Nat) :=
  match log.term log.committed with
  | .ok term => .ok (log.committed, term)
  | .error _ => .error (.unexpectedTerm log.committed)

end RaftLog

end RaftRs

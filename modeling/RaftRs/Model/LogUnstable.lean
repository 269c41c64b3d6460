import RaftRs.Model.Storage

namespace RaftRs

/-- The entries and the snapshot that are not yet written to the storage. -/
structure Unstable where
  snapshot : Option Snapshot := none
  entries : List Entry := []
  entriesSize : Nat := 0
  offset : Nat
deriving DecidableEq, Repr

namespace Unstable

/-- The unstable part starts empty after the stored entries. -/
def new (offset : Nat) : Unstable := { offset }

def maybeFirstIndex (unstable : Unstable) : Option Nat :=
  unstable.snapshot.map fun snapshot => snapshot.metadata.index + 1

/-- Unstable entries or a pending snapshot determine the last index. -/
def maybeLastIndex (unstable : Unstable) : Option Nat :=
  match unstable.entries.length with
  | 0 => unstable.snapshot.map fun snapshot => snapshot.metadata.index
  | len => some (unstable.offset + len - 1)

/-- The term of an unstable entry or of the pending snapshot. -/
def maybeTerm (unstable : Unstable) (idx : Nat) : Option Nat :=
  if idx < unstable.offset then
    match unstable.snapshot with
    | none => none
    | some snapshot => if idx = snapshot.metadata.index then some snapshot.metadata.term else none
  else
    match unstable.maybeLastIndex with
    | none => none
    | some last => if idx > last then none else (unstable.entries[idx - unstable.offset]?).map Entry.term

/-- The stored entries leave the unstable part. -/
def stableEntries (unstable : Unstable) (index term : Nat) : Except Fatal Unstable :=
  if unstable.snapshot.isSome then .error .stableMismatch
  else match unstable.entries.getLast? with
    | some entry =>
        if entry.index ≠ index ∨ entry.term ≠ term then .error .stableMismatch
        else .ok { unstable with offset := entry.index + 1, entries := [], entriesSize := 0 }
    | none => .error .stableMismatch

/-- The stored snapshot leaves the unstable part. -/
def stableSnap (unstable : Unstable) (index : Nat) : Except Fatal Unstable :=
  match unstable.snapshot with
  | some snapshot =>
      if snapshot.metadata.index ≠ index then .error .stableMismatch
      else .ok { unstable with snapshot := none }
  | none => .error .stableMismatch

def restore (_unstable : Unstable) (snapshot : Snapshot) : Unstable :=
  { snapshot := some snapshot, entries := [], entriesSize := 0, offset := snapshot.metadata.index + 1 }

/-- A range of unstable entries must lie inside of them. -/
def mustCheckOutofbounds (unstable : Unstable) (lo hi : Nat) : Except Fatal Unit :=
  if lo > hi then .error (.sliceOutOfBounds lo hi)
  else if lo < unstable.offset ∨ hi > unstable.offset + unstable.entries.length then
    .error (.sliceOutOfBounds lo hi)
  else .ok ()

/-- Appended entries first truncate the unstable entries they overlap. -/
def truncateAndAppend (unstable : Unstable) (ents : List Entry) : Except Fatal Unstable :=
  match ents.head? with
  | none => .error .indexOutOfRange
  | some first => do
      let after := first.index
      let size := (ents.map entryApproximateSize).sum
      if after = unstable.offset + unstable.entries.length then
        return { unstable with
          entries := unstable.entries ++ ents, entriesSize := unstable.entriesSize + size }
      else if after ≤ unstable.offset then
        return { unstable with offset := after, entries := ents, entriesSize := size }
      else
        unstable.mustCheckOutofbounds unstable.offset after
        let kept := unstable.entries.take (after - unstable.offset)
        let dropped := unstable.entries.drop (after - unstable.offset)
        return { unstable with
          entries := kept ++ ents
          entriesSize := unstable.entriesSize - (dropped.map entryApproximateSize).sum + size }

/-- A range of the unstable entries. -/
def slice (unstable : Unstable) (lo hi : Nat) : Except Fatal (List Entry) := do
  unstable.mustCheckOutofbounds lo hi
  sliceVec unstable.entries (lo - unstable.offset) (hi - unstable.offset)

end Unstable

end RaftRs

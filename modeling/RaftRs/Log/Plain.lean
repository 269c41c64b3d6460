import RaftRs.Log.Write
import Mathlib.Data.List.TakeWhile

namespace RaftRs

open Library

/-- The operations on a log that a node performs. -/
inductive LogOp where
  | append (ents : List Entry)
  | maybeAppend (idx term committed : Nat) (ents : List Entry)
  | commitTo (toCommit : Nat)
  | maybeCommit (maxIndex term : Nat)
  | restore (snapshot : Snapshot)
  /-- The unstable part is written to the storage and becomes stable. -/
  | stabilise
  | maybePersist (index term : Nat)
  | maybePersistSnap (index : Nat)
  | appliedTo (idx : Nat)
  | compact (compactIndex : Nat)

/-- A plain log is one list of entries after a boundary. -/
structure PlainLog where
  /-- The index of the boundary. -/
  base : Nat
  /-- The term of the boundary, which compaction forgets. -/
  baseTerm : Option Nat
  entries : List Entry
  committed : Nat
  applied : Nat

namespace PlainLog

variable (plain : PlainLog)

/-- A plain log starts with the content of a storage. -/
def ofStore (store : MemStorage) : PlainLog :=
  { base := store.firstIndex - 1
    baseTerm := if store.snapshotMetadata.index + 1 = store.firstIndex then
      some store.snapshotMetadata.term else none
    entries := store.entries
    committed := store.firstIndex - 1, applied := store.firstIndex - 1 }

def firstIndex : Nat := plain.base + 1

def lastIndex : Nat := plain.base + plain.entries.length

def entryAt (i : Nat) :
    Option Entry := if i ≤ plain.base then none else plain.entries[i - plain.firstIndex]?

def term (i : Nat) : Nat := ((plain.entryAt i).map Entry.term).getD 0

def slice (low high : Nat) : List Entry :=
  (plain.entries.drop (low - plain.firstIndex)).take (high - low)

/-- A position has a term; positions outside of the log have the term zero. -/
def matchTerm (i t : Nat) : Bool :=
  if i < plain.base ∨ plain.lastIndex < i then t == 0
  else if i = plain.base then plain.baseTerm == some t
  else plain.term i == t

/-- The entries from the first one that does not match replace the end of the log. -/
def splice (ents : List Entry) : List Entry :=
  match ents.dropWhile fun e => plain.matchTerm e.index e.term with
  | [] => plain.entries
  | e :: rest => plain.entries.take (e.index - plain.firstIndex) ++ e :: rest

/-- The operations on one list. -/
def exec : LogOp → PlainLog
  | .append ents => { plain with entries := plain.entries ++ ents }
  | .maybeAppend idx term committed ents =>
      if plain.matchTerm idx term then
        { plain with
          entries := plain.splice ents, committed :=
            max plain.committed (min committed (idx + ents.length)) }
      else plain
  | .commitTo toCommit => { plain with committed := max plain.committed toCommit }
  | .maybeCommit maxIndex term =>
      if plain.matchTerm maxIndex term then { plain with committed := max plain.committed maxIndex }
        else plain
  | .restore snapshot =>
      { plain with
        base := snapshot.metadata.index, baseTerm := some snapshot.metadata.term, entries := []
        committed := snapshot.metadata.index }
  | .stabilise => plain
  | .maybePersist _ _ => plain
  | .maybePersistSnap _ => plain
  | .appliedTo idx => { plain with applied := max plain.applied idx }
  | .compact compactIndex =>
      if compactIndex ≤ plain.firstIndex then plain
      else { plain with
        base := compactIndex - 1, baseTerm := none, entries :=
          plain.entries.drop (compactIndex - plain.firstIndex) }

theorem entryAt_isSome {i : Nat} :
    (plain.entryAt i).isSome ↔ plain.firstIndex ≤ i ∧ i ≤ plain.lastIndex := by
  unfold entryAt firstIndex lastIndex
  split
  · simp
    omega
  · rw [Option.isSome_iff_exists]
    constructor
    · rintro ⟨entry, present⟩
      have := (List.getElem?_eq_some_iff.1 present).1
      omega
    · intro range
      exact ⟨_, List.getElem?_eq_getElem (by omega)⟩

/-- A range of a plain log holds the entries of its indexes. -/
theorem getElem?_slice {low high : Nat} (first : plain.firstIndex ≤ low) (k : Nat) :
    (plain.slice low high)[k]? = if k < high - low then plain.entryAt (low + k) else none := by
  unfold slice entryAt
  rw [List.getElem?_take]
  unfold firstIndex at *
  split
  · rw [if_neg (by omega), List.getElem?_drop]
    congr 1
    omega
  · rfl

/-- A slice inside of the log has the length of its range. -/
theorem length_slice {low high : Nat} (first : plain.firstIndex ≤ low)
    (last : high ≤ plain.lastIndex + 1) :
    (plain.slice low high).length = high - low := by
  unfold slice
  unfold firstIndex at *
  unfold lastIndex at last
  rw [List.length_take, List.length_drop]
  omega

theorem splice_same {ents : List Entry} (all : ∀ e ∈ ents, plain.matchTerm e.index e.term = true) :
    plain.splice ents = plain.entries := by
  unfold splice
  rw [List.dropWhile_eq_nil_iff.2 all]

/-- A splice with a conflict replaces the entries from the conflict on. -/
theorem splice_conflict {ents : List Entry} {k : Nat} {e : Entry}
    (before : ∀ e ∈ ents.take k, plain.matchTerm e.index e.term = true) (present : ents[k]? = some e)
    (conflict : plain.matchTerm e.index e.term = false) :
    plain.splice ents = plain.entries.take (e.index - plain.firstIndex) ++ ents.drop k := by
  obtain ⟨inside, found⟩ := List.getElem?_eq_some_iff.1 present
  have rest : ents.drop k = e :: ents.drop (k + 1) := by rw [List.drop_eq_getElem_cons inside, found]
  have dropped : (ents.dropWhile fun e => plain.matchTerm e.index e.term) = ents.drop k := by
    conv_lhs => rw [← List.take_append_drop k ents]
    rw [List.dropWhile_append_of_pos before, rest, List.dropWhile_cons_of_neg (by simp [conflict])]
  unfold splice
  rw [dropped, rest]

end PlainLog

end RaftRs

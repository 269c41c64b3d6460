import RaftRs.Model.Proto

namespace RaftRs

/-- The ring buffer of the last indexes of the messages in flight. -/
structure Inflights where
  start : Nat := 0
  count : Nat := 0
  buffer : List Nat := []
  /-- The buffer has been allocated with a positive capacity. -/
  allocated : Bool := false
  cap : Nat
  incomingCap : Option Nat := none
deriving DecidableEq, Repr

namespace Inflights

def new (cap : Nat) : Inflights := { cap, allocated := decide (cap > 0) }

/-- The window takes no further message. -/
def full (ins : Inflights) : Bool :=
  ins.count == ins.cap || match ins.incomingCap with
    | some cap => decide (ins.count ≥ cap)
    | none => false

/-- A changed capacity takes effect at once or when the window is empty. -/
def setCap (ins : Inflights) (incomingCap : Nat) : Except Fatal Inflights :=
  if ins.cap = incomingCap then .ok { ins with incomingCap := none }
  else if ins.cap < incomingCap then
    if ins.start + ins.count ≤ ins.cap then .ok { ins with cap := incomingCap, incomingCap := none }
    else if ins.cap ≠ ins.buffer.length ∨ ins.buffer.length < ins.start ∨
        ins.buffer.length < ins.count - (ins.cap - ins.start) then .error .indexOutOfRange
    else .ok
      { ins with
        buffer := ins.buffer.drop ins.start ++ ins.buffer.take (ins.count - (ins.cap - ins.start))
        allocated := true, start := 0, cap := incomingCap, incomingCap := none }
  else if ins.count = 0 then .ok
    { ins with
      cap := incomingCap, incomingCap := none, start := 0, buffer := []
      allocated := ins.allocated && decide (incomingCap > 0) }
  else .ok { ins with incomingCap := some incomingCap }

/-- A message is added behind the window. -/
def add (ins : Inflights) (inflight : Nat) : Except Fatal Inflights :=
  if ins.full then .error .inflightsFull
  else if !ins.allocated && (ins.count ≠ 0 || ins.start ≠ 0 || ins.incomingCap.isSome) then
    .error .indexOutOfRange
  else
    let sum := ins.start + ins.count
    let next := if sum ≥ ins.cap then sum - ins.cap else sum
    if next > ins.buffer.length then .error .indexOutOfRange
    else if next = ins.buffer.length then
      .ok { ins with buffer := ins.buffer ++ [inflight], count := ins.count + 1, allocated := true }
    else .ok { ins with
      buffer := ins.buffer.set next inflight, count := ins.count + 1, allocated := true }

/-- The loop of the release counts the freed messages and moves the start. -/
def freeLoop (ins : Inflights) (toIdx : Nat) : Nat → Nat → Nat → Except Fatal (Nat × Nat)
  | 0, idx, freed => .ok (freed, idx)
  | remaining + 1, idx, freed =>
      match ins.buffer[idx]? with
      | none => .error .indexOutOfRange
      | some inflight =>
          if toIdx < inflight then .ok (freed, idx)
          else
            let idx := if idx + 1 ≥ ins.cap then idx + 1 - ins.cap else idx + 1
            ins.freeLoop toIdx remaining idx (freed + 1)

/-- The messages up to an index leave the window. -/
def freeTo (ins : Inflights) (toIdx : Nat) : Except Fatal Inflights :=
  if ins.count = 0 then .ok ins
  else match ins.buffer[ins.start]? with
    | none => .error .indexOutOfRange
    | some first =>
        if toIdx < first then .ok ins
        else do
          let (freed, idx) ← ins.freeLoop toIdx ins.count ins.start 0
          let count := ins.count - freed
          match count, ins.incomingCap with
          | 0, some incomingCap =>
              return { start := 0, count := 0, buffer := [], allocated := decide (incomingCap > 0),
                       cap := incomingCap }
          | count, _ => return { ins with count, start := idx }

/-- The first message leaves the window. -/
def freeFirstOne (ins : Inflights) : Except Fatal Inflights :=
  if ins.count > 0 then
    match ins.buffer[ins.start]? with
    | none => .error .indexOutOfRange
    | some start => ins.freeTo start
  else .ok ins

/-- All messages leave the window and the buffer is released. -/
def reset (ins : Inflights) : Inflights :=
  { start := 0, count := 0, buffer := [], allocated := false, cap := ins.incomingCap.getD ins.cap,
    incomingCap := none }

def maybeFreeBuffer (ins : Inflights) : Inflights :=
  if ins.count = 0 then { ins with start := 0, buffer := [], allocated := false } else ins

end Inflights

/-- The replication state of a follower as its leader sees it. -/
inductive ProgressState where
  | probe
  | replicate
  | snapshot
deriving DecidableEq, Repr

/-- The leader tracks the positions of each follower. -/
structure Progress where
  matched : Nat := 0
  nextIdx : Nat
  state : ProgressState := .probe
  paused : Bool := false
  pendingSnapshot : Nat := 0
  pendingRequestSnapshot : Nat := 0
  recentActive : Bool := false
  ins : Inflights
  commitGroupId : Nat := 0
  committedIndex : Nat := 0
deriving DecidableEq, Repr

namespace Progress

def new (nextIdx insSize : Nat) : Progress := { nextIdx, ins := Inflights.new insSize }

/-- A state change clears the pause, the pending snapshot and the window. -/
def resetState (pr : Progress) (state : ProgressState) : Progress :=
  { pr with paused := false, pendingSnapshot := 0, state, ins := pr.ins.reset }

/-- A role change of the leader restarts the progress. -/
def reset (pr : Progress) (nextIdx : Nat) : Progress :=
  { pr with
    matched := 0, nextIdx, state := .probe, paused := false, pendingSnapshot := 0
    pendingRequestSnapshot := invalidIndex, recentActive := false, ins := pr.ins.reset }

/-- Probing restarts after the matched index or after a sent snapshot. -/
def becomeProbe (pr : Progress) : Progress :=
  if pr.state = .snapshot then
    { pr.resetState .probe with nextIdx := max (pr.matched + 1) (pr.pendingSnapshot + 1) }
  else { pr.resetState .probe with nextIdx := pr.matched + 1 }

def becomeReplicate (pr : Progress) : Progress :=
  { pr.resetState .replicate with nextIdx := pr.matched + 1 }

def becomeSnapshot (pr : Progress) (snapshotIdx : Nat) : Progress :=
  { pr.resetState .snapshot with pendingSnapshot := snapshotIdx }

def snapshotFailure (pr : Progress) : Progress := { pr with pendingSnapshot := 0 }

def isSnapshotCaughtUp (pr : Progress) : Bool := pr.state == .snapshot && pr.matched ≥ pr.pendingSnapshot

def resume (pr : Progress) : Progress := { pr with paused := false }

def pause (pr : Progress) : Progress := { pr with paused := true }

/-- An acknowledged index raises the matched and the next index. -/
def maybeUpdate (pr : Progress) (n : Nat) : Except Fatal (Progress × Bool) := do
  let needUpdate := decide (pr.matched < n)
  let pr := if needUpdate then { pr with matched := n, paused := false } else pr
  let nextIdx ← checkedAdd n 1
  return (if pr.nextIdx < nextIdx then { pr with nextIdx } else pr, needUpdate)

/-- A reported commit index of the follower is kept when it is newer. -/
def updateCommitted (pr : Progress) (committedIndex : Nat) : Progress :=
  if committedIndex > pr.committedIndex then { pr with committedIndex } else pr

def optimisticUpdate (pr : Progress) (n : Nat) : Progress := { pr with nextIdx := n + 1 }

/-- A rejection lowers the next index unless it is stale. -/
def maybeDecrTo (pr : Progress) (rejected matchHint requestSnapshot : Nat) :
    Except Fatal (Progress × Bool) :=
  if pr.state = .replicate then
    if rejected < pr.matched ∨ (rejected = pr.matched ∧ requestSnapshot = invalidIndex) then
      .ok (pr, false)
    else if requestSnapshot = invalidIndex then do
      let nextIdx ← checkedAdd pr.matched 1
      return ({ pr with nextIdx }, true)
    else .ok ({ pr with pendingRequestSnapshot := requestSnapshot }, true)
  else if (pr.nextIdx = 0 ∨ pr.nextIdx - 1 ≠ rejected) ∧ requestSnapshot = invalidIndex then
    .ok (pr, false)
  else if requestSnapshot = invalidIndex then do
    let hinted ← checkedAdd matchHint 1
    let least ← checkedAdd pr.matched 1
    return ({ pr with nextIdx := max (min rejected hinted) least, paused := false }, true)
  else if pr.pendingRequestSnapshot = invalidIndex then
    .ok ({ pr with pendingRequestSnapshot := requestSnapshot, paused := false }, true)
  else .ok ({ pr with paused := false }, true)

/-- No message with entries may be sent. -/
def isPaused (pr : Progress) : Bool :=
  match pr.state with
  | .probe => pr.paused
  | .replicate => pr.ins.full
  | .snapshot => true

/-- A sent message with entries moves the window or pauses the probe. -/
def updateState (pr : Progress) (last : Nat) : Except Fatal Progress :=
  match pr.state with
  | .replicate => do
      let ins ← pr.ins.add last
      return { pr.optimisticUpdate last with ins }
  | .probe => .ok pr.pause
  | .snapshot => .error .updateStateInSnapshot

end Progress

end RaftRs

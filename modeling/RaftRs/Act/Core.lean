import RaftRs.Log.Write
import RaftRs.Conf.Retain

namespace RaftRs

open Library

/-- The positions that a leader tracks for a node. -/
structure Position where
  matched : Nat := 0
  nextIdx : Nat
  pendingSnapshot : Nat := 0
  pendingRequestSnapshot : Nat := 0

/-- The part of a node that its safety depends on. -/
structure Core where
  id : Nat
  term : Nat
  vote : Nat
  state : StateRole
  log : RaftLog
  msgs : List Message
  conf : Configuration
  positions : Nat → Option Position
  votes : Nat → Option Bool
  readOnly : ReadOnly
  readStates : List ReadState
  pendingRequestSnapshot : Nat
  batchAppend : Bool
  pendingConfIndex : Nat
  promotable : Bool
  preVote : Bool
  priority : Int
  /-- The last index at the moment the node started to lead. -/
  tail : Nat

/-- The tracked positions of a progress. -/
def Progress.position (pr : Progress) : Position :=
  { matched := pr.matched, nextIdx := pr.nextIdx, pendingSnapshot := pr.pendingSnapshot
    pendingRequestSnapshot := pr.pendingRequestSnapshot }

namespace Raft

/-- The core of a node. -/
def core (r : Raft) : Core :=
  { id := r.id, term := r.term, vote := r.vote, state := r.state, log := r.raftLog, msgs := r.msgs
    conf := r.prs.conf, positions := fun id => (r.prs.get id).map Progress.position
    votes := r.prs.votes.get?, readOnly := r.readOnly, readStates := r.readStates
    pendingRequestSnapshot := r.pendingRequestSnapshot, batchAppend := r.batchAppend
    pendingConfIndex := r.pendingConfIndex, promotable := r.promotable, preVote := r.preVote
    priority := r.priority, tail := r.uncommittedState.lastLogTailIndex }

end Raft

/-- A configuration and the tracked nodes follow a roster of the membership protocol. -/
def Rostered (conf : Configuration) (positions : Nat → Option Position) : Prop :=
  ∃ roster, Relation.ReflTransGen Roster.Step Roster.empty roster ∧ conf.Lists roster ∧
    ∀ id, (positions id).isSome = true ↔ id ∈ roster.members

theorem Raft.rostered_core {r : Raft} : Rostered r.core.conf r.core.positions ↔ r.prs.Rostered := by
  have known : ∀ id, (r.core.positions id).isSome = r.prs.progress.contains id := by
    intro id
    simp [Raft.core, ProgressTracker.get, KeyMap.contains]
  constructor
  · rintro ⟨roster, steps, lists, tracks⟩
    exact ⟨roster, steps, lists, fun id => by rw [← known]; exact tracks id⟩
  · rintro ⟨roster, steps, lists, tracks⟩
    exact ⟨roster, steps, lists, fun id => by rw [known]; exact tracks id⟩

namespace Core

def at' (c : Core) (id : Nat) (position : Position) : Core :=
  { c with positions := Function.update c.positions id (some position) }

def push (c : Core) (m : Message) : Core := { c with msgs := c.msgs ++ [m] }

/-- The positions after a role change. -/
def freshPositions (c : Core) (id : Nat) : Option Position :=
  (c.positions id).map fun _ =>
    { matched := if id = c.id then c.log.persisted else 0, nextIdx := c.log.lastIndex + 1 }

/-- A role change enters a term and forgets votes, positions and reads. -/
def enter (c : Core) (term : Nat) : Core :=
  { c with
    term, vote := if c.term = term then c.vote else invalidId, positions := c.freshPositions
    votes := fun _ => none, readOnly := ReadOnly.new c.readOnly.option, pendingConfIndex := 0 }

def asFollower (c : Core) (term : Nat) : Core :=
  { c.enter term with state := .follower, log := { c.log with maxApplyUnpersistedLogLimit := 0 } }

def asCandidate (c : Core) : Core :=
  { c.enter (c.term + 1) with vote := c.id, state := .candidate, pendingRequestSnapshot := invalidIndex }

def asPreCandidate (c : Core) : Core := { c with state := .preCandidate, votes := fun _ => none }

/-- The node leads its term. -/
def asLeader (c : Core) : Core :=
  { c.enter c.term with
    state := .leader, pendingRequestSnapshot := invalidIndex
    pendingConfIndex := c.log.lastIndex, tail := c.log.lastIndex
    positions := Function.update c.freshPositions c.id
      (some { matched := c.log.persisted, nextIdx := c.log.persisted + 1 }) }

def count (c : Core) (id : Nat) (vote : Bool) : Core :=
  { c with votes := if (c.votes id).isSome then c.votes else Function.update c.votes id (some vote) }

/-- A confirmed read is answered here or at the node it came from. -/
def respond (c : Core) (req : Message) (index : Nat) : Core :=
  if req.fromId = invalidId ∨ req.fromId = c.id then
    match req.entries.head? with
    | none => c
    | some entry => { c with readStates := c.readStates ++ [{ index, requestCtx := entry.data }] }
  else c.push
    { msgType := .msgReadIndexResp, toId := req.fromId, fromId := c.id, term := c.term, index
      entries := req.entries }

end Core

namespace Raft

variable (r : Raft)

/-- The core with the positions of one node as a loop has them. -/
def coreWith (id : Nat) (pr : Progress) : Core := r.core.at' id pr.position

theorem coreWith_get {id : Nat} {pr : Progress} (known : r.prs.get id = some pr) :
    r.coreWith id pr = r.core := by
  unfold coreWith Core.at'
  congr 1
  funext other
  by_cases same : other = id
  · subst same
    simp [core, known]
  · simp [core, same]

theorem core_put {id : Nat} {pr : Progress} (known : (r.prs.get id).isSome) :
    { r with prs := r.prs.put id pr }.core = r.coreWith id pr := by
  unfold coreWith Core.at' core
  congr 1
  funext other
  obtain ⟨old, found⟩ := Option.isSome_iff_exists.1 known
  by_cases same : other = id
  · subst same
    have : r.prs.progress.get? other = some old := found
    simp [ProgressTracker.put, ProgressTracker.get, this]
  · simp [ProgressTracker.put, ProgressTracker.get, same]

theorem core_resetProgress :
    r.resetProgress.core = { r.core with positions := r.core.freshPositions } := by
  unfold resetProgress core Core.freshPositions
  congr 1
  funext id
  simp only [ProgressTracker.get, KeyMap.get?_mapValues]
  cases r.prs.progress.get? id with
  | none => rfl
  | some pr =>
      simp only [Option.map_some, Option.some.injEq, Progress.position, Progress.reset]
      split <;> rfl

theorem core_reset (term : Nat) :
    (r.reset term).core = { r.core.enter term with pendingRequestSnapshot := invalidIndex } := by
  unfold reset
  rw [core_resetProgress]
  by_cases same : r.term = term
  · simp only [same, ne_eq, not_true_eq_false, if_false]
    subst same
    simp only [Core.enter, core, if_true]
    rfl
  · simp only [ne_eq, same, not_false_eq_true, if_true]
    have different : ¬ r.core.term = term := same
    simp only [Core.enter, different, if_false]
    rfl

theorem core_becomeFollower (term leaderId : Nat) :
    (r.becomeFollower term leaderId).core = r.core.asFollower term := by
  have reset := r.core_reset term
  have log : (r.reset term).raftLog = r.raftLog := congrArg Core.log reset
  have known : ∀ r' : Raft, { r' with
      leaderId, state := .follower, pendingRequestSnapshot := r.pendingRequestSnapshot
      raftLog := { r'.raftLog with maxApplyUnpersistedLogLimit := 0 } }.core = { r'.core with
      state := .follower, pendingRequestSnapshot := r.pendingRequestSnapshot
      log := { r'.raftLog with maxApplyUnpersistedLogLimit := 0 } } := fun _ => rfl
  unfold becomeFollower
  rw [known, reset, log]
  rfl

end Raft

end RaftRs

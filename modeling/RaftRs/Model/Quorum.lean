import RaftRs.Library.KeyMap
import RaftRs.Model.Proto
import Mathlib.Data.List.Sort

namespace RaftRs

open Library

/-- The outcome of a vote. -/
inductive VoteResult where
  | pending
  | lost
  | won
deriving DecidableEq, Repr

/-- A log position with the commit group of its node. -/
structure Index where
  index : Nat := 0
  groupId : Nat := 0
deriving DecidableEq, Repr

def majority (total : Nat) : Nat := total / 2 + 1

/-- A voter set that decides by majority. -/
structure MajorityConfig where
  voters : KeySet Nat := KeySet.empty
deriving DecidableEq, Repr

namespace MajorityConfig

def contains (config : MajorityConfig) (id : Nat) : Bool := config.voters.contains id

def isEmpty (config : MajorityConfig) : Bool := config.voters.isEmpty

def sortedMatched (config : MajorityConfig) (acked : Nat → Option Index) : List Index :=
  (config.voters.elems.map fun voter => (acked voter).getD {}).insertionSort fun a b => a.index ≥ b.index

/-- The scan of the group commit rule stops at the first position of a second group. -/
def groupScan (quorumCommitIndex : Nat) : List Index → Nat → Bool → Option Nat × Bool
  | [], _, singleGroup => (none, singleGroup)
  | m :: rest, checkedGroupId, singleGroup =>
      if m.groupId = 0 then groupScan quorumCommitIndex rest checkedGroupId false
      else if checkedGroupId = 0 then groupScan quorumCommitIndex rest m.groupId singleGroup
      else if checkedGroupId = m.groupId then groupScan quorumCommitIndex rest checkedGroupId singleGroup
      else (some (min m.index quorumCommitIndex), singleGroup)

/-- The highest index that a majority acknowledged, and whether the group rule decided it. -/
def committedIndex (config : MajorityConfig) (useGroupCommit : Bool) (acked : Nat → Option Index) :
    Nat × Bool :=
  if config.isEmpty then (noLimit, true)
  else
    let matched := config.sortedMatched acked
    let quorumIndex := matched.getD (majority matched.length - 1) {}
    if useGroupCommit then
      match groupScan quorumIndex.index matched quorumIndex.groupId true with
      | (some index, _) => (index, true)
      | (none, true) => (quorumIndex.index, false)
      | (none, false) => ((matched.getLast?.getD {}).index, false)
    else (quorumIndex.index, false)

/-- The outcome of the votes of the set. -/
def voteResult (config : MajorityConfig) (check : Nat → Option Bool) : VoteResult :=
  if config.isEmpty then .won
  else
    let yes := config.voters.elems.countP fun voter => check voter == some true
    let missing := config.voters.elems.countP fun voter => check voter == none
    let q := majority config.voters.len
    if yes ≥ q then .won else if yes + missing ≥ q then .pending else .lost

end MajorityConfig

/-- Two voter sets that must both agree. -/
structure JointConfig where
  incoming : MajorityConfig := {}
  outgoing : MajorityConfig := {}
deriving DecidableEq, Repr

namespace JointConfig

/-- An index is committed when both sets commit it. -/
def committedIndex (config : JointConfig) (useGroupCommit : Bool) (acked : Nat → Option Index) :
    Nat × Bool :=
  let (iIdx, iUseGc) := config.incoming.committedIndex useGroupCommit acked
  let (oIdx, oUseGc) := config.outgoing.committedIndex useGroupCommit acked
  (min iIdx oIdx, iUseGc && oUseGc)

/-- A vote is won when both sets won it and lost when one set lost it. -/
def voteResult (config : JointConfig) (check : Nat → Option Bool) : VoteResult :=
  match config.incoming.voteResult check, config.outgoing.voteResult check with
  | .won, .won => .won
  | .lost, _ => .lost
  | _, .lost => .lost
  | _, _ => .pending

def isSingleton (config : JointConfig) : Bool :=
  config.outgoing.isEmpty && config.incoming.voters.len == 1

def ids (config : JointConfig) : List Nat :=
  config.incoming.voters.elems ++ config.outgoing.voters.elems.filter
    fun id => !config.incoming.contains id

def contains (config : JointConfig) (id : Nat) : Bool :=
  config.incoming.contains id || config.outgoing.contains id

end JointConfig

end RaftRs

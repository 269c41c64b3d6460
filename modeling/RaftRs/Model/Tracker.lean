import RaftRs.Model.Progress
import RaftRs.Model.Quorum

namespace RaftRs

open Library

/-- The active configuration in the form the tracker uses. -/
structure Configuration where
  voters : JointConfig := {}
  learners : KeySet Nat := KeySet.empty
  learnersNext : KeySet Nat := KeySet.empty
  autoLeave : Bool := false
deriving DecidableEq, Repr

/-- The configuration in the form of the storage. -/
def Configuration.toConfState (conf : Configuration) : ConfState :=
  { voters := conf.voters.incoming.voters.elems
    votersOutgoing := conf.voters.outgoing.voters.elems
    learners := conf.learners.elems
    learnersNext := conf.learnersNext.elems
    autoLeave := conf.autoLeave }

def joint (conf : Configuration) : Bool := !conf.voters.outgoing.isEmpty

/-- A progress is added or removed with its node. -/
inductive MapChangeType where
  | add
  | remove
deriving DecidableEq, Repr

/-- The progress changes of a configuration change in order. -/
abbrev MapChange := List (Nat × MapChangeType)

abbrev ProgressMap := KeyMap Nat Progress

/-- The acknowledged position of a node is its matched index. -/
def ackedIndex (progress : ProgressMap) (voterId : Nat) : Option Index :=
  (progress.get? voterId).map fun pr => { index := pr.matched, groupId := pr.commitGroupId }

/-- The tracker holds the progress, the configuration and the votes. -/
structure ProgressTracker where
  progress : ProgressMap := KeyMap.empty
  conf : Configuration := {}
  votes : KeyMap Nat Bool := KeyMap.empty
  maxInflight : Nat
  groupCommit : Bool := false

namespace ProgressTracker

def new (maxInflight : Nat) : ProgressTracker := { maxInflight }

/-- The progress, the configuration and the votes are forgotten. -/
def clear (prs : ProgressTracker) : ProgressTracker :=
  { prs with progress := KeyMap.empty, conf := {}, votes := KeyMap.empty }

def isSingleton (prs : ProgressTracker) : Bool := prs.conf.voters.isSingleton

def get (prs : ProgressTracker) (id : Nat) : Option Progress := prs.progress.get? id

def put (prs : ProgressTracker) (id : Nat) (pr : Progress) : ProgressTracker :=
  { prs with progress := prs.progress.modify id fun _ => pr }

def maximalCommittedIndex (prs : ProgressTracker) : Nat × Bool :=
  prs.conf.voters.committedIndex prs.groupCommit (ackedIndex prs.progress)

def resetVotes (prs : ProgressTracker) : ProgressTracker := { prs with votes := KeyMap.empty }

def recordVote (prs : ProgressTracker) (id : Nat) (vote : Bool) : ProgressTracker :=
  if prs.votes.contains id then prs else { prs with votes := prs.votes.insert id vote }

def voteResult (prs : ProgressTracker) (votes : KeyMap Nat Bool) : VoteResult :=
  prs.conf.voters.voteResult fun id => votes.get? id

/-- The granted and the rejected votes of voters and the outcome. -/
def tallyVotes (prs : ProgressTracker) : Nat × Nat × VoteResult :=
  let counted := prs.votes.entries.filter fun vote => prs.conf.voters.contains vote.1
  (counted.countP fun vote => vote.2, counted.countP fun vote => !vote.2, prs.voteResult prs.votes)

def hasQuorum (prs : ProgressTracker) (potentialQuorum : KeySet Nat) : Bool :=
  prs.conf.voters.voteResult (fun id => if potentialQuorum.contains id then some true else none) == .won

/-- The recently active nodes form a quorum; the activity marks are cleared. -/
def quorumRecentlyActive (prs : ProgressTracker) (perspectiveOf : Nat) : ProgressTracker × Bool :=
  let active := KeySet.ofList ((prs.progress.entries.filter fun entry =>
    entry.1 == perspectiveOf || entry.2.recentActive).map Prod.fst)
  let progress := prs.progress.mapValues fun id pr => { pr with recentActive := id == perspectiveOf }
  ({ prs with progress }, prs.hasQuorum active)

/-- A configuration is installed together with its progress changes. -/
def applyConf (prs : ProgressTracker) (conf : Configuration) (changes : MapChange) (nextIdx : Nat) :
    ProgressTracker :=
  changes.foldl (fun prs change =>
    match change.2 with
    | .add =>
        let pr := { Progress.new nextIdx prs.maxInflight with recentActive := true }
        { prs with progress := prs.progress.insert change.1 pr }
    | .remove => { prs with progress := prs.progress.remove change.1 })
    { prs with conf }

end ProgressTracker

end RaftRs

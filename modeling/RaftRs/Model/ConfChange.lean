import RaftRs.Model.Tracker

namespace RaftRs

open Library

/-- A progress map with the changes that are collected on top of it. -/
structure IncrChangeMap where
  changes : MapChange := []
  base : ProgressMap

/-- The last change of a node decides whether it has a progress. -/
def IncrChangeMap.contains (prs : IncrChangeMap) (id : Nat) : Bool :=
  match prs.changes.reverse.find? fun change => change.1 == id with
  | some (_, .remove) => false
  | some (_, .add) => true
  | none => prs.base.contains id

def IncrChangeMap.push (prs : IncrChangeMap) (id : Nat) (change : MapChangeType) : IncrChangeMap :=
  { prs with changes := prs.changes ++ [(id, change)] }

/-- The changer works on a configuration and its collected progress changes. -/
abbrev ChangerState := Configuration × IncrChangeMap

namespace Changer

def withIncoming (cfg : Configuration) (change : KeySet Nat → KeySet Nat) : Configuration :=
  { cfg with voters := { cfg.voters with incoming := ⟨change cfg.voters.incoming.voters⟩ } }

/-- A new node becomes a voter or a learner and gets a progress. -/
def initProgress (state : ChangerState) (id : Nat) (isLearner : Bool) : ChangerState :=
  let cfg :=
    if isLearner then { state.1 with learners := state.1.learners.insert id }
    else withIncoming state.1 fun voters => voters.insert id
  (cfg, state.2.push id .add)

/-- A node becomes an incoming voter. -/
def makeVoter (state : ChangerState) (id : Nat) : ChangerState :=
  if state.2.contains id then
    let cfg := withIncoming state.1 fun voters => voters.insert id
    ({ cfg with learners := cfg.learners.remove id, learnersNext := cfg.learnersNext.remove id },
      state.2)
  else initProgress state id false

/-- A node leaves the incoming voters and the learners. -/
def dropNode (cfg : Configuration) (id : Nat) : Configuration :=
  let cfg := withIncoming cfg fun voters => voters.remove id
  { cfg with learners := cfg.learners.remove id, learnersNext := cfg.learnersNext.remove id }

/-- A node becomes a learner, at once or when the outgoing voters are dropped. -/
def makeLearner (state : ChangerState) (id : Nat) : ChangerState :=
  if state.2.contains id then
    if state.1.learners.contains id then state
    else
      let cfg := dropNode state.1 id
      if cfg.voters.outgoing.contains id then
        ({ cfg with learnersNext := cfg.learnersNext.insert id }, state.2)
      else ({ cfg with learners := cfg.learners.insert id }, state.2)
  else initProgress state id true

/-- A node is removed; an outgoing voter keeps its progress. -/
def remove (state : ChangerState) (id : Nat) : ChangerState :=
  if state.2.contains id then
    let cfg := dropNode state.1 id
    if cfg.voters.outgoing.contains id then (cfg, state.2) else (cfg, state.2.push id .remove)
  else state

/-- One change is applied; node zero stands for no change. -/
def applyOne (state : ChangerState) (cc : ConfChangeSingle) : ChangerState :=
  if cc.nodeId = 0 then state
  else match cc.changeType with
    | .addNode => makeVoter state cc.nodeId
    | .addLearnerNode => makeLearner state cc.nodeId
    | .removeNode => remove state cc.nodeId

/-- The changes are applied in order and must leave a voter. -/
def apply (state : ChangerState) (ccs : List ConfChangeSingle) : Except RaftError ChangerState :=
  let state := ccs.foldl applyOne state
  if state.1.voters.incoming.isEmpty then .error (.confChangeError "removed all voters") else .ok state

/-- The first violated condition on the voters. -/
def checkVoters (cfg : Configuration) (prs : IncrChangeMap) : Except RaftError Unit :=
  match cfg.voters.ids.find? fun id => !prs.contains id with
  | some id => .error (.confChangeError s!"no progress for voter {id}")
  | none => .ok ()

/-- The conditions on a learner. -/
def checkLearner (cfg : Configuration) (prs : IncrChangeMap) (id : Nat) : Except RaftError Unit :=
  if !prs.contains id then .error (.confChangeError s!"no progress for learner {id}")
  else if cfg.voters.outgoing.contains id then
    .error (.confChangeError s!"{id} is in learners and outgoing voters")
  else if cfg.voters.incoming.contains id then
    .error (.confChangeError s!"{id} is in learners and incoming voters")
  else .ok ()

/-- The conditions on a future learner. -/
def checkLearnerNext (cfg : Configuration) (prs : IncrChangeMap) (id : Nat) : Except RaftError Unit :=
  if !prs.contains id then .error (.confChangeError s!"no progress for learner(next) {id}")
  else if !cfg.voters.outgoing.contains id then
    .error (.confChangeError s!"{id} is in learners_next and outgoing voters")
  else .ok ()

/-- The invariants of a configuration and its progress. -/
def checkInvariants (cfg : Configuration) (prs : IncrChangeMap) : Except RaftError Unit := do
  checkVoters cfg prs
  cfg.learners.elems.forM (checkLearner cfg prs)
  cfg.learnersNext.elems.forM (checkLearnerNext cfg prs)
  if !joint cfg then
    if !cfg.learnersNext.isEmpty then
      throw (.confChangeError "learners_next must be empty when not joint")
    else if cfg.autoLeave then throw (.confChangeError "auto_leave must be false when not joint")
    else return ()
  else return ()

/-- The changer starts from a checked copy of the configuration. -/
def checkAndCopy (tracker : ProgressTracker) : Except RaftError ChangerState := do
  let prs : IncrChangeMap := { base := tracker.progress }
  checkInvariants tracker.conf prs
  return (tracker.conf, prs)

/-- A joint configuration keeps the old voters as outgoing ones. -/
def enterJoint (tracker : ProgressTracker) (autoLeave : Bool) (ccs : List ConfChangeSingle) :
    Except RaftError (Configuration × MapChange) := do
  if joint tracker.conf then throw (.confChangeError "config is already joint")
  else
    let (cfg, prs) ← checkAndCopy tracker
    if cfg.voters.incoming.isEmpty then
      throw (.confChangeError "can't make a zero-voter config joint")
    else
      let outgoing : MajorityConfig :=
        ⟨cfg.voters.outgoing.voters.extend cfg.voters.incoming.voters.elems⟩
      let (cfg, prs) ← apply ({ cfg with voters := { cfg.voters with outgoing } }, prs) ccs
      let cfg := { cfg with autoLeave }
      checkInvariants cfg prs
      return (cfg, prs.changes)

/-- Leaving a joint configuration drops the outgoing voters. -/
def leaveJoint (tracker : ProgressTracker) : Except RaftError (Configuration × MapChange) := do
  if !joint tracker.conf then throw (.confChangeError "can't leave a non-joint config")
  else
    let (cfg, prs) ← checkAndCopy tracker
    let cfg := { cfg with
      learners := cfg.learners.extend cfg.learnersNext.elems, learnersNext := KeySet.empty }
    let prs := cfg.voters.outgoing.voters.elems.foldl (fun prs id =>
      if !cfg.voters.incoming.contains id && !cfg.learners.contains id then prs.push id .remove
        else prs) prs
    let cfg := { cfg with voters := { cfg.voters with outgoing := {} }, autoLeave := false }
    checkInvariants cfg prs
    return (cfg, prs.changes)

def symmetricDifferenceCount (a b : KeySet Nat) : Nat :=
  (a.elems.countP fun id => !b.contains id) + b.elems.countP fun id => !a.contains id

/-- A simple change alters at most one voter. -/
def simple (tracker : ProgressTracker) (ccs : List ConfChangeSingle) :
    Except RaftError (Configuration × MapChange) := do
  if joint tracker.conf then throw (.confChangeError "can't apply simple config change in joint config")
  else
    let state ← checkAndCopy tracker
    let (cfg, prs) ← apply state ccs
    if symmetricDifferenceCount cfg.voters.incoming.voters tracker.conf.voters.incoming.voters > 1 then
      throw (.confChangeError "more than one voter changed without entering joint config")
    else
      checkInvariants cfg prs
      return (cfg, prs.changes)

end Changer

/-- The changes that build a configuration: first the outgoing voters, then the step into the joint
one. -/
def toConfChangeSingle (cs : ConfState) : List ConfChangeSingle × List ConfChangeSingle :=
  (cs.votersOutgoing.map fun id => ⟨.addNode, id⟩,
    (cs.votersOutgoing.map fun id => ⟨.removeNode, id⟩) ++ (cs.voters.map fun id => ⟨.addNode, id⟩) ++
      (cs.learners.map fun id => ⟨.addLearnerNode, id⟩) ++ cs.learnersNext.map
        fun id => ⟨.addLearnerNode, id⟩)

/-- One simple change is applied to the tracker. -/
def applySimple (nextIdx : Nat) (tracker : ProgressTracker) (cc : ConfChangeSingle) :
    Except RaftError ProgressTracker := do
  let (cfg, changes) ← Changer.simple tracker [cc]
  return tracker.applyConf cfg changes nextIdx

/-- The tracker is rebuilt from a stored configuration. -/
def restoreConf (tracker : ProgressTracker) (nextIdx : Nat) (cs : ConfState) :
    Except RaftError ProgressTracker :=
  match toConfChangeSingle cs with
  | ([], incoming) => incoming.foldlM (applySimple nextIdx) tracker
  | (outgoing, incoming) => do
      let tracker ← outgoing.foldlM (applySimple nextIdx) tracker
      let (cfg, changes) ← Changer.enterJoint tracker cs.autoLeave incoming
      return tracker.applyConf cfg changes nextIdx

end RaftRs

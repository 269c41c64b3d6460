import RaftRs.Library.Extension

namespace RaftRs.Library

open Termed

/-- The roles of a replica. -/
inductive Role where
  | follower
  | candidate
  | leader
deriving DecidableEq

/-- The state of a replica with its whole log. -/
structure Replica (ν ε : Type) where
  term : Nat
  vote : Option ν
  role : Role
  log : List ε
  commit : Nat

/-- What a replica promises with a message that it sends. -/
inductive Promise (ν ε : Type) where
  /-- The log of the leader of a term is kept up to an index. -/
  | ack (t i : Nat)
  /-- The commit index does not fall below an index. -/
  | floor (t i : Nat)
  /-- The vote of a term belongs to a candidate and was given with a log. -/
  | vote (t : Nat) (c : ν) (log : List ε)

/-- The term of a promise. -/
def Promise.term {ν ε : Type} : Promise ν ε → Nat
  | .ack t _ => t
  | .floor t _ => t
  | .vote t _ _ => t

/-- A stage is a state that a restart may return to, with the promises that wait for it. -/
structure Stage (ν ε : Type) where
  promises : Set (Promise ν ε)
  replica : Replica ν ε

namespace History

variable {ν ε : Type}

/-- The promises of a node that have become visible. -/
def recorded (h : History ν ε) (x : ν) : Set (Promise ν ε) := fun
  | .ack t i => h.acks x t i
  | .floor t i => h.floors x t i
  | .vote t c log => ∃ n, h.votes x t c log n

/-- The stages of a node from its durable state to its live state. -/
def stages (h : History ν ε) (x : ν) (durable : Replica ν ε) (pending : List (Stage ν ε))
    (live : Option (Stage ν ε)) : List (Stage ν ε) :=
  ⟨h.recorded x, durable⟩ :: (pending ++ live.toList)

variable [Termed ε]

/-- A log covers an acknowledged index of a term up to excuses. -/
def Covered (h : History ν ε) (t i : Nat) (log : List ε) : Prop :=
  ∀ j ≤ i, h.Holds t j log ∨ h.Excused t j

/-- A replica keeps a promise. -/
def Kept (h : History ν ε) (v : Replica ν ε) : Promise ν ε → Prop
  | .ack t i => t ≤ v.term ∧ h.Covered t i v.log ∧ (t = v.term → h.Holds t i v.log)
  | .floor t i => t ≤ v.term ∧ i ≤ v.commit ∧ (t = v.term → v.role = .follower)
  | .vote t c log => t ≤ v.term ∧ (t = v.term → v.vote = some c ∧ (v.role = .candidate → v.log = log))

/-- A promise of a node refers to elections and requests that exist. -/
def Sound (h : History ν ε) (x : ν) : Promise ν ε → Prop
  | .ack t _ => h.Elected t
  | .floor t _ => ∃ e ∈ h.elections, e.term = t ∧ e.leader ≠ x
  | .vote t c log => h.Path log ∧ (c = x ∨ ∃ own n, h.votes c t c own n ∧ UpToDate log own)

/-- Two promises of one node do not contradict each other. -/
def Compatible (h : History ν ε) : Promise ν ε → Promise ν ε → Prop
  | .vote t c _, .vote t' c' _ => t = t' → c = c'
  | .ack t i, .vote t' _ log => t < t' → h.Covered t i log
  | .floor t i, .vote t' _ log => t < t' → h.Covered t i log
  | _, _ => True

/-- A replica has a path as its log and a committed beginning. -/
structure Proper (h : History ν ε) (v : Replica ν ε) : Prop where
  path : h.Path v.log
  terms : ∀ x ∈ v.log, termOf x ≤ v.term
  bounded : v.commit ≤ v.log.length
  committed : h.Committed (v.log.take v.commit)
  candidate : v.role = .candidate → ∀ x ∈ v.log, termOf x < v.term

/-- A stage keeps its own promises. -/
structure Settled (h : History ν ε) (x : ν) (s : Stage ν ε) : Prop where
  proper : h.Proper s.replica
  kept : ∀ p ∈ s.promises, h.Kept s.replica p
  sound : ∀ p ∈ s.promises, h.Sound x p

/-- A later stage keeps the promises of an earlier one and makes its own in later terms. -/
structure Before (h : History ν ε) (s s' : Stage ν ε) : Prop where
  term : s.replica.term ≤ s'.replica.term
  kept : ∀ p ∈ s.promises, h.Kept s'.replica p
  fresh : ∀ p ∈ s'.promises, s.replica.term ≤ p.term

/-- A live leader was elected in its term, and every state it may restart from lies between its base
and its log. -/
def Leading (h : History ν ε) (x : ν) (v : Replica ν ε) (older : List (Replica ν ε)) : Prop :=
  v.log = h.log v.term ∧ ∃ e ∈ h.elections, e.term = v.term ∧ e.leader = x ∧
    ∀ u ∈ older, u.term = v.term ∧ e.base <+: u.log ∧ u.log <+: v.log

/-- A live candidate voted for itself, and every state of its term that it may restart from was one
of it as a candidate. -/
def Campaigning (h : History ν ε) (x : ν) (v : Replica ν ε) (older : List (Replica ν ε)) : Prop :=
  v.vote = some x ∧ (∀ e ∈ h.elections, e.term = v.term → e.leader ≠ x) ∧
    ∀ u ∈ older, u.term = v.term → u.role = .candidate

/-- The states that a node may restart from. -/
def older (durable : Replica ν ε) (pending : List (Stage ν ε)) : List (Replica ν ε) :=
  durable :: pending.map Stage.replica

/-- The promises of a node are kept by every state that it may continue from. -/
structure Faithful (h : History ν ε) (x : ν) (stages : List (Stage ν ε)) : Prop where
  settled : ∀ s ∈ stages, h.Settled x s
  ordered : stages.Pairwise h.Before
  compatible : ∀ s ∈ stages, ∀ s' ∈ stages, ∀ p ∈ s.promises, ∀ q ∈ s'.promises, h.Compatible p q

/-- The invariant of one node. -/
structure NodeInv (h : History ν ε) (x : ν) (durable : Replica ν ε) (pending : List (Stage ν ε))
    (live : Option (Stage ν ε)) : Prop extends Faithful h x (h.stages x durable pending live) where
  leading : ∀ s, live = some s → s.replica.role = .leader → h.Leading x s.replica (older durable pending)
  campaigning : ∀ s, live = some s → s.replica.role = .candidate →
    h.Campaigning x s.replica (older durable pending)

variable {quorum : Set ν → Prop} {h h' : History ν ε}

theorem Extends.covered (ext : h.Extends h') (valid : h.Valid quorum) (valid' : h'.Valid quorum)
    {t i : Nat} (elected : h.Elected t) {log : List ε} (covered : h.Covered t i log) :
    h'.Covered t i log := by
  intro j le
  exact (covered j le).imp ext.holds (ext.excused valid (ext.grows valid') elected)

omit [Termed ε] in
theorem elected_of_floor {x : ν} {t : Nat} (floor : ∃ e ∈ h.elections, e.term = t ∧ e.leader ≠ x) :
    h.Elected t := by
  obtain ⟨e, member, term, -⟩ := floor
  exact ⟨e, member, term⟩

/-- Kept promises stay kept when the history grows. -/
theorem Extends.kept (ext : h.Extends h') (valid : h.Valid quorum) (valid' : h'.Valid quorum) {x : ν}
    {v : Replica ν ε} {p : Promise ν ε} (sound : h.Sound x p) (kept : h.Kept v p) : h'.Kept v p := by
  cases p with
  | ack t i =>
      exact ⟨kept.1, ext.covered valid valid' sound kept.2.1, fun same => ext.holds (kept.2.2 same)⟩
  | floor t i => exact kept
  | vote t c log => exact kept

/-- Sound promises stay sound when the history grows. -/
theorem Extends.sound (ext : h.Extends h') {x : ν} {p : Promise ν ε} (sound : h.Sound x p) :
    h'.Sound x p := by
  cases p with
  | ack t i => exact ext.elected sound
  | floor t i =>
      obtain ⟨e, member, rest⟩ := sound
      exact ⟨e, ext.election member, rest⟩
  | vote t c log =>
      refine ⟨ext.path sound.1, sound.2.imp id ?_⟩
      rintro ⟨own, n, vote, complete⟩
      exact ⟨own, n, ext.votes vote, complete⟩

/-- Compatible promises stay compatible when the history grows. -/
theorem Extends.compatible (ext : h.Extends h') (valid : h.Valid quorum) (valid' : h'.Valid quorum)
    {x : ν} {p q : Promise ν ε} (sound : h.Sound x p) (compatible : h.Compatible p q) :
    h'.Compatible p q := by
  cases p with
  | ack t i =>
      cases q with
      | vote t' c log => exact fun later => ext.covered valid valid' sound (compatible later)
      | _ => trivial
  | floor t i =>
      cases q with
      | vote t' c log =>
          exact fun later => ext.covered valid valid' (elected_of_floor sound) (compatible later)
      | _ => trivial
  | vote t c log =>
      cases q with
      | vote t' c' log' => exact compatible
      | _ => trivial

theorem Extends.proper (ext : h.Extends h') {v : Replica ν ε} (proper : h.Proper v) : h'.Proper v :=
  ⟨ext.path proper.path, proper.terms, proper.bounded, ext.committed proper.committed, proper.candidate⟩

/-- Settled stages stay settled when the history grows. -/
theorem Extends.settled (ext : h.Extends h') (valid : h.Valid quorum) (valid' : h'.Valid quorum) {x : ν}
    {s : Stage ν ε} (settled : h.Settled x s) : h'.Settled x s :=
  ⟨ext.proper settled.proper,
    fun p inside => ext.kept valid valid' (settled.sound p inside) (settled.kept p inside),
    fun p inside => ext.sound (settled.sound p inside)⟩

theorem Extends.before (ext : h.Extends h') (valid : h.Valid quorum) (valid' : h'.Valid quorum) {x : ν}
    {s s' : Stage ν ε} (settled : h.Settled x s) (before : h.Before s s') : h'.Before s s' :=
  ⟨before.term, fun p inside => ext.kept valid valid' (settled.sound p inside) (before.kept p inside),
    before.fresh⟩

/-- Kept promises survive the growth of the history. -/
theorem Faithful.extend (ext : h.Extends h') (valid : h.Valid quorum) (valid' : h'.Valid quorum) {x : ν}
    {stages : List (Stage ν ε)} (faithful : h.Faithful x stages) : h'.Faithful x stages := by
  constructor
  · intro s inside
    exact ext.settled valid valid' (faithful.settled s inside)
  · exact faithful.ordered.imp_of_mem fun inside _ before =>
      ext.before valid valid' (faithful.settled _ inside) before
  · intro s inS s' inS' p inP q inQ
    exact ext.compatible valid valid' ((faithful.settled s inS).sound p inP)
      (faithful.compatible s inS s' inS' p inP q inQ)

/-- The invariant of a node survives the growth of the history that other nodes cause. -/
theorem NodeInv.extend (ext : h.Extends h') (valid : h.Valid quorum) (valid' : h'.Valid quorum) {x : ν}
    {durable : Replica ν ε} {pending : List (Stage ν ε)} {live : Option (Stage ν ε)}
    (recorded : h'.recorded x = h.recorded x)
    (elections : ∀ e ∈ h'.elections, e.leader = x → e ∈ h.elections)
    (logs : ∀ e ∈ h.elections, e.leader = x → h'.log e.term = h.log e.term)
    (inv : h.NodeInv x durable pending live) : h'.NodeInv x durable pending live := by
  have same : h'.stages x durable pending live = h.stages x durable pending live := by
    rw [stages, stages, recorded]
  refine ⟨same ▸ inv.toFaithful.extend ext valid valid', ?_, ?_⟩
  · intro s isLive role
    obtain ⟨whole, e, member, term, leader, between⟩ := inv.leading s isLive role
    refine ⟨?_, e, ext.election member, term, leader, between⟩
    rw [whole, ← term, logs e member leader]
  · intro s isLive role
    obtain ⟨vote, notElected, candidates⟩ := inv.campaigning s isLive role
    refine ⟨vote, fun e member term leader => ?_, candidates⟩
    exact notElected e (elections e member leader) term leader

end History

end RaftRs.Library

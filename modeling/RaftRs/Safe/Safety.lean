import RaftRs.Safe.Cluster

namespace RaftRs

open Library

/-- The index of a delivery. -/
def Delivery.index : Delivery → Nat
  | .entry e _ => e.index
  | .snapshot s => s.metadata.index

/-- The term of a delivery. -/
def Delivery.term : Delivery → Nat
  | .entry e _ => e.term
  | .snapshot s => s.metadata.term

/-- Two deliveries agree: an index has one entry, and a snapshot has the term of its index. -/
def Delivery.Agrees : Delivery → Delivery → Prop
  | .entry e _, .entry f _ => e.index = f.index → e = f
  | d, d' => d.index = d'.index → d.term = d'.term

variable {cs : ConfState} {h h' : History Nat Entry} {x : Nat} {node : Node Nat Entry} {host : Host}
  {rn : RawNode}

theorem RaftLog.Shows.entry_eq {log log' : RaftLog} {full full' : List Entry} (view : log.Shows full)
    (view' : log'.Shows full') {i j : Nat} (same : full.take i = full'.take i) (le : j ≤ i) {e f : Entry}
    (present : log.entryAt j = some e) (present' : log'.entryAt j = some f) : e = f := by
  have first := (view.wf.bounds present).1
  have positive := view.wf.first_pos
  have inside : j - 1 < i := by omega
  have read := view.entry j e present
  rw [← List.getElem?_take_of_lt inside, same, List.getElem?_take_of_lt inside,
    view'.entry j f present'] at read
  exact (Option.some.inj read).symm

theorem Host.Lives.shows (lives : host.Lives cs h x node) (running : host.raw = some rn) :
    ∃ V : Replica Nat Entry, h.Proper V ∧ rn.raft.raftLog.Shows V.log ∧
      V.commit = rn.raft.raftLog.committed := by
  obtain ⟨P, V, -, mirrors, core⟩ := lives.core running
  exact ⟨V, core.inv.proper, mirrors.core.picture.log, mirrors.core.picture.commit⟩

theorem Contiguous.index_pos {log : List Entry} (numbered : Contiguous 1 log) {e : Entry}
    (found : log[e.index - 1]? = some e) : 0 < e.index := by
  have index := numbered _ e found
  omega

/-- A decided delivery has the term of its index in a committed log. -/
theorem Delivery.Decided.stands (recounts : Recounts cs h) {d : Delivery} (decided : d.Decided h) :
    ∃ log, h.Committed log ∧ d.index ≤ log.length ∧ lastTerm (log.take d.index) = d.term := by
  cases d with
  | entry e bound =>
      obtain ⟨log, committed, found⟩ := decided
      have positive := (recounts.numbered_path (recounts.committed_path committed)).index_pos found
      have inside := (List.getElem?_eq_some_iff.1 found).1
      have term := lastTerm_of_getElem? found
      rw [Nat.sub_add_cancel positive] at term
      exact ⟨log, committed, Nat.le_of_pred_lt inside, term⟩
  | snapshot s =>
      obtain ⟨log, committed, length, term⟩ := decided
      exact ⟨log, committed, length.ge, by rw [Delivery.index, ← length, List.take_length]; exact term⟩

/-- Decided deliveries agree. -/
theorem Delivery.Decided.agrees (several : cs.NoSingleton) (recounts : Recounts cs h) {d d' : Delivery}
    (decided : d.Decided h) (decided' : d'.Decided h) : d.Agrees d' := by
  have terms : d.index = d'.index → d.term = d'.term := by
    intro same
    obtain ⟨log, committed, inside, term⟩ := decided.stands recounts
    obtain ⟨log', committed', inside', term'⟩ := decided'.stands recounts
    rw [← same] at inside' term'
    rw [← term, ← term',
      recounts.valid.committed_take_eq several.intersecting committed committed' inside inside']
  cases d with
  | snapshot s => exact terms
  | entry e bound =>
      cases d' with
      | snapshot s => exact terms
      | entry f bound' =>
          intro same
          obtain ⟨log, committed, found⟩ := decided
          obtain ⟨log', committed', found'⟩ := decided'
          have positive := (recounts.numbered_path (recounts.committed_path committed)).index_pos found
          have inside := (List.getElem?_eq_some_iff.1 found).1
          have inside' := (List.getElem?_eq_some_iff.1 found').1
          have equal :=
            recounts.valid.committed_take_eq several.intersecting committed committed' (i := e.index)
            (by omega) (by omega)
          rw [← same] at found'
          rw [← List.getElem?_take_of_lt (show e.index - 1 < e.index by omega), equal,
            List.getElem?_take_of_lt (by omega), found'] at found
          exact (Option.some.inj found).symm

/-- A leader that has committed an entry of its term has decided its commit index. -/
theorem Core.Lives.decided_own {durable V : Replica Nat Entry} {pending : List (Stage Nat Entry)}
    {P : Set (Promise Nat Entry)} {c : Core} (lives : c.Lives cs h x durable pending P V)
    (role : c.state = .leader) (current : c.log.matchTerm c.log.committed c.term = true) :
    h.commits c.term c.log.committed := by
  have valid := lives.recounts.valid
  obtain ⟨e, member, term, own⟩ := ((lives.mirrors.rules role).decides).own
  have nonzero : c.term ≠ 0 := term ▸ lives.recounts.positive e member
  obtain ⟨-, last⟩ := lives.mirrors.picture.log.matched current nonzero
  rw [lives.leader_log role, termAt] at last
  refine own ?_
  have path := valid.path_take (valid.path_log c.term) c.log.committed
  have nonempty : (h.log c.term).take c.log.committed ≠ [] := by
    intro empty
    rw [empty, lastTerm_nil] at last
    exact nonzero last.symm
  have longer := valid.base_length_lt member path nonempty (last.trans term.symm)
  rw [List.length_take] at longer
  omega

/-- What a history has decided is kept by every state that a machine of a quorum may restart
from. -/
theorem Host.Lives.keeps_decided (several : cs.NoSingleton) (lives : host.Lives cs h x node)
    {t i j : Nat} (decided : h.commits t i) (le : i ≤ j) (acked : h.Acked x t j) :
    (h.log t).take i <+: node.durable.log := by
  have valid := lives.recounts.valid
  have intersecting := several.intersecting
  have settled := lives.inv.settled ⟨h.recorded x, node.durable⟩ (by simp [History.stages])
  have excused : ¬ h.Excused t i := by
    rintro ⟨e, member, later, lacks⟩
    exact lacks (valid.later_leader_holds intersecting decided member later)
  rcases acked with acked | floor
  · obtain ⟨-, covered, -⟩ := settled.kept (.ack t j) acked
    exact ((covered i le).resolve_right excused).2
  · obtain ⟨-, low, -⟩ := settled.kept (.floor t j) floor
    have proper := settled.proper
    exact ((valid.holds_or_excused intersecting (valid.decided decided).1 proper.bounded proper.committed
      (le.trans low)).resolve_right excused).2

namespace Cluster

variable [ConfChangeCodec] {cluster cluster' : Cluster} {first second : Nat} {rn rn' : RawNode}

/-- Two moments of one orderly run. -/
def Moments (cs : ConfState) (cluster cluster' : Cluster) : Prop :=
  (Reachable Host.Orderly cs cluster ∧ Steps Host.Orderly cluster cluster') ∨
    (Reachable Host.Orderly cs cluster' ∧ Steps Host.Orderly cluster' cluster)

/-- One history explains two moments of an orderly run. -/
theorem Moments.explained (several : cs.NoSingleton) (moments : Moments cs cluster cluster') :
    ∃ (w w' : World Nat Entry) (h : History Nat Entry), Recounts cs h ∧ w.history.Extends h ∧
      w'.history.Extends h ∧ cluster.Explained cs w ∧ cluster'.Explained cs w' := by
  rcases moments with ⟨reachable, run⟩ | ⟨reachable, run⟩
  · obtain ⟨w, explained⟩ := reachable.explained several
    obtain ⟨w', ext, explained'⟩ := explained.steps several reachable run
    exact ⟨w, w', w'.history, (explained'.hosts 0).recounts, ext, .refl _, explained, explained'⟩
  · obtain ⟨w', explained'⟩ := reachable.explained several
    obtain ⟨w, ext, explained⟩ := explained'.steps several reachable run
    exact ⟨w, w', w.history, (explained.hosts 0).recounts, .refl _, ext, explained, explained'⟩

/-- Two voters elect the first one, and both commit and apply its first entry. -/
def replication : List Event :=
  [.operate 1 (.restart { id := 1 } fun _ => 0), .operate 2 (.restart { id := 2 } fun _ => 0),
    .operate 1 .campaign, .operate 1 .ready, .operate 1 .flush, .operate 1 (.send 1),
      .operate 1 .advance, .deliver 0, .operate 2 .ready,
    .operate 2 .flush, .operate 2 (.send 1), .operate 2 .advance, .deliver 1, .operate 1 .ready,
      .operate 1 .flush,
    .operate 1 .advance, .deliver 2, .operate 2 .ready, .operate 2 .flush, .operate 2 (.send 2),
      .operate 2 .advance,
    .deliver 3, .operate 1 .ready, .operate 1 .flush, .operate 1 .advance, .deliver 4,
      .operate 2 .ready, .operate 2 .flush,
    .operate 2 .advance]

/-- The second voter is elected afterwards. -/
def succession : List Event :=
  [.operate 2 .campaign, .operate 2 .ready, .operate 2 .flush, .operate 2 (.send 4),
    .operate 2 .advance, .deliver 6, .operate 1 .ready, .operate 1 .flush, .operate 1 (.send 4),
      .operate 1 .advance, .deliver 7]

/-- A machine runs a node that has committed the first entry in the first term, and has handed out
something. -/
def applied (cluster : Cluster) (id : Nat) : Bool :=
  ((cluster.hosts id).raw.any fun rn => rn.raft.raftLog.committed == 1 &&
    rn.raft.raftLog.term 1 == .ok 1 &&
    (rn.raft.raftLog.entryAt 1).isSome) && !(cluster.hosts id).delivered.isEmpty

omit [ConfChangeCodec] in
/-- A machine that has applied the first entry runs a node that has it. -/
theorem of_applied {id : Nat} (passed : cluster.applied id = true) :
    ∃ rn e d, (cluster.hosts id).raw = some rn ∧ rn.raft.raftLog.committed = 1 ∧
      rn.raft.raftLog.term 1 = .ok 1 ∧
      rn.raft.raftLog.entryAt 1 = some e ∧ d ∈ (cluster.hosts id).delivered := by
  simp only [applied, Bool.and_eq_true, Option.any_eq_true, beq_iff_eq, Bool.not_eq_true',
    List.isEmpty_eq_false_iff, Option.isSome_iff_exists] at passed
  obtain ⟨⟨rn, running, ⟨commit, known⟩, e, present⟩, nonempty⟩ := passed
  obtain ⟨d, handed⟩ := List.exists_mem_of_ne_nil _ nonempty
  exact ⟨rn, e, d, running, commit, known, present, handed⟩

omit [ConfChangeCodec] in
/-- The scripted replication is an orderly run after which both voters have applied the first
entry. -/
theorem reachable_replication : let _ := ConfChangeCodec.sample
    ∃ cluster, Reachable Host.Orderly { voters := [1, 2] } cluster ∧ cluster.applied 1 = true ∧
      cluster.applied 2 = true := by
  intro _
  obtain ⟨cluster, reachable, passed⟩ : ∃ cluster, Reachable Host.Orderly { voters := [1, 2] }
    cluster ∧ _ :=
    reachable_reaches (fun _ _ => Host.orderly_of_plain)
      (show reaches _ (fun _ => HostOp.plain) replication (fun cluster =>
      cluster.applied 1 && cluster.applied 2) = true by decide +kernel)
  exact ⟨cluster, reachable, by simpa using passed⟩

omit [ConfChangeCodec] in
theorem noSingleton_pair : ConfState.NoSingleton { voters := [1, 2] } :=
  ConfState.noSingleton_of_majority (by decide)

/-- The logs of any two nodes at any two moments agree up to every position that has one term in
both. -/
theorem log_matching (several : cs.NoSingleton) (moments : Moments cs cluster cluster')
    (running : (cluster.hosts first).raw = some rn)
    (running' : (cluster'.hosts second).raw = some rn') {i t : Nat} (positive : 0 < t)
    (known : rn.raft.raftLog.term i = .ok t) (known' : rn'.raft.raftLog.term i = .ok t) :
    ∀ j ≤ i, ∀ e f, rn.raft.raftLog.entryAt j = some e → rn'.raft.raftLog.entryAt j = some f →
      e = f := by
  obtain ⟨w, w', h, recounts, ext, ext', explained, explained'⟩ := moments.explained several
  obtain ⟨V, proper, view, -⟩ := (explained.hosts first).shows running
  obtain ⟨V', proper', view', -⟩ := (explained'.hosts second).shows running'
  obtain ⟨inside, term⟩ := view.term_of_lt known positive
  obtain ⟨inside', term'⟩ := view'.term_of_lt known' positive
  have same :=
    recounts.valid.path_matching (ext.path proper.path) (ext'.path proper'.path) inside inside'
    (term.trans term'.symm)
  exact fun j le e f present present' => view.entry_eq view' same le present present'

omit [ConfChangeCodec] in
/-- Two voters have the same first entry. -/
theorem log_matching_pair : let _ := ConfChangeCodec.sample
    ∃ (cluster : Cluster) (rn rn' : RawNode) (e f : Entry), (cluster.hosts 1).raw = some rn ∧
      (cluster.hosts 2).raw = some rn' ∧ rn.raft.raftLog.entryAt 1 = some e ∧
        rn'.raft.raftLog.entryAt 1 = some f ∧ e = f := by
  intro _
  obtain ⟨cluster, reachable, first, second⟩ := reachable_replication
  obtain ⟨rn, e, -, running, -, known, present, -⟩ := of_applied first
  obtain ⟨rn', f, -, running', -, known', present', -⟩ := of_applied second
  exact ⟨cluster, rn, rn', e, f, running, running', present, present', log_matching noSingleton_pair
    (.inl ⟨reachable, .refl⟩) running running' Nat.one_pos known known' 1 le_rfl e f present present'⟩

/-- Entries that any two nodes have committed at any two moments agree. -/
theorem committed_entries_agree (several : cs.NoSingleton) (moments : Moments cs cluster cluster')
    (running : (cluster.hosts first).raw = some rn)
    (running' : (cluster'.hosts second).raw = some rn') {i : Nat} {e f : Entry}
    (low : i ≤ rn.raft.raftLog.committed) (low' : i ≤ rn'.raft.raftLog.committed)
    (present : rn.raft.raftLog.entryAt i = some e)
    (present' : rn'.raft.raftLog.entryAt i = some f) : e = f := by
  obtain ⟨w, w', h, recounts, ext, ext', explained, explained'⟩ := moments.explained several
  obtain ⟨V, proper, view, commit⟩ := (explained.hosts first).shows running
  obtain ⟨V', proper', view', commit'⟩ := (explained'.hosts second).shows running'
  rw [← commit] at low
  rw [← commit'] at low'
  have same := recounts.valid.committed_take_eq several.intersecting (ext.committed proper.committed)
    (ext'.committed proper'.committed) (i := i)
    (by rw [List.length_take, min_eq_left proper.bounded]; exact low)
    (by rw [List.length_take, min_eq_left proper'.bounded]; exact low')
  rw [List.take_take, List.take_take, min_eq_left low, min_eq_left low'] at same
  exact view.entry_eq view' same le_rfl present present'

omit [ConfChangeCodec] in
/-- Two voters have committed the same first entry. -/
theorem committed_entries_agree_pair : let _ := ConfChangeCodec.sample
    ∃ (cluster : Cluster) (rn rn' : RawNode) (e f : Entry), (cluster.hosts 1).raw = some rn ∧
      (cluster.hosts 2).raw = some rn' ∧ rn.raft.raftLog.committed = 1 ∧ rn'.raft.raftLog.committed = 1 ∧
      rn.raft.raftLog.entryAt 1 = some e ∧ rn'.raft.raftLog.entryAt 1 = some f ∧ e = f := by
  intro _
  obtain ⟨cluster, reachable, first, second⟩ := reachable_replication
  obtain ⟨rn, e, -, running, commit, -, present, -⟩ := of_applied first
  obtain ⟨rn', f, -, running', commit', -, present', -⟩ := of_applied second
  exact ⟨cluster, rn, rn', e, f, running, running', commit, commit', present, present',
    committed_entries_agree
    noSingleton_pair (.inl ⟨reachable, .refl⟩) running running' commit.ge commit'.ge present present'⟩

/-- What any two machines hand to their applications at any two moments agrees. -/
theorem deliveries_agree (several : cs.NoSingleton) (moments : Moments cs cluster cluster')
    {d d' : Delivery} (handed : d ∈ (cluster.hosts first).delivered)
    (handed' : d' ∈ (cluster'.hosts second).delivered) : d.Agrees d' := by
  obtain ⟨w, w', h, recounts, ext, ext', explained, explained'⟩ := moments.explained several
  exact (((explained.hosts first).delivered d handed).mono ext).agrees several recounts
    (((explained'.hosts second).delivered d' handed').mono ext')

omit [ConfChangeCodec] in
/-- Two voters hand out what agrees. -/
theorem deliveries_agree_pair : let _ := ConfChangeCodec.sample
    ∃ (cluster : Cluster) (d d' : Delivery), d ∈ (cluster.hosts 1).delivered ∧
      d' ∈ (cluster.hosts 2).delivered ∧ d.Agrees d' := by
  intro _
  obtain ⟨cluster, reachable, first, second⟩ := reachable_replication
  obtain ⟨-, -, d, -, -, -, -, handed⟩ := of_applied first
  obtain ⟨-, -, d', -, -, -, -, handed'⟩ := of_applied second
  exact ⟨cluster, d, d', handed, handed',
    deliveries_agree noSingleton_pair (.inl ⟨reachable, .refl⟩) handed handed'⟩

/-- A leader of a later term has every entry up to the commit index of a leader that has committed
one of its term. -/
theorem leader_completeness (several : cs.NoSingleton) (moments : Moments cs cluster cluster')
    (running : (cluster.hosts first).raw = some rn) (running' : (cluster'.hosts second).raw = some rn')
    (leads : rn.raft.state = .leader) (current : rn.raft.commitToCurrentTerm = true)
    (leads' : rn'.raft.state = .leader) (later : rn.raft.term < rn'.raft.term) :
    rn.raft.raftLog.committed ≤ rn'.raft.raftLog.lastIndex ∧
      ∀ i ≤ rn.raft.raftLog.committed, ∀ e f, rn.raft.raftLog.entryAt i = some e →
        rn'.raft.raftLog.entryAt i = some f → e = f := by
  obtain ⟨w, w', h, recounts, ext, ext', explained, explained'⟩ := moments.explained several
  obtain ⟨P, V, -, mirrors, core⟩ := (explained.hosts first).core running
  obtain ⟨P', V', -, mirrors', core'⟩ := (explained'.hosts second).core running'
  have view : rn.raft.raftLog.Shows V.log := mirrors.core.picture.log
  have view' : rn'.raft.raftLog.Shows V'.log := mirrors'.core.picture.log
  have decided : w.history.commits rn.raft.term rn.raft.raftLog.committed :=
    core.decided_own leads current
  have bounded := (core.recounts.valid.decided decided).2.2.1
  have whole : V.log = w.history.log rn.raft.term := core.leader_log leads
  have whole' : V'.log = w'.history.log rn'.raft.term := core'.leader_log leads'
  obtain ⟨e, member, term, -⟩ := core'.leader_elected leads'
  have term : e.term = rn'.raft.term := term
  have holds :=
    recounts.valid.later_leader_holds several.intersecting (ext.commits decided) (ext'.election member)
    (by rwa [term])
  -- The base of the later leader begins with what the earlier one has decided.
  have begins : V.log.take rn.raft.raftLog.committed <+: V'.log := by
    rw [whole, ← ext.log_take bounded, whole', ← term]
    exact holds.2.trans (core'.recounts.valid.base_start member)
  have same : V.log.take rn.raft.raftLog.committed = V'.log.take rn.raft.raftLog.committed := by
    have cut := List.prefix_iff_eq_take.1 begins
    rwa [List.length_take, whole, min_eq_left bounded, ← whole] at cut
  refine ⟨?_, fun i low e f present present' => view.entry_eq view' same low present present'⟩
  have length := begins.length_le
  rwa [List.length_take, whole, min_eq_left bounded, view'.length] at length

omit [ConfChangeCodec] in
/-- The second leader of two voters has what the first one has committed. -/
theorem leader_completeness_pair : let _ := ConfChangeCodec.sample
    ∃ (cluster cluster' : Cluster) (rn rn' : RawNode), (cluster.hosts 1).raw = some rn ∧
      (cluster'.hosts 2).raw = some rn' ∧ rn.raft.state = .leader ∧ rn'.raft.state = .leader ∧
      rn.raft.raftLog.committed = 1 ∧ 1 ≤ rn'.raft.raftLog.lastIndex := by
  intro _
  obtain ⟨cluster, reachable, passed⟩ : ∃ cluster, Reachable Host.Orderly { voters := [1, 2] }
    cluster ∧ _ :=
    reachable_reaches (fun _ _ => Host.orderly_of_plain)
      (show reaches _ (fun _ => HostOp.plain) replication (fun cluster =>
      (cluster.hosts 1).raw.any (fun rn => rn.raft.state == .leader && rn.raft.commitToCurrentTerm &&
        rn.raft.raftLog.committed == 1 && rn.raft.term == 1) &&
      cluster.arrives (fun _ => HostOp.plain) succession fun cluster => (cluster.hosts 2).raw.any
        fun rn =>
        rn.raft.state == .leader && rn.raft.term == 2) = true by decide +kernel)
  obtain ⟨before, after⟩ := Bool.and_eq_true_iff.1 passed
  obtain ⟨cluster', run, after⟩ := steps_arrives (fun _ _ => Host.orderly_of_plain) after
  simp only [Option.any_eq_true, Bool.and_eq_true, beq_iff_eq] at before after
  obtain ⟨rn, running, ⟨⟨leads, current⟩, commit⟩, term⟩ := before
  obtain ⟨rn', running', leads', term'⟩ := after
  have complete :=
    leader_completeness noSingleton_pair (.inl ⟨reachable, run⟩) running running' leads current
      leads' (by omega)
  exact ⟨cluster, cluster', rn, rn', running, running', leads, leads', commit, commit ▸ complete.1⟩

/-- A quorum of machines keeps a committed entry in stable storage forever, or has compacted it. -/
theorem committed_entries_durable (several : cs.NoSingleton)
    (reachable : Reachable Host.Orderly cs cluster) (running : (cluster.hosts first).raw = some rn)
    {i : Nat} {e : Entry} (low : i ≤ rn.raft.raftLog.committed)
    (present : rn.raft.raftLog.entryAt i = some e) :
    ∃ members : Set Nat, cs.Quorum members ∧ ∀ cluster', Steps Host.Orderly cluster cluster' →
      ∀ id ∈ members,
      i ≤ (cluster'.hosts id).durable.store.lastIndex ∧
        ∀ f, (cluster'.hosts id).durable.store.entryAt i = some f → e = f := by
  obtain ⟨w, explained⟩ := reachable.explained several
  obtain ⟨V, proper, view, commit⟩ := (explained.hosts first).shows running
  rw [← commit] at low
  have bounds := view.wf.bounds present
  have positive := view.wf.first_pos
  have read := view.entry i e present
  rw [← List.getElem?_take_of_lt (show i - 1 < V.commit by omega)] at read
  rcases proper.committed with empty | ⟨t, n, decided, begins⟩
  · rw [empty] at read
    cases read
  have valid := (explained.hosts first).recounts.valid
  obtain ⟨-, -, inside, -, members, quorum, acked⟩ := valid.decided decided
  refine ⟨members, quorum, fun cluster' run id member => ?_⟩
  obtain ⟨w', ext, explained'⟩ := explained.steps several reachable run
  obtain ⟨j, le, acked⟩ := acked id member
  have lives := explained'.hosts id
  have kept := lives.keeps_decided several (ext.commits decided) le (ext.acked acked)
  rw [ext.log_take inside] at kept
  have begins := begins.trans kept
  have stored := lives.durable.log
  -- The durable log begins with what the node has committed.
  refine ⟨?_, fun f present' => ?_⟩
  · have length := begins.length_le
    rw [List.length_take, min_eq_left proper.bounded, stored.length] at length
    exact low.trans length
  · have found := stored.entry i f present'
    obtain ⟨rest, whole⟩ := begins
    rw [← whole, List.getElem?_append_left (List.getElem?_eq_some_iff.1 read).1, read] at found
    exact Option.some.inj found

omit [ConfChangeCodec] in
/-- A quorum of two voters has written what one of them has committed. -/
theorem committed_entries_durable_pair : let _ := ConfChangeCodec.sample
    ∃ (cluster : Cluster) (rn : RawNode) (members : Set Nat), (cluster.hosts 1).raw = some rn ∧
      rn.raft.raftLog.committed = 1 ∧ ConfState.Quorum { voters := [1, 2] } members ∧
      ∀ id ∈ members, 1 ≤ (cluster.hosts id).durable.store.lastIndex := by
  intro _
  obtain ⟨cluster, reachable, first, -⟩ := reachable_replication
  obtain ⟨rn, e, -, running, commit, -, present, -⟩ := of_applied first
  obtain ⟨members, quorum, kept⟩ :=
    committed_entries_durable noSingleton_pair reachable running commit.ge present
  exact ⟨cluster, rn, members, running, commit, quorum,
    fun id inside => (kept cluster .refl id inside).1⟩

end Cluster

end RaftRs

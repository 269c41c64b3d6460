import RaftRs.Safe.Host

namespace RaftRs

open Library

/-- An operation of a machine that keeps the configuration, never batches entries or requests
snapshots, and compacts at most up to the stored commit index. -/
structure Host.Orderly (host : Host) (op : HostOp) : Prop where
  static : op.Static
  compacts : ∀ index rn, op = .compact index → host.raw = some rn →
    index ≤ rn.raft.raftLog.store.raftState.hardState.commit

/-- A test that only orderly operations pass. -/
def HostOp.plain : HostOp → Bool
  | .applyConfChange _ | .requestSnapshot | .compact _ => false
  | .setBatchAppend batchAppend => !batchAppend
  | .restart config _ => !config.batchAppend
  | _ => true

theorem Host.orderly_of_plain {host : Host} {op : HostOp} (plain : op.plain = true) :
    host.Orderly op := by
  refine ⟨?_, fun index rn compacts => ?_⟩
  · cases op <;> simp_all [HostOp.Static, HostOp.Unbatched, HostOp.plain]
  · rw [compacts] at plain
    cases plain

variable {cs : ConfState} {h h' : History Nat Entry} {x y : Nat} {node : Node Nat Entry}
  {host host' : Host} {op : HostOp}
  {m : Message} {sent net : List Message} {inp : Input → Prop} {permitted : Config → Prop}
  {compacts : RawNode → Nat → Prop}

theorem HostOp.Static.fixed (static : op.Static) : op.Fixed := by
  have unbatched := static.1
  cases op with
  | applyConfChange => exact unbatched
  | _ => trivial

theorem HostOp.Static.no_request (static : op.Static) : ¬ op.inputs .requestSnapshot := by
  intro asked
  cases op with
  | requestSnapshot => exact static.2 rfl
  | _ => exact asked

theorem HostOp.Static.unbatched (static : op.Static) {enabled : Bool}
    (set : op.inputs (.batching enabled)) :
    enabled = false := by
  have unbatched := static.1
  cases op with
  | setBatchAppend batchAppend => exact Eq.trans set unbatched
  | _ => exact set.elim

theorem HostOp.Static.permits (static : op.Static) {config : Config} (permitted : op.permits config) :
    config.batchAppend = false := by
  obtain ⟨rng, rfl⟩ := permitted
  exact static.1

theorem HostOp.not_persisted (index term : Nat) : ¬ op.inputs (.persisted index term) := by
  cases op <;> exact not_false

theorem Message.Backed.own (backed : m.Backed x (h.recorded x)) :
    m.Backed m.fromId (h.recorded m.fromId) where
  request kind := by
    obtain ⟨sender, rest⟩ := backed.request kind
    rw [sender]
    exact ⟨rfl, rest⟩
  grant kind granted := by
    obtain ⟨sender, rest⟩ := backed.grant kind granted
    rw [sender]
    exact ⟨rfl, rest⟩
  ack kind accepted nonzero := by
    obtain ⟨sender, rest⟩ := backed.ack kind accepted nonzero
    rw [sender]
    exact ⟨rfl, rest⟩

namespace Host

/-- The unstable entries of a node have no later term than the node, and those of a candidate an
earlier one. -/
theorem Lives.unstable_terms (lives : host.Lives cs h x node) {rn : RawNode}
    (raw : host.raw = some rn) {e : Entry} (inside : e ∈ rn.raft.raftLog.unstable.entries) :
    e.term ≤ rn.raft.term ∧ (rn.raft.state = .candidate → e.term < rn.raft.term) := by
  obtain ⟨P, V, -, mirrors, core⟩ := lives.core raw
  have picture := mirrors.core.picture
  have view : rn.raft.raftLog.Shows V.log := picture.log
  obtain ⟨k, found⟩ := List.getElem?_of_mem inside
  have present : rn.raft.raftLog.entryAt (rn.raft.raftLog.unstable.offset + k) = some e := by
    simp [RaftLog.entryAt, found]
  have member : e ∈ V.log := List.mem_of_getElem? (view.entry _ e present)
  have proper := core.inv.proper
  have term : V.term = rn.raft.term := picture.term
  rw [← term]
  refine ⟨proper.terms e member, fun role => proper.candidate ?_ e member⟩
  have same : V.role = rn.raft.state.role := picture.role
  rw [same, role]
  rfl

/-- The history of a machine grows by what other machines do. -/
theorem Lives.other (lives : host.Lives cs h y node) (frame : h.Frame x h')
    (recounts : Recounts cs h') (other : y ≠ x) :
    host.Lives cs h' y node := by
  have ext := frame.toExtends
  refine ⟨recounts, frame.other lives.recounts.valid recounts.valid other lives.inv, lives.durable,
    lives.pending.imp fun _ _ carries => carries.mono ext, fun write member m inside => ?_,
      lives.stopped, fun rn raw => ?_,
    fun d inside => (lives.delivered d inside).mono ext⟩
  · exact (lives.waiting write member m inside).imp (fun means => means.mono ext)
      fun backed => backed.mono (ext.recorded y)
  · obtain ⟨P, V, live, mirrors⟩ := lives.running rn raw
    refine ⟨P, V, live, ?_, mirrors.handed.mono ext le_rfl, mirrors.snapshot⟩
    refine mirrors.core.settle ext (fun role j decided => ?_)
      (List.Subset.refl _) mirrors.core.picture.log rfl
      mirrors.core.stored mirrors.core.saved ?_ ?_
    · -- Only the leader of a term decides in it.
      refine (frame.ownCommits _ j decided).resolve_right ?_
      rintro ⟨e, member, term, leader⟩
      obtain ⟨P', V', live', mirrors', core⟩ := lives.core raw
      obtain ⟨own, elected, same, itself⟩ := core.leader_elected role
      obtain rfl := recounts.valid.election_unique member (ext.election elected) (term.trans same.symm)
      exact other (itself.symm.trans leader)
    · exact fun m inside => (mirrors.core.queue m inside).mono
        (Set.union_subset_union_left _ (ext.recorded y))
    · intro role issued
      refine mirrors.core.campaigns role (issued.imp fun log cast => cast.imp_left fun visible => ?_)
      rwa [frame.recorded y other] at visible

/-- Every sequence of phases in their places continues a safe history. -/
theorem Paces.continues (several : cs.NoSingleton) (supplied : Supplied inp net h x)
    (heard : ∀ m, inp (.message m) → m.Uniform cs ∧ m.Termed ∧ m.Tidy)
    (unreported : ∀ index term, ¬ inp (.persisted index term))
    (unbatched : ∀ config, permitted config → config.batchAppend = false)
    (orderly : ∀ rn index, compacts rn index → index ≤ rn.raft.raftLog.store.raftState.hardState.commit)
    (tidy : host.Tidy) (saved : host.Saved) (uniform : host.Uniform cs) (sworn : host.Sworn cs net x)
    (grounded : host.Grounded) (chained : host.Chained) (lives : host.Lives cs h x node)
    (paces : Paces inp permitted compacts host host' sent) :
    host'.Continues cs h x sent ∧ host'.Chained := by
  induction paces generalizing net h node with
  | refl => exact ⟨⟨h, node, .refl x h, lives, List.forall_mem_nil _⟩, chained⟩
  | @step host middle host' sent sent' paced _ ih =>
      have phase := paced.phase
      obtain ⟨h₁, node₁, frame, lives₁, sends⟩ := paced.continues several supplied
        (fun m input => ⟨(heard m input).1, (heard m input).2.1⟩) unreported unbatched orderly tidy
          uniform sworn grounded
        chained lives
      have ext := frame.toExtends
      have supplied' : Supplied inp (net ++ sent) h₁ x := by
        refine ⟨fun m input => (supplied.credible m input).mono ext, fun m input => ?_,
          fun m inside => ?_, supplied.fixed, supplied.unasked, supplied.unbatched⟩
        · exact (supplied.heard m input).imp_right
            (And.imp_left fun inside => List.mem_append_left _ inside)
        · rcases List.mem_append.1 inside with old | new
          · exact (supplied.sent m old).mono (ext.recorded _)
          · exact (sends m new).2.own
      obtain ⟨⟨h₂, node₂, frame', lives₂, sends'⟩, chained'⟩ :=
        ih supplied' (phase.tidy (fun m input => (heard m input).2.2) tidy).1
        (phase.saved tidy saved)
          (phase.uniform (fun m input => (heard m input).1) supplied.fixed tidy uniform).1
        (phase.sworn (fun m input => ⟨supplied.heard m input, (heard m input).1⟩) several
          supplied.fixed tidy saved uniform
          sworn).1
        (phase.grounded (fun m input => (heard m input).2.1) tidy saved grounded).1
        (phase.chained (fun m input => (heard m input).2.2) tidy chained fun rn raw e =>
          lives.unstable_terms raw) lives₁
      refine ⟨⟨h₂, node₂, frame.trans frame', lives₂, fun m inside => ?_⟩, chained'⟩
      rcases List.mem_append.1 inside with first | second
      · obtain ⟨means, backed⟩ := sends m first
        exact ⟨means.mono frame'.toExtends, backed.mono (frame'.toExtends.recorded x)⟩
      · exact sends' m second

end Host

namespace Cluster

variable [ConfChangeCodec] {cluster cluster' : Cluster} {w : World Nat Entry}

omit [ConfChangeCodec] in
/-- A cluster with a world that explains all of its machines and messages. -/
structure Explained (cs : ConfState) (w : World Nat Entry) (cluster : Cluster) : Prop where
  hosts : ∀ id, (cluster.hosts id).Lives cs w.history id (w.nodes id)
  network : ∀ m ∈ cluster.network, m.Means w.history ∧ m.Backed m.fromId (w.history.recorded m.fromId)
  chained : ∀ id, (cluster.hosts id).Chained
  current : ∀ id, (cluster.hosts id).Current

omit [ConfChangeCodec] in
/-- An initial cluster is explained by the world in which nothing has happened. -/
theorem explained_initial (cs : ConfState) :
    (initial cs).Explained cs ⟨History.empty Nat Entry,
      fun _ => ⟨History.fresh Nat Entry, [], none⟩⟩ := by
  refine ⟨fun id => ⟨⟨History.valid_empty _, List.forall_mem_nil _, fun _ => contiguous_nil _,
    fun _ => ?_⟩, History.nodeInv_empty id, ?_, .nil, fun write member => ?_, fun _ => rfl,
      fun rn running => ?_,
    List.forall_mem_nil _⟩, List.forall_mem_nil _, fun id => ?_, fun id rn rd running => ?_⟩
  · exact ⟨List.forall_mem_nil _, List.Pairwise.nil⟩
  · have view := MemStorage.shows_entries (contiguous_nil 1)
    exact ⟨rfl, rfl, ⟨⟨view.wf.contiguous, view.wf.after⟩, view.length, view.entry, view.base⟩, rfl,
      .inr rfl⟩
  · rw [List.mem_singleton.1 member]
    exact List.forall_mem_nil _
  · cases running
  · exact ⟨List.pairwise_singleton _ _, fun _ => ⟨rfl, rfl⟩, fun _ running => (by cases running)⟩
  · cases running

/-- What an orderly operation hands to a node fits the configuration, the terms and the form of
messages. -/
theorem Reachable.inputs_formed (reachable : Reachable Host.Orderly cs cluster) {id : Nat}
    (deliverable : cluster.Deliverable id op) {m : Message} (input : op.inputs (.message m)) :
    m.Uniform cs ∧ m.Termed ∧ m.Tidy := by
  refine ⟨?_, reachable.inputs_termed deliverable input, reachable.inputs_tidy deliverable input⟩
  rcases inputs_cases deliverable input with ⟨sent, -⟩ | ofOwn
  · exact (reachable.uniform fun _ _ orderly => orderly.static.fixed).2 m sent
  · exact ofOwn.uniform

/-- An orderly operation uses what the history supplies. -/
theorem Explained.supplied (explained : cluster.Explained cs w)
    (reachable : Reachable Host.Orderly cs cluster) {id : Nat} (static : op.Static)
    (deliverable : cluster.Deliverable id op) :
    Supplied op.inputs cluster.network w.history id := by
  refine ⟨fun m input => ?_, fun m input => ?_, fun m inside => (explained.network m inside).2,
    static.fixed.no_confChange, static.no_request, fun enabled set => static.unbatched set⟩
  · rcases inputs_cases deliverable input with ⟨sent, receiver⟩ | ofOwn
    · exact .inr ⟨receiver, explained.network m sent⟩
    · exact .inl ofOwn
  · rcases inputs_cases deliverable input with ⟨sent, receiver⟩ | ofOwn
    · exact .inr ⟨sent, receiver, reachable.inputs_termed deliverable input⟩
    · exact .inl ofOwn

/-- An orderly step continues the world that explains a cluster. -/
theorem Explained.step (several : cs.NoSingleton) (reachable : Reachable Host.Orderly cs cluster)
    (explained : cluster.Explained cs w) (step : Step Host.Orderly cluster cluster') :
    ∃ w', w.history.Extends w'.history ∧ cluster'.Explained cs w' := by
  have fixed : ∀ (host : Host) op, host.Orderly op → op.Fixed := fun _ _ orderly => orderly.static.fixed
  cases step with
  | @host id op host sent order deliverable stepped =>
      have heard : ∀ m, op.inputs (.message m) → m.Uniform cs ∧ m.Termed ∧ m.Tidy := fun _ =>
        reachable.inputs_formed deliverable
      have supplied := explained.supplied reachable order.static deliverable
      have paces := Host.step_paces (reachable.tidy.1 id) (explained.current id) stepped
      obtain ⟨⟨h', node, frame, lives, sends⟩, chained⟩ := Host.Paces.continues several supplied heard
        (fun _ _ => HostOp.not_persisted _ _) (fun config permitted => order.static.permits permitted)
        (fun rn index compacted => order.compacts index rn compacted.2 compacted.1)
          (reachable.tidy.1 id) (reachable.saved id)
        ((reachable.uniform fixed).1 id) (reachable.sworn fixed several id) (reachable.grounded.1 id)
        (explained.chained id) (explained.hosts id) paces
      have ext := frame.toExtends
      have current : host.Current := by
        refine (Host.Paces.keeps (P := fun host => host.Tidy ∧ host.Current) (Q := fun _ => True) ?_
          ⟨reachable.tidy.1 id, explained.current id⟩ paces).1.2
        rintro _ _ _ ⟨tidy, current⟩ paced
        exact ⟨⟨(paced.phase.tidy (fun m input => (heard m input).2.2) tidy).1,
          paced.phase.current tidy current⟩, fun _ _ => trivial⟩
      refine ⟨w.set id h' node, ext, fun other => ?_, fun m inside => ?_, fun other => ?_,
        fun other => ?_⟩
      · by_cases same : other = id
        · subst same
          simpa [World.set] using lives
        · have old := (explained.hosts other).other frame lives.recounts same
          simpa [World.set, same] using old
      · rcases List.mem_append.1 inside with old | new
        · obtain ⟨means, backed⟩ := explained.network m old
          exact ⟨means.mono ext, backed.mono (ext.recorded _)⟩
        · obtain ⟨means, backed⟩ := sends m new
          exact ⟨means, backed.own⟩
      · by_cases same : other = id
        · subst same
          simpa using chained
        · simpa [same] using explained.chained other
      · by_cases same : other = id
        · subst same
          simpa using current
        · simpa [same] using explained.current other

/-- Every orderly run continues the world that explains its start. -/
theorem Explained.steps (several : cs.NoSingleton) (reachable : Reachable Host.Orderly cs cluster)
    (explained : cluster.Explained cs w) (steps : Steps Host.Orderly cluster cluster') :
    ∃ w', w.history.Extends w'.history ∧ cluster'.Explained cs w' := by
  induction steps with
  | refl => exact ⟨w, .refl _, explained⟩
  | tail before step ih =>
      obtain ⟨w', ext, explained'⟩ := ih
      obtain ⟨w'', ext', explained''⟩ := explained'.step several (reachable.trans before) step
      exact ⟨w'', ext.trans ext', explained''⟩

/-- Every cluster that orderly operations reach is explained by a world. -/
theorem Reachable.explained (several : cs.NoSingleton) (reachable : Reachable Host.Orderly cs cluster) :
    ∃ w, cluster.Explained cs w := by
  obtain ⟨w, -, explained⟩ := (explained_initial cs).steps several .refl reachable
  exact ⟨w, explained⟩

end Cluster

end RaftRs

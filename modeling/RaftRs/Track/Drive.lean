import RaftRs.Model.Play
import RaftRs.Track.Host

namespace RaftRs

open Library

/-- What an operation that is no call keeps of a node: its role and its view of the peers. -/
structure Raft.Views (r r' : Raft) : Prop where
  id : r'.id = r.id
  term : r'.term = r.term
  state : r'.state = r.state
  activity : r'.activity = r.activity
  flows : r.Flows → r'.Flows

namespace RawNode

variable {rn rn' : RawNode} {op : HostOp}

/-- A light Ready changes the queue and the counted size of the node only. -/
theorem genLightReady_raft {light : LightReady} (done : rn.genLightReady = .ok (rn', light)) :
    rn'.raft = { rn.raft.reduceUncommittedSize light.committedEntries with msgs := [] } := by
  obtain ⟨entries, -, done⟩ := bind_eq_ok.1 done
  simp only at done
  split at done
  · obtain ⟨rfl, rfl⟩ := ok_pair_inj done
    rfl
  · split at done
    · obtain ⟨rfl, rfl⟩ := ok_pair_inj done
      rfl
    · cases done

theorem reduceUncommittedSize_eq (r : Raft) (ents : List Entry) :
    r.reduceUncommittedSize ents =
      { r with uncommittedState := (r.reduceUncommittedSize ents).uncommittedState } := by
  unfold Raft.reduceUncommittedSize
  split <;> rfl

theorem Rest.views (rest : rn.Rest op rn') : rn.raft.Views rn'.raft := by
  cases rest with
  | keep raft log since =>
      rw [raft]
      exact ⟨rfl, rfl, rfl, rfl, fun flows => ⟨log.last ▸ flows.started, flows.peers⟩⟩
  | snapshot sound pending ahead raft since =>
      rw [raft]
      exact ⟨rfl, rfl, rfl, rfl, fun flows => flows⟩
  | @light light sound done =>
      rw [genLightReady_raft done, reduceUncommittedSize_eq]
      exact ⟨rfl, rfl, rfl, rfl, fun flows => ⟨flows.started, flows.peers⟩⟩
  | serve sound tracks forward since =>
      exact ⟨tracks.id, tracks.term, tracks.state, tracks.activity, tracks.flow sound⟩
  | @compact compactIndex store of sound may done same =>
      rw [same]
      obtain ⟨-, last, -⟩ := Host.compacted sound.wf may done
      exact ⟨rfl, rfl, rfl, rfl, fun flows => ⟨last.symm ▸ flows.started, flows.peers⟩⟩

theorem Rests.views (rests : rn.Rests op rn') : rn.raft.Views rn'.raft := by
  induction rests with
  | refl => exact ⟨rfl, rfl, rfl, rfl, fun flows => flows⟩
  | tail _ rest ih =>
      have next := rest.views
      exact ⟨next.id.trans ih.id, next.term.trans ih.term, next.state.trans ih.state,
        next.activity.trans ih.activity, fun flows => next.flows (ih.flows flows)⟩

end RawNode

/-- An operation that hands over a message only when its entries and its snapshot have the right
shape. -/
def HostOp.Tidy (op : HostOp) : Prop := ∀ m, op = .deliver m → m.Tidy

theorem HostOp.Tidy.heard {op : HostOp} (formed : op.Tidy) (m : Message)
    (input : op.inputs (.message m)) : m.Tidy := by
  rcases HostOp.inputs_message input with delivers | ofOwn
  · exact formed m delivers
  · exact ofOwn.tidy

/-- An operation that hands over neither an append nor a snapshot. -/
def HostOp.bare : HostOp → Bool
  | .deliver m => m.msgType != .msgAppend && m.msgType != .msgSnapshot
  | _ => true

theorem HostOp.tidy_of_bare {ops : List HostOp} (all : ops.all HostOp.bare = true) :
    ∀ op ∈ ops, op.Tidy := by
  rintro _ inside m rfl
  have other := List.all_eq_true.1 all _ inside
  simp only [bare, Bool.and_eq_true, bne_iff_ne] at other
  exact Message.tidy_of_kind other.1 other.2

namespace Host

variable [ConfChangeCodec] {start host host' : Host} {op : HostOp} {ops : List HostOp}
  {sent : List Message}

/-- A machine takes operations one after the other. -/
def run (host : Host) (ops : List HostOp) : Except Fatal Host :=
  ops.foldlM (fun host op => do
    let (host, _) ← host.step op
    return host) host

/-- A property that every operation of a run keeps holds after the run. -/
theorem run_keeps {P : Host → Prop}
    (keeps : ∀ op ∈ ops, ∀ host host' sent, P host → host.step op = .ok (host', sent) → P host')
    (before : P start) (done : start.run ops = .ok host) : P host := by
  have yields : Yields (start.run ops) P := by
    refine Meets.foldlM ops (fun op inside host holds => ?_) start before
    exact Yields.read fun ⟨host', sent⟩ stepped => keeps op inside host host' sent holds stepped
  exact yields.of_eq_ok done

/-- Every operation of a run is allowed in the state in which it is taken. -/
def Obeys (allowed : Host → HostOp → Prop) : Host → List HostOp → Prop
  | _, [] => True
  | host, op :: ops =>
      allowed host op ∧ ∀ host' sent, host.step op = .ok (host', sent) → Obeys allowed host' ops

instance Obeys.decidable {allowed : Host → HostOp → Prop} [∀ host op, Decidable (allowed host op)]
    (host : Host) (ops : List HostOp) : Decidable (Obeys allowed host ops) := by
  induction ops generalizing host with
  | nil => exact .isTrue trivial
  | cons op ops ih =>
      unfold Obeys
      cases host.step op with
      | error e => exact decidable_of_iff (allowed host op) (by simp)
      | ok next =>
          have := ih next.1
          exact decidable_of_iff (allowed host op ∧ Obeys allowed next.1 ops) (by simp [Prod.ext_iff])

/-- A property that every allowed operation keeps holds after an obedient run. -/
theorem Obeys.keeps {allowed : Host → HostOp → Prop} {P : Host → Prop} (obeys : Obeys allowed start ops)
    (keeps : ∀ op ∈ ops, ∀ host host' sent, P host → allowed host op →
      host.step op = .ok (host', sent) → P host')
    (before : P start) (done : start.run ops = .ok host) : P host := by
  induction ops generalizing start with
  | nil =>
      obtain rfl := Except.ok.inj done
      exact before
  | cons op ops ih =>
      obtain ⟨permitted, rest⟩ := obeys
      rw [run, List.foldlM_cons] at done
      obtain ⟨next, first, done⟩ := bind_eq_ok.1 done
      obtain ⟨⟨host', sent⟩, stepped, same⟩ := bind_eq_ok.1 first
      obtain rfl := Except.ok.inj same
      refine ih (rest _ sent stepped)
        (fun other inside => keeps other (List.mem_cons_of_mem _ inside)) ?_ done
      exact keeps op List.mem_cons_self start _ sent before permitted stepped

/-- The rest of an obedient run is obedient. -/
theorem Obeys.rest {allowed : Host → HostOp → Prop} {later : List HostOp}
    (obeys : Obeys allowed start (ops ++ later)) (done : start.run ops = .ok host) :
    Obeys allowed host later := by
  induction ops generalizing start with
  | nil =>
      obtain rfl := Except.ok.inj done
      exact obeys
  | cons op ops ih =>
      rw [run, List.foldlM_cons] at done
      obtain ⟨next, first, done⟩ := bind_eq_ok.1 done
      obtain ⟨⟨host', sent⟩, stepped, same⟩ := bind_eq_ok.1 first
      obtain rfl := Except.ok.inj same
      exact ih (obeys.2 _ sent stepped) done

theorem run_snoc (done : start.run ops = .ok host) (stepped : host.step op = .ok (host', sent)) :
    start.run (ops ++ [op]) = .ok host' := by
  unfold run at done ⊢
  rw [List.foldlM_append, done, ok_bind, List.foldlM_cons, stepped]
  rfl

theorem step_tidy (tidy : host.Tidy) (formed : op.Tidy)
    (stepped : host.step op = .ok (host', sent)) : host'.Tidy := by
  have runs := Host.runs_step host op
  rw [stepped] at runs
  exact (Phases.keeps (Q := fun m => m.Tidy) (fun _ _ _ tidy phase => phase.tidy formed.heard tidy)
    tidy runs).1

theorem run_tidy (tidy : start.Tidy) (formed : ∀ op ∈ ops, op.Tidy)
    (done : start.run ops = .ok host) : host.Tidy :=
  run_keeps (P := Host.Tidy)
    (fun op inside _ _ _ tidy stepped => step_tidy tidy (formed op inside) stepped) tidy done

/-- A run without its last operation. -/
theorem run_split (done : start.run (ops ++ [op]) = .ok host') :
    ∃ host sent, start.run ops = .ok host ∧ host.step op = .ok (host', sent) := by
  unfold run at done
  rw [List.foldlM_append] at done
  obtain ⟨host, first, done⟩ := bind_eq_ok.1 done
  rw [List.foldlM_cons] at done
  obtain ⟨last, second, done⟩ := bind_eq_ok.1 done
  obtain ⟨⟨next, sent⟩, stepped, same⟩ := bind_eq_ok.1 second
  obtain rfl := Except.ok.inj same
  obtain rfl := Except.ok.inj done
  exact ⟨host, sent, first, stepped⟩

/-- A run ends with a machine that passes a test. -/
def ends (start : Host) (ops : List HostOp) (test : Host → Bool) : Bool :=
  match start.run ops with
  | .ok host => test host
  | .error _ => false

theorem run_ends {test : Host → Bool} (passed : start.ends ops test = true) :
    ∃ host, start.run ops = .ok host ∧ test host = true := by
  unfold ends at passed
  split at passed
  next host done => exact ⟨host, done, passed⟩
  next => cases passed

/-- An operation leaves a machine and sends messages that pass a test. -/
def leaves (host : Host) (op : HostOp) (test : Host → List Message → Bool) : Bool :=
  match host.step op with
  | .ok (host', sent) => test host' sent
  | .error _ => false

theorem step_window {e : Fatal} (window : e = .inflightsFull ∨ e = .updateStateInSnapshot) :
    host.step op ≠ .error e := by
  intro failed
  have traced : e.IsTraced := by rcases window with rfl | rfl <;> trivial
  have apart : ¬ e.IsCommit := by rcases window with rfl | rfl <;> exact not_false
  have impossible : ∀ inp c, ¬ Faults inp c e := by
    intro inp c faults
    rcases faults.other traced apart with ⟨wrong, -⟩ | ⟨wrong, -⟩ | ⟨m, wrong, -⟩ | ⟨wrong, -⟩ <;>
      rw [wrong] at window <;> simp at window
  rcases step_error traced failed with ⟨rn, c, -, -, faults⟩
    | ⟨-, host', sent, rn, inp, c, -, -, -, -, faults⟩
  · exact impossible _ c faults
  · exact impossible inp c faults

/-- A running leader has its peers in order. -/
def Windowed (host : Host) : Prop :=
  ∀ rn, host.raw = some rn → rn.raft.state = .leader → rn.raft.Flows

/-- Every operation keeps the peers of a leader in order. -/
theorem step_windowed (tidy : host.Tidy) (windowed : host.Windowed)
    (stepped : host.step op = .ok (host', sent)) :
    host'.Windowed := by
  intro rn' running lead
  cases step_reaches tidy stepped running with
  | @call rn raw idle calls sound forward leads =>
      rcases leads.2 sound lead with ⟨leader, tends, -⟩ | ⟨elected, -⟩
      · exact tends.flow sound (windowed rn raw leader)
      · exact elected.flows
  | @rest rn raw uncalled rests =>
      have views := rests.views
      exact views.flows (windowed rn raw (views.state ▸ lead))
  | start stopped of done starts =>
      have follows : rn'.raft.state = .follower := congrArg Core.state starts.core
      cases follows.symm.trans lead

/-- A run of a stopped machine keeps the peers of a leader in order. -/
theorem run_windowed (tidy : start.Tidy) (stopped : start.raw = none) (formed : ∀ op ∈ ops, op.Tidy)
    (done : start.run ops = .ok host) : host.Tidy ∧ host.Windowed := by
  refine run_keeps (P := fun host => host.Tidy ∧ host.Windowed) (fun op inside _ _ _ holds stepped => ?_)
    ⟨tidy, fun rn raw => ?_⟩ done
  · exact ⟨step_tidy holds.1 (formed op inside) stepped, step_windowed holds.1 holds.2 stepped⟩
  · cases stopped.symm.trans raw

/-- The windows of a leader's peers hold rising indexes between the matched and the next index and
are empty for peers that do not replicate, after every run on every storage; no operation fills a
full window or counts a send to a peer that waits for a snapshot. -/
theorem flow_control (tidy : start.Tidy) (stopped : start.raw = none) (formed : ∀ op ∈ ops, op.Tidy)
    (done : start.run ops = .ok host) :
    (∀ rn, host.raw = some rn → rn.raft.state = .leader → ∀ id pr, id ≠ rn.raft.id →
      rn.raft.prs.get id = some pr →
      pr.matched < pr.nextIdx ∧ ∃ items, pr.ins.Holds items ∧ (items ≠ [] → pr.state = .replicate) ∧
        items.Pairwise (· < ·) ∧ ∀ item ∈ items, pr.matched < item ∧ item ≤ pr.nextIdx - 1) ∧
    ∀ op, host.step op ≠ .error .inflightsFull ∧ host.step op ≠ .error .updateStateInSnapshot := by
  refine ⟨fun rn raw lead id pr other known => ?_, fun op =>
    ⟨step_window (.inl rfl), step_window (.inr rfl)⟩⟩
  · obtain ⟨-, windowed⟩ := run_windowed tidy stopped formed done
    obtain ⟨items, window⟩ := (windowed rn raw lead).peers id pr other known
    refine ⟨window.ahead, items, window.holds, window.replicates, window.rising, fun item inside => ?_⟩
    obtain ⟨above, below⟩ := window.within item inside
    exact ⟨above, by omega⟩

omit [ConfChangeCodec] in
/-- A leader of two voters has sent an entry to the other one, whose window holds it. -/
theorem flow_control_two : let _ := ConfChangeCodec.sample
    ∃ ops host rn pr, (fresh 1 { voters := [1, 2] }).run ops = .ok host ∧ host.raw = some rn ∧
      rn.raft.state = .leader ∧ rn.raft.prs.get 2 = some pr ∧ pr.ins.count = 1 ∧
        pr.matched < pr.nextIdx := by
  intro _
  have passed : (fresh 1 { voters := [1, 2] }).ends
      [.restart { id := 1 } fun _ => 0, .campaign,
        .deliver { msgType := .msgRequestVoteResponse, fromId := 2, toId := 1, term := 1 },
        .deliver { msgType := .msgAppendResponse, fromId := 2, toId := 1, term := 1, index := 1 },
        .propose [] [7]]
      (fun host => host.raw.any fun rn => rn.raft.id == 1 && rn.raft.state == .leader &&
        (rn.raft.prs.get 2).any fun pr => pr.ins.count == 1) = true := by decide +kernel
  obtain ⟨host, done, tested⟩ := run_ends passed
  simp only [Bool.and_eq_true, beq_iff_eq, Option.any_eq_true] at tested
  obtain ⟨rn, running, ⟨own, lead⟩, pr, known, count⟩ := tested
  refine ⟨_, host, rn, pr, done, running, lead, known, count,
    ((flow_control (tidy_fresh 1 { voters := [1, 2] }) rfl ?_ done).1 rn running lead 2 pr
      (by omega) known).1⟩
  rw [List.forall_mem_cons, List.forall_mem_cons, List.forall_mem_cons, List.forall_mem_cons,
    List.forall_mem_cons]
  refine ⟨nofun, nofun, ?_, ?_, nofun, List.forall_mem_nil _⟩ <;>
  · intro m same
    cases same
    exact Message.tidy_of_kind nofun nofun

end Host

/-- Every machine of a reachable cluster has taken a run of tidy operations. -/
theorem Cluster.Reachable.runs [ConfChangeCodec] {allowed : Host → HostOp → Prop} {cs : ConfState}
    {cluster : Cluster} (reachable : Reachable allowed cs cluster) (id : Nat) :
    ∃ ops, (∀ op ∈ ops, HostOp.Tidy op) ∧ (Host.fresh id cs).run ops = .ok (cluster.hosts id) := by
  induction reachable with
  | refl => exact ⟨[], List.forall_mem_nil _, rfl⟩
  | @tail cluster _ reachable step ih =>
      obtain ⟨ops, formed, done⟩ := ih
      cases step with
      | @host other op host sent permitted deliverable stepped =>
          by_cases same : id = other
          · subst same
            have tidy : op.Tidy := by
              rintro m rfl
              rcases deliverable with ⟨inside, -⟩ | ⟨kind, -⟩
              · exact (Reachable.tidy reachable).2 m inside
              · exact Message.tidy_of_kind (by rw [kind]; nofun) (by rw [kind]; nofun)
            refine ⟨ops ++ [op], ?_, ?_⟩
            · rw [List.forall_mem_append, List.forall_mem_singleton]
              exact ⟨formed, tidy⟩
            · simpa using Host.run_snoc done stepped
          · exact ⟨ops, formed, by simpa [same] using done⟩

end RaftRs

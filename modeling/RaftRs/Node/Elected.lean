import RaftRs.Model.Play
import RaftRs.Node.Runs

namespace RaftRs

open Library

/-- A node asks for votes or pre-votes. -/
def Core.Campaigns (c : Core) : Prop := c.state = .candidate ∨ c.state = .preCandidate

/-- A node knows whether it votes, tracks the members of its configuration and campaigns only as a
voter. -/
structure Core.Able (c : Core) : Prop where
  judged : c.promotable = c.conf.voters.contains c.id
  rostered : Rostered c.conf c.positions
  votes : c.Campaigns → c.promotable = true

/-- The inputs of a call keep campaigns apart from configuration changes. -/
structure Separate (inp : Input → Prop) : Prop where
  election : inp .election → ∀ cc, ¬ inp (.confChange cc)
  changes : inp .campaign → ∀ cc, ¬ inp (.confChange cc)
  messages : inp .campaign → ∀ m, ¬ inp (.message m)

/-- A forced campaign and a changed configuration leave a campaigning node its vote. -/
structure Core.Lawful (inp : Input → Prop) (c : Core) : Prop extends Core.Able c where
  forced : inp .campaign → c.promotable = true
  retained : c.Campaigns → ∀ cc conf, inp (.confChange cc) → inp (.configured conf) →
    cc.membershipChange.Retains conf c.id

variable {inp : Input → Prop} {start c c' : Core}

theorem Core.Able.known (able : c.Able) (promotable : c.promotable = true) :
    (c.positions c.id).isSome = true := by
  obtain ⟨roster, -, lists, tracks⟩ := able.rostered
  rw [able.judged, lists.contains] at promotable
  rw [tracks]
  exact promotable.imp (fun voter => voter) Or.inl

theorem Rostered.keep {conf : Configuration} {positions positions' : Nat → Option Position}
    (rostered : Rostered conf positions) (same : ∀ id, (positions' id).isSome = (positions id).isSome) :
    Rostered conf positions' := by
  obtain ⟨roster, steps, lists, tracks⟩ := rostered
  exact ⟨roster, steps, lists, fun id => by rw [same]; exact tracks id⟩

/-- A changed position of a tracked node keeps the tracked nodes. -/
theorem Core.at'_isSome {id : Nat} {pos pos' : Position} (known : c.positions id = some pos)
    (other : Nat) :
    ((c.at' id pos').positions other).isSome = (c.positions other).isSome := by
  unfold Core.at'
  by_cases same : other = id
  · subst same
    simp [known]
  · simp [same]

theorem Core.freshPositions_isSome (c : Core) (id : Nat) :
    (c.freshPositions id).isSome = (c.positions id).isSome := by
  simp [Core.freshPositions]

theorem Core.countOwn_isSome (c : Core) (index id : Nat) :
    ((c.countOwn index).positions id).isSome = (c.positions id).isSome := by
  unfold Core.countOwn
  split
  · split
    next known => exact Core.at'_isSome known id
    next => rfl
  · rfl

theorem Core.Lawful.keep (lawful : c.Lawful inp) (id : c'.id = c.id) (state : c'.state = c.state)
    (conf : c'.conf = c.conf) (promotable : c'.promotable = c.promotable)
    (tracked : ∀ id, (c'.positions id).isSome = (c.positions id).isSome) : c'.Lawful inp := by
  refine ⟨⟨?_, ?_, ?_⟩, ?_, ?_⟩
  · rw [promotable, conf, id]
    exact lawful.judged
  · rw [conf]
    exact lawful.rostered.keep tracked
  · rw [promotable]
    exact fun campaigns => lawful.votes (campaigns.imp state.symm.trans state.symm.trans)
  · rw [promotable]
    exact lawful.forced
  · rw [id]
    exact fun campaigns => lawful.retained (campaigns.imp state.symm.trans state.symm.trans)

/-- A node that ends its campaign stays lawful. -/
theorem Core.Lawful.rest (lawful : c.Lawful inp) (id : c'.id = c.id) (ends : ¬ c'.Campaigns)
    (conf : c'.conf = c.conf) (promotable : c'.promotable = c.promotable)
    (tracked : ∀ id, (c'.positions id).isSome = (c.positions id).isSome) : c'.Lawful inp := by
  refine ⟨⟨?_, ?_, fun campaigns => absurd campaigns ends⟩, ?_, fun campaigns => absurd campaigns ends⟩
  · rw [promotable, conf, id]
    exact lawful.judged
  · rw [conf]
    exact lawful.rostered.keep tracked
  · rw [promotable]
    exact lawful.forced

/-- A voter that starts a campaign stays lawful. -/
theorem Core.Lawful.run (lawful : c.Lawful inp) (separate : Separate inp) (may : inp .election)
    (voter : c.promotable = true) (id : c'.id = c.id) (conf : c'.conf = c.conf)
    (promotable : c'.promotable = c.promotable)
    (tracked : ∀ id, (c'.positions id).isSome = (c.positions id).isSome) : c'.Lawful inp := by
  refine ⟨⟨?_, ?_, fun _ => promotable.trans voter⟩, fun _ => promotable.trans voter, ?_⟩
  · rw [promotable, conf, id]
    exact lawful.judged
  · rw [conf]
    exact lawful.rostered.keep tracked
  · intro _ cc _ changed
    exact absurd changed (separate.election may cc)

theorem Core.Lawful.eligible (lawful : c.Lawful inp) (eligible : c.Eligible inp) : c.promotable = true :=
  eligible.elim (fun promotable => promotable) lawful.forced

/-- Every atomic change keeps a node lawful. -/
theorem Act.lawful (separate : Separate inp) (lawful : c.Lawful inp) (act : Act inp c c') :
    c'.Lawful inp := by
  have same : ∀ id, (c.positions id).isSome = (c.positions id).isSome := fun _ => rfl
  cases act with
  | bump stepped later => exact lawful.rest rfl nofun rfl rfl c.freshPositions_isSome
  | stepDown => exact lawful.rest rfl nofun rfl rfl c.freshPositions_isSome
  | campaign may role cause =>
      have voter : c.promotable = true := by
        rcases cause with ⟨eligible, -⟩ | ⟨preCandidate, -⟩
        · exact lawful.eligible eligible
        · exact lawful.votes (.inr preCandidate)
      exact lawful.run separate may voter rfl rfl rfl c.freshPositions_isSome
  | preCampaign may role eligible =>
      exact lawful.run separate may (lawful.eligible eligible) rfl rfl rfl same
  | lead may role won settled known =>
      refine lawful.rest rfl nofun rfl rfl fun id => ?_
      by_cases own : id = c.id
      · subst own
        simp [Core.asLeader, known]
      · simp [Core.asLeader, own, c.freshPositions_isSome]
  | acknowledge stepped kind accepted heard role known =>
      exact lawful.keep rfl rfl rfl rfl (Core.at'_isSome known)
  | move known moves => exact lawful.keep rfl rfl rfl rfl (Core.at'_isSome known)
  | sent known read ends => exact lawful.keep rfl rfl rfl rfl (Core.at'_isSome known)
  | sendSnapshot role other known taken nonempty =>
      exact lawful.keep rfl rfl rfl rfl (Core.at'_isSome (c := c.push _) known)
  | @persist index term log reported done =>
      have tracked := Core.countOwn_isSome { c with log } index
      rw [Core.countOwn_rest] at tracked ⊢
      exact lawful.keep rfl rfl rfl rfl tracked
  | restore stepped kind heard role fresh done confState rostered =>
      refine ⟨⟨rfl, rostered, ?_⟩, fun forced => absurd stepped (separate.messages forced _), ?_⟩
      · rintro (candidate | candidate) <;> cases role.symm.trans candidate
      · rintro (candidate | candidate) <;> cases role.symm.trans candidate
  | reconfigure changed current kept =>
      obtain ⟨rostered, retains, -⟩ := kept lawful.rostered
      refine ⟨⟨rfl, rostered, fun campaigns => ?_⟩,
        fun forced => absurd changed (separate.changes forced _), ?_⟩
      · have voter := lawful.votes campaigns
        rw [lawful.judged] at voter
        exact retains _ voter (lawful.retained campaigns _ _ changed current)
      · exact lawful.retained
  | @confirm ctx status readOnly confirmed role pending acked done =>
      obtain ⟨_, _, rest⟩ := Core.responds_rest { c with readOnly } confirmed
      rw [rest]
      exact lawful.keep rfl rfl rfl rfl same
  | @respondNow m stepped kind role immediate =>
      obtain ⟨_, _, rest⟩ := c.respond_rest m c.log.committed
      rw [rest]
      exact lawful.keep rfl rfl rfl rfl same
  | _ => exact lawful.keep rfl rfl rfl rfl same

theorem Acts.lawful (separate : Separate inp) (lawful : c.Lawful inp) (acts : Acts inp c c') :
    c'.Lawful inp := by
  induction acts with
  | refl => exact lawful
  | tail _ act ih => exact act.lawful separate ih

/-- A node that leads led the same term before or was elected as a voter. -/
def Core.Elected (inp : Input → Prop) (start c : Core) : Prop :=
  c.state = .leader → (start.state = .leader ∧ start.term = c.term) ∨
    (inp .election ∧ c.promotable = true)

/-- Every atomic change elects only voters. -/
theorem Act.elected (separate : Separate inp) (lawful : c.Lawful inp)
    (elected : Core.Elected inp start c) (act : Act inp c c') : Core.Elected inp start c' := by
  intro leads
  cases act with
  | bump | stepDown | campaign | preCampaign => cases leads
  | lead may role won settled known => exact .inr ⟨may, lawful.votes (.inl role)⟩
  | restore stepped kind heard role => cases role.symm.trans leads
  | reconfigure changed current kept =>
      rcases elected leads with old | ⟨may, -⟩
      · exact .inl old
      · exact absurd changed (separate.election may _)
  | persist reported done =>
      rw [Core.countOwn_rest] at leads ⊢
      exact elected leads
  | @confirm ctx status readOnly confirmed role pending acked done =>
      obtain ⟨_, _, rest⟩ := Core.responds_rest { c with readOnly } confirmed
      rw [rest]
      exact elected role
  | @respondNow m stepped kind role immediate =>
      obtain ⟨_, _, rest⟩ := c.respond_rest m c.log.committed
      rw [rest]
      exact elected role
  | _ => exact elected leads

theorem Acts.elected (separate : Separate inp) (lawful : c.Lawful inp) (acts : Acts inp c c') :
    Core.Elected inp c c' := by
  induction acts with
  | refl => exact fun leads => .inl ⟨leads, rfl⟩
  | tail before act ih => exact act.elected separate (Acts.lawful separate lawful before) ih

theorem separate_internal (internal : ∀ input, inp input → input.Internal) : Separate inp where
  election given := (internal _ given).elim
  changes given := (internal _ given).elim
  messages given := (internal _ given).elim

theorem Core.Able.internal (able : c.Able) (internal : ∀ input, inp input → input.Internal) :
    c.Lawful inp :=
  ⟨able, fun given => (internal _ given).elim, fun _ _ _ given => (internal _ given).elim⟩

/-- Every operation keeps campaigns apart from configuration changes. -/
theorem RawNode.separate (rn : RawNode) (op : HostOp) : Separate (rn.inputs op.inputs) := by
  refine ⟨fun given cc changed => ?_, fun given cc changed => ?_, fun given m stepped => ?_⟩
  · cases op <;> first | exact given.elim | exact changed.elim
  · cases op <;> first | exact given.elim | exact changed.elim
  · cases op <;> first | exact given.elim | exact stepped.elim

/-- Only voters are made to campaign, and a campaigning node applies no change that takes its vote
away. -/
structure Host.Careful (host : Host) (op : HostOp) : Prop where
  campaign : op = .campaign → ∀ rn, host.raw = some rn → rn.raft.promotable = true
  change : ∀ cc, op = .applyConfChange cc → ∀ rn, host.raw = some rn →
    rn.raft.state = .candidate ∨ rn.raft.state = .preCandidate →
      cc.membershipChange.Retains rn.raft.prs.conf rn.raft.id

/-- A careful operation makes an able node lawful. -/
theorem Host.Careful.lawful {host : Host} {op : HostOp} {rn : RawNode} (careful : host.Careful op)
    (running : host.raw = some rn) (able : rn.raft.core.Able) :
    rn.raft.core.Lawful (rn.inputs op.inputs) := by
  refine ⟨able, fun forced => ?_, fun campaigns cc conf changed current => ?_⟩
  · cases op with
    | campaign => exact careful.campaign rfl rn running
    | _ => exact forced.elim
  · have current : conf = rn.raft.prs.conf := current
    subst current
    cases op with
    | applyConfChange cc' =>
        obtain rfl : cc = cc' := changed
        exact careful.change cc rfl rn running campaigns
    | _ => exact changed.elim

/-- A node that has just started is able. -/
theorem RawNode.Starts.able {config : Config} {store : MemStorage} {rn : RawNode}
    (starts : rn.Starts config store) :
    rn.raft.core.Able := by
  refine ⟨?_, Raft.rostered_core.2 starts.rostered, ?_⟩
  · rw [starts.core]
    rfl
  · rw [starts.core]
    rintro (candidate | candidate) <;> cases candidate

theorem Core.Able.no_missingWinner (able : c.Able) : ¬ Faults inp c .missingWinner := by
  intro faults
  rcases faults.other trivial not_false with ⟨wrong, -⟩ | ⟨-, -, role, -, absent⟩ | ⟨m, wrong, -⟩
    | ⟨wrong, -⟩
  · cases wrong
  · have known := able.known (able.votes (.inl role))
    rw [absent] at known
    cases known
  · cases wrong
  · cases wrong

namespace Cluster

variable [ConfChangeCodec] {cs : ConfState} {cluster : Cluster}

/-- Every node of a careful cluster is able. -/
theorem Reachable.able (reachable : Reachable Host.Careful cs cluster) {id : Nat} {rn : RawNode}
    (running : (cluster.hosts id).raw = some rn) : rn.raft.core.Able := by
  refine reachable.keepsCore (P := fun _ _ c => c.Able) ?_ ?_ ?_ ?_ ?_ id rn running
  · exact fun _ _ _ _ able => able
  · exact fun _ _ _ _ _ _ _ able => ⟨able.judged, able.rostered, able.votes⟩
  · exact fun _ _ _ _ _ _ _ starts => starts.able
  · intro _ _ inp c c' internal able acts
    exact (Acts.lawful (separate_internal internal) (able.internal internal) acts).toAble
  · intro _ _ op rn c _ careful _ running able acts
    exact (Acts.lawful (rn.separate op) (careful.lawful running able) acts).toAble

/-- In careful runs only voters with a progress of their own become leaders, and no election fails
for want of it. -/
theorem elected_promotable (reachable : Reachable Host.Careful cs cluster) {id : Nat} {rn : RawNode}
    {op : HostOp} (running : (cluster.hosts id).raw = some rn)
    (careful : (cluster.hosts id).Careful op) :
    (rn.raft.state = .candidate ∨ rn.raft.state = .preCandidate → rn.raft.promotable = true ∧
      rn.raft.prs.conf.voters.contains rn.raft.id = true ∧ (rn.raft.prs.get rn.raft.id).isSome = true) ∧
    (∀ host sent rn', (cluster.hosts id).step op = .ok (host, sent) → host.raw = some rn' →
      rn'.raft.state = .leader → rn.raft.state ≠ .leader ∨ rn.raft.term ≠ rn'.raft.term →
        rn'.raft.promotable = true ∧ rn'.raft.prs.conf.voters.contains rn'.raft.id = true ∧
          (rn'.raft.prs.get rn'.raft.id).isSome = true) ∧
    (cluster.hosts id).step op ≠ .error .missingWinner := by
  have able := reachable.able running
  have voter : ∀ r : Raft, r.core.Able → r.promotable = true → r.promotable = true ∧
      r.prs.conf.voters.contains r.id = true ∧ (r.prs.get r.id).isSome = true := by
    intro r able promotable
    have known := able.known promotable
    refine ⟨promotable, able.judged.symm.trans promotable, ?_⟩
    simpa [Raft.core] using known
  refine ⟨fun campaigns => voter _ able (able.votes campaigns), ?_, ?_⟩
  · intro host sent rn' stepped running' leads new
    by_cases call : op.Calls
    · obtain ⟨action, same, does⟩ := Host.step_call call
      rw [same] at stepped
      rcases Host.call_ok does stepped with ⟨rfl, -⟩ | ⟨before, raft, raw, -, acts, rfl, -⟩
      · obtain rfl := Option.some.inj (running.symm.trans running')
        exact absurd leads (new.resolve_right fun other => other rfl)
      · obtain rfl := Option.some.inj (running.symm.trans raw)
        cases running'
        have lawful := careful.lawful running able
        rcases Acts.elected (rn.separate op) lawful acts leads with ⟨led, term⟩ | ⟨-, promotable⟩
        · exact absurd term (new.resolve_left fun other => other led)
        · exact voter _ (Acts.lawful (rn.separate op) lawful acts).toAble promotable
    · have runs := Host.runs_step (cluster.hosts id) op
      rw [stepped] at runs
      have kept := Host.Phases.keepsCore
        (P := fun c => c.Able ∧ (c.state = .leader → rn.raft.state = .leader ∧ rn.raft.term = c.term))
        (HostOp.inputs_of_not_calls call) ?_ ?_ ?_ (reachable.tidy.1 id) ?_ runs running'
      · obtain ⟨led, term⟩ := kept.2 leads
        exact absurd term (new.resolve_left fun other => other led)
      · exact fun _ _ _ _ _ kept => ⟨⟨kept.1.judged, kept.1.rostered, kept.1.votes⟩, kept.2⟩
      · intro config store rn' _ _ starts
        refine ⟨starts.able, fun leads => ?_⟩
        rw [starts.core] at leads
        cases leads
      · rintro inp c c' internal ⟨able, led⟩ acts
        have lawful := able.internal internal
        have separate := separate_internal internal
        refine ⟨(Acts.lawful separate lawful acts).toAble, fun leads => ?_⟩
        rcases Acts.elected separate lawful acts leads with ⟨before, term⟩ | ⟨may, -⟩
        · rw [← term]
          exact led before
        · exact (internal _ may).elim
      · intro before raw
        obtain rfl := Option.some.inj (running.symm.trans raw)
        exact ⟨able, fun leads => ⟨leads, rfl⟩⟩
  · intro failed
    have traced : Fatal.missingWinner.IsTraced := trivial
    rcases Host.step_error traced failed with
      ⟨before, c, raw, acts, faults⟩ | ⟨none, host', sent, before, inp, c, phases, raw, internal,
        acts, faults⟩
    · obtain rfl := Option.some.inj (running.symm.trans raw)
      have after := (Acts.lawful (rn.separate op) (careful.lawful running able) acts).toAble
      exact after.no_missingWinner faults
    · have before : before.raft.core.Able := Host.Phases.keepsCore (P := Core.Able) none
        (fun _ _ _ _ _ able => ⟨able.judged, able.rostered, able.votes⟩)
          (fun _ _ _ _ _ starts => starts.able)
        (fun _ _ _ internal able acts =>
          (Acts.lawful (separate_internal internal) (able.internal internal) acts).toAble)
        (reachable.tidy.1 id) (fun _ raw => reachable.able raw) phases raw
      have after := (Acts.lawful (separate_internal internal) (before.internal internal) acts).toAble
      exact after.no_missingWinner faults

omit [ConfChangeCodec] in
/-- A single voter that campaigns becomes the leader as a voter with a progress. -/
theorem elected_promotable_single : let _ := ConfChangeCodec.sample
    ∃ cluster rn host rn', Reachable Host.Careful { voters := [1] } cluster ∧
      (cluster.hosts 1).raw = some rn ∧
      rn.raft.state ≠ .leader ∧ (cluster.hosts 1).step .campaign = .ok (host, []) ∧ host.raw = some rn' ∧
      rn'.raft.state = .leader ∧ rn'.raft.promotable = true ∧
        (rn'.raft.prs.get rn'.raft.id).isSome = true := by
  intro _
  have careful : (Host.fresh 1 { voters := [1] }).Careful (.restart { id := 1 } fun _ => 0) :=
    ⟨nofun, nofun⟩
  have started : Reachable Host.Careful { voters := [1] } _ :=
    .single (@Step.host _ _ _ 1 (.restart { id := 1 } fun _ => 0) _ _ careful trivial rfl)
  obtain ⟨cluster, reachable, rn, running, promotable, follows, host, stepped, rn', elected, leads⟩ :
      ∃ cluster, Reachable Host.Careful { voters := [1] } cluster ∧
        ∃ rn, (cluster.hosts 1).raw = some rn ∧
        rn.raft.promotable = true ∧ rn.raft.state = .follower ∧ ∃ host,
        (cluster.hosts 1).step .campaign = .ok (host, []) ∧ ∃ rn', host.raw = some rn' ∧
          rn'.raft.state = .leader :=
    ⟨_, started, _, rfl, rfl, rfl, _, rfl, _, rfl, rfl⟩
  have waits : rn.raft.state ≠ .leader := by rw [follows]; nofun
  have careful : (cluster.hosts 1).Careful .campaign := by
    refine ⟨fun _ other raw => ?_, nofun⟩
    obtain rfl := Option.some.inj (running.symm.trans raw)
    exact promotable
  obtain ⟨able, -, known⟩ :=
    (elected_promotable reachable running careful).2.1 host [] rn' stepped elected leads (.inl waits)
  exact ⟨cluster, rn, host, rn', reachable, running, waits, stepped, elected, leads, able, known⟩

omit [ConfChangeCodec] in
/-- A node with an empty configuration wins its own election and has no progress. -/
theorem elected_empty_configuration : let _ := ConfChangeCodec.sample
    ∃ cluster rn, Reachable (fun _ _ => True) {} cluster ∧ (cluster.hosts 1).raw = some rn ∧
      rn.raft.promotable = false ∧ (cluster.hosts 1).step .campaign = .error .missingWinner := by
  intro _
  have started : Reachable (fun _ _ => True) {} _ :=
    .single (@Step.host _ _ _ 1 (.restart { id := 1 } fun _ => 0) _ _ trivial trivial rfl)
  obtain ⟨cluster, reachable, rn, running, result⟩ : ∃ cluster, Reachable (fun _ _ => True)
    {} cluster ∧ ∃ rn,
      (cluster.hosts 1).raw = some rn ∧ rn.raft.promotable = false ∧
        (cluster.hosts 1).step .campaign = .error .missingWinner :=
    ⟨_, started, _, rfl, rfl, rfl⟩
  exact ⟨cluster, rn, reachable, running, result⟩

end Cluster

end RaftRs

import RaftRs.Node.Sworn

namespace RaftRs

open Library

/-- The messages that were sent or wait for a write of a machine. -/
def Host.issued (net : List Message) (host : Host) : List Message :=
  net ++ (host.past ++ host.durable :: host.pending).flatMap Write.msgs

/-- Every write of a chain stands by the sent messages and by those that wait for it or for an
earlier write. -/
def Stands (net : List Message) (id : Nat) (past chain : List Write) : Prop :=
  ∀ before write after, chain = before ++ write :: after →
    ∀ m ∈ net ++ (past ++ before ++ [write]).flatMap Write.msgs, m.fromId = id →
      m.Pledged write.store.ballot

/-- A machine stands by its messages with every write that a crash may leave. -/
structure Host.Sworn (cs : ConfState) (net : List Message) (id : Nat) (host : Host) : Prop where
  place : host.id = id
  stands : Stands net id host.past (host.durable :: host.pending)
  asked : ∀ m ∈ host.issued net, m.Asked net
  mine : ∀ write ∈ host.past ++ host.durable :: host.pending, ∀ m ∈ write.msgs,
    m.Votes ∨ m.msgType = .msgRequestPreVote → m.fromId = id
  single : Single id (host.issued net)
  stopped : host.raw = none → host.pending = []
  running : ∀ rn, host.raw = some rn → rn.raft.core.Sworn cs net id (host.issued net) ∧
    ∀ m ∈ host.issued net, m.fromId = id → m.Pledged rn.raft.raftLog.store.ballot

variable {cs : ConfState} {net more : List Message} {id : Nat} {m : Message} {past chain : List Write}

theorem Single.of_subset {ms ms' : List Message} (single : Single id ms) (fewer : ms' ⊆ ms) :
    Single id ms' :=
  fun m inside m' inside' => single m (fewer inside) m' (fewer inside')

theorem Message.pledged_of {b : Ballot} (plain : ¬ (m.Votes ∨ m.msgType = .msgRequestPreVote)) :
    m.Pledged b :=
  ⟨fun votes => absurd (.inl votes) plain, fun kind => absurd (.inr kind) plain⟩

/-- Further sent messages that every write stands by. -/
theorem Stands.send (stands : Stands net id past chain)
    (further : ∀ write ∈ chain, ∀ m ∈ more, m.fromId = id → m.Pledged write.store.ballot) :
    Stands (net ++ more) id past chain := by
  intro before write after split m inside sender
  rw [List.append_assoc] at inside
  rcases List.mem_append.1 inside with old | rest
  · exact stands before write after split m (List.mem_append_left _ old) sender
  rcases List.mem_append.1 rest with new | waiting
  · refine further write ?_ m new sender
    rw [split]
    exact List.mem_append_right _ List.mem_cons_self
  · exact stands before write after split m (List.mem_append_right _ waiting) sender

/-- A new write that stands by all messages. -/
theorem Stands.issue {write : Write} (stands : Stands net id past chain)
    (last : ∀ m ∈ net ++ (past ++ chain ++ [write]).flatMap Write.msgs, m.fromId = id →
      m.Pledged write.store.ballot) :
    Stands net id past (chain ++ [write]) := by
  intro before other after split
  rcases List.eq_nil_or_concat after with rfl | ⟨front, final, rfl⟩
  · obtain ⟨rfl, same⟩ := List.append_inj' split rfl
    obtain rfl := (List.cons.inj same).1
    exact last
  · rw [List.concat_eq_append, ← List.cons_append, ← List.append_assoc] at split
    exact stands before other front (List.append_inj' split rfl).1

theorem Stands.flush {durable : Write} (stands : Stands net id past (durable :: chain)) :
    Stands net id (past ++ [durable]) chain := by
  intro before write after split
  have earlier := stands (durable :: before) write after (by rw [split]; rfl)
  rwa [List.append_assoc past]

theorem Stands.sent (stands : Stands net id past chain) {write : Write} (member : write ∈ chain)
    (inside : m ∈ net) (sender : m.fromId = id) : m.Pledged write.store.ballot := by
  obtain ⟨before, after, split⟩ := List.append_of_mem member
  exact stands before write after split m (List.mem_append_left _ inside) sender

/-- A message that a node neither sent nor has to stand by. -/
def Message.Foreign (id : Nat) (m : Message) : Prop :=
  m.Votes ∨ m.msgType = .msgRequestPreVote → m.fromId ≠ id

theorem Single.extend {ms ms' : List Message} (single : Single id ms)
    (cover : ∀ m ∈ ms', m ∈ ms ∨ m.Foreign id) : Single id ms' := by
  intro m inside m' inside' sender sender' votes votes' same
  have old : m ∈ ms := (cover m inside).resolve_right fun foreign => foreign (.inl votes) sender
  have old' : m' ∈ ms := (cover m' inside').resolve_right fun foreign => foreign (.inl votes') sender'
  exact single m old m' old' sender sender' votes votes' same

/-- A node stays sworn when its messages move on and other nodes send theirs. -/
theorem Core.Sworn.extend {c : Core} {issued issued' msgs : List Message} {log : RaftLog}
    {readStates : List ReadState} (sworn : c.Sworn cs net id issued)
    (asked : ∀ m ∈ issued' ++ msgs, m.Asked (net ++ more))
    (cover : ∀ m ∈ issued' ++ msgs, m ∈ issued ++ c.msgs ∨ m.Foreign id) (queue : msgs ⊆ c.msgs) :
    Core.Sworn cs (net ++ more) id issued' { c with log, msgs, readStates } where
  named := sworn.named
  positive := sworn.positive
  own := sworn.own
  asked := asked
  mine m inside := sworn.mine m (queue inside)
  pledged m inside sender := by
    by_cases plain : m.Votes ∨ m.msgType = .msgRequestPreVote
    · exact sworn.pledged m ((cover m inside).resolve_right fun foreign => foreign plain sender) sender
    · exact Message.pledged_of plain
  single := sworn.single.extend cover
  counted role voter yes :=
    (sworn.counted role voter yes).imp_right fun voted => voted.mono (List.subset_append_left _ _)
  leads role :=
    ⟨(sworn.leads role).1.mono (List.subset_append_left _ _),
      (sworn.leads role).2.mono fun _ voted => voted.mono (List.subset_append_left _ _)⟩

namespace Host

variable {host host' : Host} {sent : List Message} {inp : Input → Prop} {permitted : Config → Prop}

theorem mem_issued_append : m ∈ host.issued (net ++ more) ↔ m ∈ host.issued net ∨ m ∈ more := by
  simp only [issued, List.mem_append]
  tauto

/-- A machine stays sworn when other machines send their messages. -/
theorem Sworn.extend (sworn : host.Sworn cs net id) (asked : ∀ m ∈ more, m.Asked (net ++ more))
    (foreign : ∀ m ∈ more, m.Foreign id) : host.Sworn cs (net ++ more) id := by
  have pledged : ∀ m ∈ more, ∀ b, m.fromId = id → m.Pledged b := fun m inside b sender =>
    Message.pledged_of fun plain => foreign m inside plain sender
  have all : ∀ m ∈ host.issued (net ++ more), m.Asked (net ++ more) := by
    intro m inside
    rcases mem_issued_append.1 inside with old | new
    · exact (sworn.asked m old).mono (List.subset_append_left _ _)
    · exact asked m new
  refine ⟨sworn.place, sworn.stands.send fun write _ m inside => pledged m inside _, all,
    sworn.mine, ?_, sworn.stopped, ?_⟩
  · exact sworn.single.extend fun m inside => (mem_issued_append.1 inside).imp_right (foreign m)
  · intro rn raw
    obtain ⟨node, stored⟩ := sworn.running rn raw
    refine ⟨?_, fun m inside sender => ?_⟩
    · have moved : ∀ {c : Core}, c.Sworn cs net id (host.issued net) →
          (∀ m ∈ host.issued (net ++ more) ++ c.msgs, m.Asked (net ++ more)) →
          (∀ m ∈ host.issued (net ++ more) ++ c.msgs, m ∈ host.issued net ++ c.msgs ∨ m.Foreign id) →
          c.Sworn cs (net ++ more) id (host.issued (net ++ more)) :=
        fun sworn asked cover => sworn.extend asked cover (List.Subset.refl _)
      refine moved node ?_ ?_
      · intro m inside
        rcases List.mem_append.1 inside with issued | queued
        · exact all m issued
        · exact (node.asked m (List.mem_append_right _ queued)).mono (List.subset_append_left _ _)
      · intro m inside
        rcases List.mem_append.1 inside with issued | queued
        · exact (mem_issued_append.1 issued).imp (List.mem_append_left _) (foreign m)
        · exact .inl (List.mem_append_right _ queued)
    · rcases mem_issued_append.1 inside with old | new
      · exact stored m old sender
      · exact pledged m new _ sender

/-- The changes of a call keep a running node sworn. -/
theorem Sworn.acts {rn : RawNode} {raft : Raft}
    (heard : ∀ m, inp (.message m) → Heard net id m ∧ m.Uniform cs) (several : cs.NoSingleton)
    (fixed : ∀ cc, ¬ inp (.confChange cc)) (uniform : host.Uniform cs)
    (sworn : host.Sworn cs net id) (raw : host.raw = some rn) (acts : Acts inp rn.raft.core raft.core) :
    raft.core.Sworn cs net id (host.issued net) ∧
      ∀ m ∈ host.issued net, m.fromId = id → m.Pledged raft.raftLog.store.ballot := by
  obtain ⟨node, stored⟩ := sworn.running rn raw
  refine ⟨Acts.sworn (fun m input => (heard m input).1) several (fun m input => (heard m input).2) fixed
    (uniform.running rn raw) (List.subset_append_left _ _) node acts, ?_⟩
  have kept : raft.raftLog.store.ballot = rn.raft.raftLog.store.ballot := (Acts.store_same acts).ballot
  rw [kept]
  exact stored

/-- The messages of a machine with a further write. -/
theorem mem_issued_write {write : Write} :
    m ∈ net ++ (host.past ++ host.durable :: (host.pending ++ [write])).flatMap Write.msgs ↔
      m ∈ host.issued net ∨ m ∈ write.msgs := by
  rw [← List.cons_append, ← List.append_assoc, List.flatMap_append,
    List.flatMap_singleton, ← List.append_assoc, List.mem_append]
  rfl

/-- A rewritten storage of the same ballot keeps a machine sworn. -/
theorem Sworn.rewrite {rn : RawNode} {store : MemStorage} (sworn : host.Sworn cs net id)
    (raw : host.raw = some rn) (ballot : store.ballot = rn.raft.raftLog.store.ballot) (number : Nat) :
    Sworn cs net id { host with
      raw := some (withStore rn store), pending := host.pending ++ [{ number, store }] } := by
  obtain ⟨node, stored⟩ := sworn.running rn raw
  have issued : Host.issued net { host with
      raw := some (withStore rn store), pending := host.pending ++ [{ number, store }] } =
        host.issued net := by
    simp [Host.issued]
  have pledged : ∀ m ∈ host.issued net, m.fromId = id → m.Pledged store.ballot := by
    rw [ballot]
    exact stored
  refine ⟨sworn.place, ?_, issued ▸ sworn.asked, ?_, issued ▸ sworn.single,
    fun none => (by cases none), ?_⟩
  · refine sworn.stands.issue fun m inside => ?_
    rw [List.append_assoc] at inside
    exact pledged m ((mem_issued_write.1 inside).resolve_right List.not_mem_nil)
  · intro write member
    rw [← List.cons_append, ← List.append_assoc] at member
    rcases List.mem_append.1 member with old | new
    · exact sworn.mine write old
    · rw [List.mem_singleton.1 new]
      exact List.forall_mem_nil _
  · rintro _ running
    cases running
    rw [issued]
    exact ⟨⟨node.named, node.positive, node.own, node.asked, node.mine, node.pledged, node.single,
      node.counted, node.leads⟩, pledged⟩

/-- A machine that has just started stands by what it has sent. -/
theorem Sworn.starts {config : Config} {rn : RawNode} (sworn : host.Sworn cs net id)
    (stopped : host.raw = none) (same : config.id = host.id)
    (starts : rn.Starts config host.durable.store) :
    rn.raft.core.Sworn cs net id (host.issued net) ∧
      ∀ m ∈ host.issued net, m.fromId = id → m.Pledged rn.raft.raftLog.store.ballot := by
  have pledged : ∀ m ∈ host.issued net, m.fromId = id → m.Pledged host.durable.store.ballot := by
    intro m inside
    refine sworn.stands [] host.durable host.pending rfl m ?_
    rw [issued, sworn.stopped stopped] at inside
    rwa [List.append_nil]
  have id_eq : rn.raft.core.id = id := by
    rw [starts.core]
    exact same.trans sworn.place
  have state : rn.raft.core.state = .follower := by rw [starts.core]
  have msgs : rn.raft.core.msgs = [] := by rw [starts.core]
  have ballot : rn.raft.core.ballot = host.durable.store.ballot := by
    rw [starts.core]
    rfl
  refine ⟨⟨id_eq, ?_, ?_, ?_, ?_, ?_, ?_, ?_, ?_⟩, ?_⟩
  · rw [← sworn.place, ← same]
    exact starts.named
  · simp [state]
  · rw [msgs, List.append_nil]
    exact sworn.asked
  · rw [msgs]
    exact List.forall_mem_nil _
  · rw [msgs, List.append_nil, ballot]
    exact pledged
  · rw [msgs, List.append_nil]
    exact sworn.single
  · simp [state]
  · simp [state]
  · rw [starts.log]
    exact pledged

/-- A Ready that is written later than the ballot of its node keeps a machine sworn. -/
theorem Sworn.ready {rn rn' : RawNode} {rd : Ready} {store : MemStorage} (sworn : host.Sworn cs net id)
    (raw : host.raw = some rn) (readies : rn.Readies rn' rd)
    (later : rn.raft.core.ballot.Before store.ballot) (delivered : List Delivery)
    (reads : List ReadState) :
    Sworn cs (net ++ rd.messages) id
      { host with
        raw := some (withStore rn' store)
        pending := host.pending ++ [{ number := rd.number, store, msgs := rd.persistedMessages }]
        outstanding := some rd, delivered, reads } := by
  obtain ⟨node, -⟩ := sworn.running rn raw
  have messages := readies.messages
  have persisted := readies.persistedMessages
  -- The queue of a leader is sent at once, that of any other node waits for the write.
  have queue : ∀ m ∈ rd.messages ++ rd.persistedMessages, m ∈ rn.raft.core.msgs := by
    rw [messages, persisted]
    split <;> simp [Raft.core]
  have sent : ∀ write ∈ host.durable :: host.pending, ∀ m ∈ rd.messages, m.fromId = id →
      m.Pledged write.store.ballot := by
    intro write member m inside sender
    have role : rn.raft.state = .leader := by
      by_contra other
      rw [messages, if_neg other] at inside
      exact List.not_mem_nil inside
    exact node.release role (fun m' sent' sender' => sworn.stands.sent member sent' sender')
      (queue m (List.mem_append_left _ inside)) sender
  have cover : ∀ m, m ∈ net ++ rd.messages ++ (host.past ++ host.durable ::
      (host.pending ++ [{ number := rd.number, store, msgs := rd.persistedMessages }])).flatMap
        Write.msgs →
      m ∈ host.issued net ++ rn.raft.core.msgs := by
    intro m inside
    rcases mem_issued_write.1 inside with old | waits
    · rcases mem_issued_append.1 old with old | new
      · exact List.mem_append_left _ old
      · exact List.mem_append_right _ (queue m (List.mem_append_left _ new))
    · exact List.mem_append_right _ (queue m (List.mem_append_right _ waits))
  have asked : ∀ m, m ∈ net ++ rd.messages ++ (host.past ++ host.durable ::
      (host.pending ++ [{ number := rd.number, store, msgs := rd.persistedMessages }])).flatMap
        Write.msgs →
      m.Asked (net ++ rd.messages) := fun m inside =>
    (node.asked m (cover m inside)).mono (List.subset_append_left _ _)
  have pledged : ∀ m, m ∈ net ++ rd.messages ++ (host.past ++ host.durable ::
      (host.pending ++ [{ number := rd.number, store, msgs := rd.persistedMessages }])).flatMap
        Write.msgs →
      m.fromId = id → m.Pledged store.ballot := fun m inside sender =>
    (node.pledged m (cover m inside) sender).mono (node.asked m (cover m inside)) later
  refine ⟨sworn.place, ?_, asked, ?_, node.single.of_subset cover, fun none => (by cases none), ?_⟩
  · refine (sworn.stands.send sent).issue fun m inside => ?_
    rw [List.append_assoc host.past] at inside
    exact pledged m inside
  · intro write member
    rw [← List.cons_append, ← List.append_assoc] at member
    rcases List.mem_append.1 member with old | new
    · exact sworn.mine write old
    · rw [List.mem_singleton.1 new]
      exact fun m inside => node.mine m (queue m (List.mem_append_right _ inside))
  · rintro _ running
    cases running
    refine ⟨?_, pledged⟩
    rw [readies.core_withStore store]
    refine node.extend ?_ ?_ (List.nil_subset _)
    · rw [List.append_nil]
      exact asked
    · rw [List.append_nil]
      exact fun m inside => .inl (cover m inside)

/-- The messages that a machine releases are its own. -/
def Owns (id : Nat) (sent : List Message) : Prop :=
  ∀ m ∈ sent, m.Votes ∨ m.msgType = .msgRequestPreVote → m.fromId = id

/-- The sent queue of a leader keeps a machine sworn. -/
theorem Sworn.light {rn rn' : RawNode} {prevHs : HardState} (sworn : host.Sworn cs net id)
    (raw : host.raw = some rn) (core : rn'.raft.core = { rn.raft.core with msgs := [] })
    (delivered : List Delivery)
    (withheld : rn.raft.state = .leader ∨ sent = []) (queue : sent ⊆ rn.raft.msgs) :
    Sworn cs (net ++ sent) id { host with raw := some { rn' with prevHs }, delivered } := by
  obtain ⟨node, stored⟩ := sworn.running rn raw
  have released : ∀ {b : Ballot}, (∀ m ∈ net, m.fromId = id → m.Pledged b) →
      ∀ m ∈ sent, m.fromId = id → m.Pledged b := by
    intro b stands m inside sender
    rcases withheld with role | none
    · exact node.release role stands (queue inside) sender
    · rw [none] at inside
      exact absurd inside List.not_mem_nil
  have cover : ∀ m ∈ host.issued (net ++ sent), m ∈ host.issued net ++ rn.raft.core.msgs := by
    intro m inside
    rcases mem_issued_append.1 inside with old | new
    · exact List.mem_append_left _ old
    · exact List.mem_append_right _ (queue new)
  have asked : ∀ m ∈ host.issued (net ++ sent), m.Asked (net ++ sent) := fun m inside =>
    (node.asked m (cover m inside)).mono (List.subset_append_left _ _)
  refine ⟨sworn.place, ?_, asked, sworn.mine, node.single.of_subset cover,
    fun none => (by cases none), ?_⟩
  · exact sworn.stands.send fun write member => released fun m inside => sworn.stands.sent member inside
  · rintro _ running
    cases running
    have log : rn'.raft.raftLog = rn.raft.raftLog := congrArg Core.log core
    refine ⟨?_, fun m inside sender => ?_⟩
    · show rn'.raft.core.Sworn cs (net ++ sent) id (host.issued (net ++ sent))
      rw [core]
      refine node.extend ?_ ?_ (List.nil_subset _)
      · rw [List.append_nil]
        exact asked
      · rw [List.append_nil]
        exact fun m inside => .inl (cover m inside)
    · show m.Pledged rn'.raft.raftLog.store.ballot
      rw [log]
      rcases mem_issued_append.1 inside with old | new
      · exact stored m old sender
      · exact released (fun m inside => stored m (List.mem_append_left _ inside)) m new sender

/-- Messages whose write is durable are sent. -/
theorem Sworn.sends (sworn : host.Sworn cs net id)
    (origin : ∀ m ∈ sent, m ∈ (host.past ++ [host.durable]).flatMap Write.msgs) {number : Nat} :
    Sworn cs (net ++ sent) id { host with sent := number } ∧ Owns id sent := by
  have waited : ∀ m ∈ sent, ∃ write ∈ host.past ++ host.durable :: host.pending, m ∈ write.msgs := by
    intro m inside
    obtain ⟨write, member, inside⟩ := List.mem_flatMap.1 (origin m inside)
    exact ⟨write, issued_of_durable member, inside⟩
  have cover : ∀ m ∈ host.issued (net ++ sent), m ∈ host.issued net := by
    intro m inside
    rcases mem_issued_append.1 inside with old | new
    · exact old
    · exact List.mem_append_right _ (List.mem_flatMap.2 (waited m new))
  have asked : ∀ m ∈ host.issued (net ++ sent), m.Asked (net ++ sent) := fun m inside =>
    (sworn.asked m (cover m inside)).mono (List.subset_append_left _ _)
  have stands : Stands (net ++ sent) id host.past (host.durable :: host.pending) := by
    intro before write after split m inside
    refine sworn.stands before write after split m ?_
    rw [List.append_assoc] at inside
    rcases List.mem_append.1 inside with old | rest
    · exact List.mem_append_left _ old
    rcases List.mem_append.1 rest with new | waiting
    · refine List.mem_append_right _ ?_
      -- The durable write comes first in the chain.
      have first : host.durable ∈ before ++ [write] := by
        cases before with
        | nil => exact (List.cons.inj split).1 ▸ List.mem_cons_self
        | cons head tail => exact (List.cons.inj split).1 ▸ List.mem_cons_self
      obtain ⟨owner, member, inside⟩ := List.mem_flatMap.1 (origin m new)
      refine List.mem_flatMap.2 ⟨owner, ?_, inside⟩
      rw [List.append_assoc]
      rcases List.mem_append.1 member with past | last
      · exact List.mem_append_left _ past
      · exact List.mem_append_right _ (List.mem_singleton.1 last ▸ first)
    · exact List.mem_append_right _ waiting
  refine ⟨⟨sworn.place, stands, asked, sworn.mine, sworn.single.of_subset cover, sworn.stopped, ?_⟩,
    fun m inside => ?_⟩
  · intro rn raw
    obtain ⟨node, stored⟩ := sworn.running rn raw
    refine ⟨?_, fun m inside => stored m (cover m inside)⟩
    have moved : ∀ {c : Core}, c.Sworn cs net id (host.issued net) →
        c.Sworn cs (net ++ sent) id (host.issued (net ++ sent)) := by
      intro c node
      refine node.extend (fun m inside => ?_) (fun m inside => .inl ?_) (List.Subset.refl _)
      · rcases List.mem_append.1 inside with issued | queued
        · exact asked m issued
        · exact (node.asked m (List.mem_append_right _ queued)).mono (List.subset_append_left _ _)
      · rcases List.mem_append.1 inside with issued | queued
        · exact List.mem_append_left _ (cover m issued)
        · exact List.mem_append_right _ queued
    exact moved node
  · obtain ⟨write, member, waits⟩ := waited m inside
    exact sworn.mine write member m waits

theorem Sworn.crash (sworn : host.Sworn cs net id) : host.crash.Sworn cs net id := by
  have issued : host.crash.issued net = net := by simp [Host.issued, Host.crash]
  have cover : net ⊆ host.issued net := List.subset_append_left _ _
  refine ⟨sworn.place, ?_, issued.symm ▸ fun m inside => sworn.asked m (cover inside), ?_,
    issued.symm ▸ sworn.single.of_subset cover, fun _ => rfl, fun rn running => (by cases running)⟩
  · intro before write after split m inside
    cases before with
    | nil =>
        obtain ⟨rfl, -⟩ := List.cons.inj split
        refine sworn.stands [] host.durable host.pending rfl m (List.mem_append_left _ ?_)
        simpa [Host.crash] using inside
    | cons head tail => simp [Host.crash] at split
  · intro write member
    rw [List.mem_singleton.1 member]
    exact List.forall_mem_nil _

/-- A machine stays sworn while only its node changes. -/
theorem Sworn.resume {rn : RawNode} (sworn : host.Sworn cs net id) (outstanding : Option Ready)
    (reported : Nat) (node : rn.raft.core.Sworn cs net id (host.issued net) ∧
      ∀ m ∈ host.issued net, m.fromId = id → m.Pledged rn.raft.raftLog.store.ballot) :
    Sworn cs net id { host with raw := some rn, outstanding, reported } := by
  refine ⟨sworn.place, sworn.stands, sworn.asked, sworn.mine, sworn.single,
    fun none => (by cases none), ?_⟩
  rintro _ running
  cases running
  exact node

/-- A machine stays sworn when its first pending write becomes durable. -/
theorem Sworn.flush {write : Write} {rest : List Write} (sworn : host.Sworn cs net id)
    (pending : host.pending = write :: rest) :
    Sworn cs net id
      { host with past := host.past ++ [host.durable], durable := write, pending := rest } := by
  obtain ⟨place, stands, asked, mine, single, stopped, running⟩ := sworn
  have issued : Host.issued net { host with
      past := host.past ++ [host.durable], durable := write, pending := rest } =
        host.issued net := by
    simp [Host.issued, pending]
  rw [pending] at stands mine
  refine ⟨place, stands.flush, issued ▸ asked, ?_, issued ▸ single, fun none => ?_, issued ▸ running⟩
  · intro other member
    apply mine other
    rwa [List.append_assoc] at member
  · exact absurd (pending.symm.trans (stopped none)) nofun

/-- Every phase keeps a machine sworn, and the messages that it sends are its own. -/
theorem Phase.sworn (heard : ∀ m, inp (.message m) → Heard net id m ∧ m.Uniform cs)
    (several : cs.NoSingleton) (fixed : ∀ cc, ¬ inp (.confChange cc)) (tidy : host.Tidy)
    (saved : host.Saved) (uniform : host.Uniform cs) (sworn : host.Sworn cs net id)
    (phase : Phase inp permitted host host' sent) :
    host'.Sworn cs (net ++ sent) id ∧ Owns id sent := by
  have after := phase.saved tidy saved
  cases phase with
  | @call rn raft raw idle acts =>
      rw [List.append_nil]
      have heard : ∀ m, rn.inputs inp (.message m) → Heard net id m ∧ m.Uniform cs := heard
      exact ⟨sworn.resume _ _ (sworn.acts heard several fixed uniform raw acts),
        List.forall_mem_nil _⟩
  | @ready rn rn' rd store raw idle done written =>
      have readies := RawNode.ready_readies done
      have later : rn.raft.core.ballot.Before store.ballot := by
        have reached := (after.busy _ rd rfl rfl).1
        rw [readies.core_withStore store] at reached
        exact reached
      exact ⟨sworn.ready raw readies later _ _, (readies.queued (sworn.running rn raw).1.mine).1⟩
  | flush pending =>
      rw [List.append_nil]
      exact ⟨sworn.flush pending, List.forall_mem_nil _⟩
  | @send number ahead durable =>
      have origin : ∀ m ∈ ((host.past ++ [host.durable]).filter fun write =>
          host.sent < write.number ∧ write.number ≤ number).flatMap Write.msgs,
          m ∈ (host.past ++ [host.durable]).flatMap Write.msgs := by
        intro m inside
        obtain ⟨write, member, inside⟩ := mem_released inside
        exact List.mem_flatMap.2 ⟨write, member, inside⟩
      exact sworn.sends origin
  | @stable rn rn' rd raw outstanding done =>
      rw [List.append_nil]
      obtain ⟨log, busy⟩ := tidy.busy rn rd raw outstanding
      obtain ⟨-, -, -, -, store, same⟩ := busy.settle done
      obtain ⟨node, stored⟩ := sworn.running rn raw
      have core : rn'.raft.core = { rn.raft.core with log := rn'.raft.raftLog } := by
        rw [same]
        rfl
      refine ⟨sworn.resume _ _ ?_, List.forall_mem_nil _⟩
      rw [core, store]
      exact ⟨⟨node.named, node.positive, node.own, node.asked, node.mine, node.pledged, node.single,
        node.counted, node.leads⟩, stored⟩
  | @report rn raft number snapIndex index term raw idle durable position acts =>
      rw [List.append_nil]
      exact ⟨sworn.resume _ _ (sworn.acts (fun _ => False.elim) several (fun _ => not_false) uniform
        raw acts), List.forall_mem_nil _⟩
  | @light rn rn' light raw idle done withheld current =>
      have lights := RawNode.genLightReady_lights done
      have state : rn'.raft.state = rn.raft.state := congrArg Core.state lights.core
      refine ⟨sworn.light raw lights.core _ (state ▸ withheld)
        (lights.messages ▸ List.Subset.refl _), ?_⟩
      rw [lights.messages]
      exact (sworn.running rn raw).1.mine
  | @saveCommit rn store raw idle done =>
      rw [List.append_nil]
      refine ⟨sworn.rewrite raw ?_ rn.maxNumber, List.forall_mem_nil _⟩
      rw [done]
      rfl
  | @compact rn compactIndex store raw idle may done =>
      rw [List.append_nil]
      have sound : rn.raft.raftLog.Sound := (tidy.idle rn raw idle).log
      obtain ⟨-, -, -, state⟩ := compacted_store sound.wf may done
      exact ⟨sworn.rewrite raw (congrArg (fun state => state.hardState.ballot) state) rn.maxNumber,
        List.forall_mem_nil _⟩
  | crash =>
      rw [List.append_nil]
      exact ⟨sworn.crash, List.forall_mem_nil _⟩
  | @restart config rng rn stopped same allowed done =>
      rw [List.append_nil]
      exact ⟨sworn.resume _ _ (sworn.starts stopped same (RawNode.new_starts tidy.durable done)),
        List.forall_mem_nil _⟩

/-- Every sequence of phases keeps a machine sworn, and the messages that it sends are its own. -/
theorem Phases.sworn (heard : ∀ m, inp (.message m) → Heard net id m ∧ m.Uniform cs ∧ m.Tidy)
    (several : cs.NoSingleton) (fixed : ∀ cc, ¬ inp (.confChange cc)) (tidy : host.Tidy)
    (saved : host.Saved) (uniform : host.Uniform cs) (sworn : host.Sworn cs net id)
    (phases : Phases inp permitted host host' sent) :
    host'.Sworn cs (net ++ sent) id ∧ Owns id sent := by
  induction phases generalizing net with
  | refl =>
      rw [List.append_nil]
      exact ⟨sworn, List.forall_mem_nil _⟩
  | @step host middle host' sent sent' phase _ ih =>
      obtain ⟨next, own⟩ :=
        phase.sworn (fun m input => ⟨(heard m input).1, (heard m input).2.1⟩) several fixed tidy
          saved uniform sworn
      have heard' : ∀ m, inp (.message m) → Heard (net ++ sent) id m ∧ m.Uniform cs ∧ m.Tidy := by
        intro m input
        obtain ⟨ofOwn | ⟨inside, rest⟩, others⟩ := heard m input
        · exact ⟨.inl ofOwn, others⟩
        · exact ⟨.inr ⟨List.mem_append_left _ inside, rest⟩, others⟩
      obtain ⟨last, own'⟩ :=
        ih heard' (phase.tidy (fun m input => (heard m input).2.2) tidy).1 (phase.saved tidy saved)
        (phase.uniform (fun m input => (heard m input).2.1) fixed tidy uniform).1 next
      rw [← List.append_assoc]
      refine ⟨last, fun m inside => ?_⟩
      rcases List.mem_append.1 inside with first | second
      · exact own m first
      · exact own' m second

end Host

namespace Cluster

variable [ConfChangeCodec] {allowed : Host → HostOp → Prop} {cluster : Cluster}

omit [ConfChangeCodec] in
theorem sworn_fresh (cs : ConfState) (id : Nat) : (Host.fresh id cs).Sworn cs [] id where
  place := rfl
  stands before write after split m inside := by
    cases before with
    | nil =>
        obtain ⟨rfl, -⟩ := List.cons.inj split
        exact absurd inside List.not_mem_nil
    | cons head tail => simp [Host.fresh] at split
  asked := List.forall_mem_nil _
  mine write member := by
    rw [List.mem_singleton.1 member]
    exact List.forall_mem_nil _
  single m inside := absurd inside List.not_mem_nil
  stopped _ := rfl
  running rn running := by cases running

/-- Every machine of a run with one fixed configuration stands by the messages that it has sent. -/
theorem Reachable.sworn (fixed : ∀ host op, allowed host op → op.Fixed) (several : cs.NoSingleton)
    (reachable : Reachable allowed cs cluster) (id : Nat) :
    (cluster.hosts id).Sworn cs cluster.network id := by
  induction reachable generalizing id with
  | refl => exact sworn_fresh cs id
  | @tail cluster _ before step ih =>
      have before : Reachable allowed cs cluster := before
      cases step with
      | @host id' op host sent permitted deliverable stepped =>
          have heard : ∀ m, op.inputs (.message m) → Heard cluster.network id' m ∧ m.Uniform cs ∧
              m.Tidy := by
            intro m input
            have termed := before.inputs_termed deliverable input
            have tidy := before.inputs_tidy deliverable input
            rcases inputs_cases deliverable input with ⟨sent, receiver⟩ | ofOwn
            · exact ⟨.inr ⟨sent, receiver, termed⟩, (before.uniform fixed).2 m sent, tidy⟩
            · exact ⟨.inl ofOwn, ofOwn.uniform, tidy⟩
          have runs := Host.runs_step (cluster.hosts id') op
          rw [stepped] at runs
          obtain ⟨next, own⟩ :=
            Host.Phases.sworn heard several (fixed _ op permitted).no_confChange (before.tidy.1 id')
            (before.saved id') ((before.uniform fixed).1 id') (ih id') runs
          by_cases same : id = id'
          · subst same
            simpa using next
          · simp only [Function.update_of_ne same]
            refine (ih id).extend (fun m inside => ?_) fun m inside kind => ?_
            · exact next.asked m (List.mem_append_left _ (List.mem_append_right _ inside))
            · rw [own m inside kind]
              exact Ne.symm same

end Cluster

end RaftRs

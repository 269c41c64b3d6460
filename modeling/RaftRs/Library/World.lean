import RaftRs.Library.LeaderStep

namespace RaftRs.Library

open Termed

/-- The states of a node: the durable one, the pending writes and the live one. -/
structure Node (ν ε : Type) where
  durable : Replica ν ε
  pending : List (Stage ν ε)
  live : Option (Stage ν ε)

/-- A world is a history with the nodes that made it. -/
structure World (ν ε : Type) where
  history : History ν ε
  nodes : ν → Node ν ε

namespace History

variable {ν ε : Type} {x : ν} {h h' h'' : History ν ε}

/-- Recorded promises stay recorded. -/
theorem Extends.recorded (ext : h.Extends h') (y : ν) : h.recorded y ⊆ h'.recorded y := by
  intro p promised
  cases p with
  | ack t i => exact ext.acks promised
  | floor t i => exact ext.floors promised
  | vote t c log =>
      obtain ⟨n, vote⟩ := promised
      exact ⟨n, ext.votes vote⟩

/-- What a node leaves unchanged for the others when it extends the history. -/
structure Frame (x : ν) (h h' : History ν ε) : Prop extends Extends h h' where
  recorded : ∀ y, y ≠ x → h'.recorded y = h.recorded y
  ownElections : ∀ e ∈ h'.elections, e.leader ≠ x → e ∈ h.elections
  otherLogs : ∀ e ∈ h.elections, e.leader ≠ x → h'.log e.term = h.log e.term
  ownCommits : ∀ t i, h'.commits t i → h.commits t i ∨ ∃ e ∈ h'.elections, e.term = t ∧ e.leader = x

/-- An index is the highest one that the leader of a term has decided, unless it lies in the base of
the term. -/
structure Decides (h : History ν ε) (t i : Nat) : Prop where
  own : ∃ e ∈ h.elections, e.term = t ∧ (e.base.length < i → h.commits t i)
  highest : ∀ j, h.commits t j → j ≤ i

theorem Decides.mono {t i : Nat} (decides : h.Decides t i) (ext : h.Extends h')
    (same : ∀ j, h'.commits t j → h.commits t j) : h'.Decides t i := by
  obtain ⟨⟨e, member, term, own⟩, highest⟩ := decides
  exact ⟨⟨e, ext.election member, term, fun beyond => ext.commits (own beyond)⟩,
    fun j decided => highest j (same j decided)⟩

theorem Frame.refl (x : ν) (h : History ν ε) : Frame x h h :=
  ⟨Extends.refl h, fun _ _ => rfl, fun _ member _ => member, fun _ _ _ => rfl, fun _ _ => .inl⟩

theorem Frame.trans (first : Frame x h h') (second : Frame x h' h'') : Frame x h h'' := by
  refine ⟨first.toExtends.trans second.toExtends, ?_, ?_, ?_, ?_⟩
  · intro y other
    rw [second.recorded y other, first.recorded y other]
  · intro e member other
    exact first.ownElections e (second.ownElections e member other) other
  · intro e member other
    rw [second.otherLogs e (first.toExtends.election member) other, first.otherLogs e member other]
  · intro t i decided
    rcases second.ownCommits t i decided with old | new
    · exact (first.ownCommits t i old).imp_right fun found => found.imp
        fun e own => ⟨second.election own.1, own.2⟩
    · exact .inr new

theorem frame_record (x : ν) (h : History ν ε) (P : Set (Promise ν ε)) : Frame x h (h.record x P) :=
  ⟨extends_record h x P, fun _ other => recorded_record_ne h other P, fun _ member _ => member,
    fun _ _ _ => rfl, fun _ _ => .inl⟩

/-- A decision of a leader concerns no other node. -/
theorem frame_conclude {t : Nat} (leads : ∃ e ∈ h.elections, e.term = t ∧ e.leader = x) (i : Nat) :
    Frame x h (h.conclude t i) := by
  refine ⟨extends_conclude h t i, fun _ _ => rfl, fun _ member _ => member, fun _ _ _ => rfl, ?_⟩
  rintro s j (old | ⟨rfl, rfl⟩)
  · exact .inl old
  · exact .inr leads

variable [Termed ε] {quorum : Set ν → Prop}

/-- The invariant of the other nodes survives. -/
theorem Frame.other (frame : Frame x h h') (valid : h.Valid quorum) (valid' : h'.Valid quorum)
    {y : ν} (other : y ≠ x) {durable : Replica ν ε} {pending : List (Stage ν ε)}
    {live : Option (Stage ν ε)} (inv : h.NodeInv y durable pending live) :
    h'.NodeInv y durable pending live := by
  apply inv.extend frame.toExtends valid valid' (frame.recorded y other)
  · intro e member leader
    exact frame.ownElections e member (leader ▸ other)
  · intro e member leader
    exact frame.otherLogs e member (leader ▸ other)

/-- An election concerns only its winner. -/
theorem Valid.frame_elect (valid : h.Valid quorum) {e : Election ν ε} (fresh : ¬ h.Elected e.term) :
    Frame e.leader h (h.elect e) := by
  refine ⟨valid.extends_elect fresh, fun _ _ => rfl, ?_, ?_, fun _ _ => .inl⟩
  · intro f member other
    rcases List.mem_append.1 member with old | new
    · exact old
    · rw [List.mem_singleton] at new
      exact absurd (congrArg Election.leader new) other
  · intro f member _
    exact log_elect_of_ne fun same => fresh ⟨f, member, same⟩

/-- Entries of a leader concern only that leader. -/
theorem Valid.frame_grow (valid : h.Valid quorum) {e : Election ν ε} (member : e ∈ h.elections)
    (ents : List ε) :
    Frame e.leader h (h.grow e.term ents) := by
  refine ⟨extends_grow h e.term ents, fun _ _ => rfl, fun _ inside _ => inside, ?_, fun _ _ => .inl⟩
  intro f inside other
  apply log_grow_of_ne
  intro same
  exact other (congrArg Election.leader (valid.election_unique inside member same))

/-- A decision of a leader survives in the invariant of every node. -/
theorem NodeInv.conclude {durable : Replica ν ε} {pending : List (Stage ν ε)}
    {live : Option (Stage ν ε)} (inv : h.NodeInv x durable pending live) (valid : h.Valid quorum)
    {t i : Nat} (valid' : (h.conclude t i).Valid quorum) :
    (h.conclude t i).NodeInv x durable pending live :=
  inv.extend (extends_conclude h t i) valid valid' rfl (fun _ member _ => member) (fun _ _ _ => rfl)

/-- The history in which nothing has happened. -/
def empty (ν ε : Type) : History ν ε where
  log _ := []
  elections := []
  votes _ _ _ _ _ := False
  acks _ _ _ := False
  floors _ _ _ := False
  commits _ _ := False

theorem valid_empty (quorum : Set ν → Prop) : (empty ν ε).Valid quorum := by
  have unacked : ∀ {y : ν} {t i : Nat}, ¬ (empty ν ε).Acked y t i := fun acked => acked.elim id id
  refine ⟨?_, ?_, ?_, ?_, ?_, fun _ _ => rfl, ?_, ?_, ?_, ?_, ?_, ?_, ?_, ?_⟩
  · intro p q e e' found
    cases found
  · exact List.forall_mem_nil _
  · exact List.forall_mem_nil _
  · intro p e found
    cases found
  · exact List.forall_mem_nil _
  · intro p e found
    cases found
  · exact List.forall_mem_nil _
  · exact fun vote => vote.elim
  · exact fun vote => vote.elim
  · exact fun vote => vote.elim
  · exact fun acked => absurd acked unacked
  · exact fun acked => absurd acked unacked
  · exact fun known => known.elim

/-- The state of a node that has done nothing. -/
def fresh (ν ε : Type) : Replica ν ε := ⟨0, none, .follower, [], 0⟩

theorem nodeInv_empty (x : ν) : (empty ν ε).NodeInv x (fresh ν ε) [] none := by
  have unpromised : ∀ p, p ∉ (empty ν ε).recorded x := by
    intro p promised
    cases p with
    | ack t i => exact promised
    | floor t i => exact promised
    | vote t c log => exact promised.elim fun _ vote => vote
  have single : ∀ s ∈ (empty ν ε).stages x (fresh ν ε) [] none, s =
      ⟨(empty ν ε).recorded x, fresh ν ε⟩ :=
    fun _ inside => List.mem_singleton.1 inside
  refine ⟨⟨fun s inside => ?_, List.pairwise_singleton _ _, fun s inside s' _ p promised => ?_⟩, ?_, ?_⟩
  · rw [single s inside]
    refine ⟨⟨path_nil _, List.forall_mem_nil _, le_rfl, .inl rfl, fun _ => List.forall_mem_nil _⟩,
      ?_, ?_⟩
    · exact fun p promised => absurd promised (unpromised p)
    · exact fun p promised => absurd promised (unpromised p)
  · rw [single s inside] at promised
    exact absurd promised (unpromised p)
  · intro s live
    cases live
  · intro s live
    cases live

end History

namespace World

variable {ν ε : Type}

/-- The world after a node has changed itself and the history. -/
def set [DecidableEq ν] (w : World ν ε) (x : ν) (history : History ν ε) (node : Node ν ε) : World ν ε :=
  ⟨history, Function.update w.nodes x node⟩

end World

end RaftRs.Library

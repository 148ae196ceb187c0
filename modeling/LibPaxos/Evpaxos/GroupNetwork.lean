import LibPaxos.Evpaxos.ReplicaNetwork

/-!
# A group of replicas as a flat network

In a configuration without delegates every run of the replicas is a run of the
flat network of acceptors, proposers and learners, with the same deliveries.  So
what holds of the flat network holds of the replicas, whatever is lost on the
wire and in whatever order the rest arrives.
-/

namespace LibPaxos

open LibPaxos.Library

/-- Every replica plays its parties, and what is on the wire is known to the
network. -/
structure Group.Matches (c : EvpaxosConfig) (window : Int) (s : Group)
    (net : Network) : Prop where
  plays : ∀ id < c.acceptors.length, (s.node id).Plays c window id net
  idle : ∀ id, c.acceptors.length ≤ id →
    net.proposers id = proposerNew id c.acceptors.length
  wire : ∀ packet ∈ s.wire, packet.message.Travels net.sent

theorem PaxosMessage.Travels.comes
    {message : PaxosMessage} {sent : List PaxosMessage}
    (travels : message.Travels sent) :
    message ∈ sent ∨ message.fromClient = true := by
  rcases travels with isSent | ⟨v, rfl⟩ | ⟨trim, rfl⟩
  · exact Or.inl isSent
  · exact Or.inr rfl
  · exact Or.inr rfl

section Step

variable {c : EvpaxosConfig} {window : Int} {s : Group} {net : Network}

theorem Group.Initial.isMatch
    (flat : c.Flat) (initial : s.Initial c window) :
    s.Matches c window (networkNew c.acceptors.length) where
  plays := by
    intro id bound
    have same := (initial.node id bound).symm.trans (flat.init bound window)
    rw [Option.some.inj same]
    exact ⟨rfl, .new id 0 0, rfl, rfl⟩
  idle := fun _ _ => rfl
  wire := by
    intro packet member
    rw [initial.wire] at member
    cases member

namespace Group.Matches

variable (isMatch : s.Matches c window net)

include isMatch

theorem roomy
    (room : s.roomy c.acceptors.length = true) {id : Nat}
    (bound : id < c.acceptors.length) :
    (net.proposers id).roomy window.toNat = true := by
  rw [Group.roomy, List.all_eq_true] at room
  have own := room id (List.mem_range.mpr bound)
  rw [(isMatch.plays id bound).proposer] at own
  exact own

/-- What is acknowledged lies below the last instance id. -/
theorem below
    {history : List NetworkTransition}
    (trace : Trace (networkStep c.acceptors.length)
      (networkNew c.acceptors.length) history net)
    (room : s.roomy c.acceptors.length = true) {ack : PaxosAccepted}
    (isSent : .accepted ack ∈ net.sent) :
    ack.iid + 1 < 2 ^ 32 := by
  obtain ⟨id, _, opened⟩ := acknowledged_opened trace isSent
  by_cases bound : id < c.acceptors.length
  · have own := roomy_next (isMatch.roomy room bound)
    omega
  · rw [isMatch.idle id (Nat.le_of_not_lt bound)] at opened
    change ack.iid ≤ 0 at opened
    omega

/-- After the turn of a replica the group matches the network again. -/
theorem turn
    {id : Nat} {handled : Option PaxosMessage} {sender : Option Nat}
    {next : Replica} {result : ReplicaResult} {more : List NetworkTransition}
    {after : Network} (bound : id < c.acceptors.length)
    (turn : next.Turn c window id handled net result more after)
    (inside : sender = none ∨ ∀ msg, handled ≠ some (.repeat msg)) :
    Group.Matches c window
      ⟨Function.update s.node id next,
        s.wire ++ posted c id sender result.sent⟩ after where
  plays := by
    intro other otherBound
    by_cases own : other = id
    · subst own
      simp only [Function.update_self]
      exact turn.plays
    · simp only [Function.update_of_ne own]
      have plays := isMatch.plays other otherBound
      obtain ⟨proposers, acceptors, learners⟩ :=
        others_unchanged turn.trace turn.calls own
      refine ⟨plays.peers, ?_, ?_, ?_⟩
      · rw [acceptors]
        exact plays.acceptor
      · rw [proposers]
        exact plays.proposer
      · rw [learners]
        exact plays.learner
  idle := by
    intro other beyond
    have different : other ≠ id := by omega
    rw [(others_unchanged turn.trace turn.calls different).1]
    exact isMatch.idle other beyond
  wire := by
    intro packet member
    rcases List.mem_append.mp member with old | new
    · exact (isMatch.wire packet old).later turn.trace
    · obtain ⟨send, isSend, copies⟩ := List.mem_flatMap.mp new
      obtain ⟨receiver, isReceiver, rfl⟩ := List.mem_map.mp copies
      rcases turn.posts send isSend with travels | ⟨back, msg, isRepeat⟩
      · exact travels
      · -- Only the answer to a client is none of the network's messages.
        rcases inside with outside | notRepeat
        · rw [Send.receivers, back, outside] at isReceiver
          cases isReceiver
        · exact absurd isRepeat (notRepeat msg)

/-- An event of the group is the turn of a replica, or a loss. -/
theorem step
    {history : List NetworkTransition} {op : GroupOp} {target : Group}
    {result : ReplicaResult} (flat : c.Flat)
    (trace : Trace (networkStep c.acceptors.length)
      (networkNew c.acceptors.length) history net)
    (room : s.roomy c.acceptors.length = true)
    (stepEq : groupStep c s op = some (target, result)) :
    (op.place = none ∧ op.handled = none ∧ result.delivered = [] ∧
      target.Matches c window net) ∨
    ∃ id handled next more after,
      op.place = some id ∧
      op.handled = handled.map (fun message => (id, message)) ∧
      Replica.Turn c window id handled net next result more after ∧
      target.Matches c window after := by
  have fewer : ∀ packet, Group.Matches c window
      { s with wire := s.wire.erase packet } net := by
    intro packet
    refine ⟨isMatch.plays, isMatch.idle, ?_⟩
    intro other member
    exact isMatch.wire other (List.mem_of_mem_erase member)
  cases op with
  | lose packet =>
      cases stepEq
      exact Or.inl ⟨rfl, rfl, rfl, fewer packet⟩
  | receive env packet =>
      rw [groupStep] at stepEq
      split at stepEq
      · next arrives =>
          obtain ⟨onWire, bound⟩ := arrives
          obtain ⟨⟨next, out⟩, ran, equal⟩ := Option.map_eq_some_iff.mp stepEq
          cases equal
          have travels := isMatch.wire packet onWire
          obtain ⟨more, after, turn⟩ :=
            (isMatch.plays packet.receiver bound).dispatchTurn flat bound trace
              (isMatch.roomy room bound)
              (fun _ isSent => isMatch.below trace room isSent) travels.comes
              ran
          refine Or.inr ⟨_, _, _, more, after, rfl, rfl, turn,
            (fewer packet).turn bound turn (Or.inr ?_)⟩
          intro msg same
          rw [Option.some.inj same] at travels
          rcases travels with isSent | ⟨v, impossible⟩ | ⟨trim, impossible⟩
          · exact network_exchanged trace _ isSent
          · cases impossible
          · cases impossible
      · cases stepEq
  | client env id message =>
      rw [groupStep] at stepEq
      split at stepEq
      · next arrives =>
          obtain ⟨fromClient, bound⟩ := arrives
          obtain ⟨⟨next, out⟩, ran, equal⟩ := Option.map_eq_some_iff.mp stepEq
          cases equal
          obtain ⟨more, after, turn⟩ :=
            (isMatch.plays id bound).dispatchTurn flat bound trace
              (isMatch.roomy room bound)
              (fun _ isSent => isMatch.below trace room isSent)
              (Or.inr fromClient) ran
          exact Or.inr ⟨_, _, _, more, after, rfl, rfl, turn,
            isMatch.turn bound turn (Or.inl rfl)⟩
      · cases stepEq
  | event id op =>
      rw [groupStep] at stepEq
      split at stepEq
      · next happens =>
          obtain ⟨isOwn, bound⟩ := happens
          obtain ⟨⟨next, out⟩, ran, equal⟩ := Option.map_eq_some_iff.mp stepEq
          cases equal
          have few := Nat.lt_of_lt_of_le bound flat.few
          obtain ⟨more, after, turn⟩ :=
            (isMatch.plays id bound).ownTurn few (isMatch.roomy room bound)
              isOwn ran
          exact Or.inr ⟨_, none, _, more, after, rfl, rfl, turn,
            isMatch.turn bound turn (Or.inl rfl)⟩
      · cases stepEq

end Group.Matches

end Step

end LibPaxos

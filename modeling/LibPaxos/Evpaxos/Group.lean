import LibPaxos.Evpaxos.Callbacks
import LibPaxos.Evpaxos.Hierarchy

/-!
# A group of replicas

All replicas of a configuration, each with its acceptor, its proposer and its
learner, and the messages on their way between them.  A message arrives once, in
any order, or gets lost with its connection.  Clients outside the group send
values, trims and repeats, and what a callback sends back to a client leaves the
group.

The replicas are in catch-up mode, and the application does not move one of them
to another instance by `evpaxos_replica_set_instance_id`.
-/

namespace LibPaxos

open LibPaxos.Library

/-- The replicas and the messages on their way. -/
structure Group where
  node : Nat → Replica
  wire : List Packet

/-- The replicas of a configuration before the first event. -/
structure Group.Initial (c : EvpaxosConfig) (window : Int) (s : Group) :
    Prop where
  node : ∀ id < c.acceptors.length,
    evpaxosReplicaInit true window c id = some (s.node id)
  wire : s.wire = []

/-- The messages of clients. -/
def PaxosMessage.fromClient : PaxosMessage → Bool
  | .clientValue _ => true
  | .trim _ => true
  | .repeat _ => true
  | _ => false

/-- The events that a replica has of its own. -/
def ReplicaOp.own : ReplicaOp → Bool
  | .receive _ _ => false
  | .setInstanceId _ => false
  | _ => true

/-- The replicas that a message goes to: the peer itself, every replica that has
connected to the sender, or the sender of the message at hand, if it is in the
group. -/
def Send.receivers (c : EvpaxosConfig) (own : Nat) (sender : Option Nat)
    (send : Send) : List Nat :=
  match send.target with
  | .acceptor id => [id]
  | .clients => clientsOf c own
  | .sender => sender.toList

/-- The messages that a replica puts on the wire. -/
def posted (c : EvpaxosConfig) (own : Nat) (sender : Option Nat)
    (sent : List Send) : List Packet :=
  sent.flatMap fun send =>
    (send.receivers c own sender).map fun receiver =>
      ⟨own, receiver, send.message⟩

/-- An event at a replica, with the sender of the message at hand. -/
def Group.act (c : EvpaxosConfig) (s : Group) (id : Nat) (sender : Option Nat)
    (op : ReplicaOp) : Option (Group × ReplicaResult) :=
  (replicaStep (s.node id) op).map fun (r, result) =>
    (⟨Function.update s.node id r,
      s.wire ++ posted c id sender result.sent⟩, result)

/-- An event of the group: a message on its way arrives or gets lost, a message
of a client arrives, or a replica has an event of its own. -/
inductive GroupOp where
  | receive (env : Surroundings) (packet : Packet)
  | lose (packet : Packet)
  | client (env : Surroundings) (id : Nat) (message : PaxosMessage)
  | event (id : Nat) (op : ReplicaOp)

def groupStep (c : EvpaxosConfig) (s : Group) :
    GroupOp → Option (Group × ReplicaResult)
  | .receive env packet =>
      if packet ∈ s.wire ∧ packet.receiver < c.acceptors.length then
        { s with wire := s.wire.erase packet }.act c packet.receiver
          (some packet.sender) (.receive env packet.message)
      else
        none
  | .lose packet =>
      some ({ s with wire := s.wire.erase packet }, ⟨[], []⟩)
  | .client env id message =>
      if message.fromClient = true ∧ id < c.acceptors.length then
        s.act c id none (.receive env message)
      else
        none
  | .event id op =>
      if op.own = true ∧ id < c.acceptors.length then
        s.act c id none op
      else
        none

abbrev GroupTransition : Type :=
  Transition Group GroupOp ReplicaResult

/-- The replica that an event takes place at, and the message it handles. -/
def GroupOp.handled : GroupOp → Option (Nat × PaxosMessage)
  | .receive _ packet => some (packet.receiver, packet.message)
  | .client _ id message => some (id, message)
  | .lose _ => none
  | .event _ _ => none

/-- The replica that an event takes place at. -/
def GroupOp.place : GroupOp → Option Nat
  | .receive _ packet => some packet.receiver
  | .client _ id _ => some id
  | .event id _ => some id
  | .lose _ => none

/-- The instance ids and values that a replica has delivered, in order. -/
def deliveredAt (id : Nat) (past : List GroupTransition) :
    List (Nat × PaxosValue) :=
  past.flatMap fun current =>
    if current.input.place = some id then current.output.delivered else []

/-- Whether every proposer of the group can handle a callback without reaching
the top of its types. -/
def Group.roomy (n : Nat) (s : Group) : Bool :=
  (List.range n).all fun id =>
    (s.node id).proposer.all fun p => p.state.roomy p.preexecWindow.toNat

/-- A configuration without delegates: every group is its own parent and has
proposers, and there are not too many of them. -/
structure EvpaxosConfig.Flat (c : EvpaxosConfig) : Prop where
  root : ∀ entry ∈ c.acceptors, entry.groupid = entry.parentid ∧
    entry.parentid ≤ 0
  few : c.acceptors.length ≤ maxNOfProposers

instance (c : EvpaxosConfig) : Decidable c.Flat :=
  decidable_of_iff
    ((∀ entry ∈ c.acceptors, entry.groupid = entry.parentid ∧
        entry.parentid ≤ 0) ∧
      c.acceptors.length ≤ maxNOfProposers)
    ⟨fun both => ⟨both.1, both.2⟩, fun flat => ⟨flat.root, flat.few⟩⟩

/-- The replicas that a configuration without delegates starts with. -/
def flatGroup (c : EvpaxosConfig) (window : Int) : Group where
  node := fun id =>
    { acceptor := ⟨peersConnectToAcceptors c id, memAcceptorNew id 0⟩
      proposer :=
        some (evproposerInitInternal id c.acceptors.length window)
      learner := learnerNew true c.acceptors.length }
  wire := []

section Flat

variable {c : EvpaxosConfig} (flat : c.Flat) {id : Nat}

include flat

theorem EvpaxosConfig.Flat.acceptor
    (bound : id < c.acceptors.length) :
    (c.acceptor id).groupid = (c.acceptor id).parentid ∧
      (c.acceptor id).parentid ≤ 0 := by
  have entry : c.acceptor id = c.acceptors[id] := by
    simp [EvpaxosConfig.acceptor, bound]
  rw [entry]
  exact flat.root _ (List.getElem_mem bound)

/-- Nothing goes down from a replica that is no delegate. -/
theorem EvpaxosConfig.Flat.sendDown
    (bound : id < c.acceptors.length) (message : PaxosMessage) :
    sendDown (peersConnectToAcceptors c id) message = [] := by
  have nobody : peersForeachDownAcceptor (peersConnectToAcceptors c id) = [] :=
    if_pos (flat.acceptor bound).1
  rw [LibPaxos.sendDown, nobody, List.map_nil]

theorem EvpaxosConfig.Flat.countSubordinates
    (bound : id < c.acceptors.length) :
    countSubordinates c id = some 0 := by
  have own := (flat.acceptor bound).1
  unfold LibPaxos.countSubordinates
  simp only [own, ne_eq, not_true_eq_false, if_false]
  cases shape : c.acceptors.length with
  | zero =>
      rw [shape] at bound
      exact absurd bound (Nat.not_lt_zero id)
  | succ count =>
      rw [List.replicate_succ]
      rfl

theorem EvpaxosConfig.Flat.init
    (bound : id < c.acceptors.length) (window : Int) :
    evpaxosReplicaInit true window c id =
      some ((flatGroup c window).node id) := by
  have proposes : runsProposer (c.acceptor id) = true :=
    decide_eq_true ⟨(flat.acceptor bound).2, (flat.acceptor bound).1⟩
  simp only [evpaxosReplicaInit, evacceptorInitInternal,
    flat.countSubordinates bound, Option.map_some, if_pos proposes, flatGroup]

theorem EvpaxosConfig.Flat.initial (window : Int) :
    (flatGroup c window).Initial c window where
  node := fun _ bound => flat.init bound window
  wire := rfl

end Flat

end LibPaxos

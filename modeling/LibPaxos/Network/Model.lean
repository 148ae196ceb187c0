import LibPaxos.Acceptor.Records
import LibPaxos.Proposer.Ballots
import LibPaxos.Learner.Exactness

/-!
# A flat group of proposers, acceptors and learners

Every party runs its own functions on the messages that reach it.  Messages are
never taken out of the network, and a party may receive any message that was
sent: so messages are delayed, reordered, duplicated and lost at will.  No
process restarts, no reply is relayed, and no ballot or instance id passes the
top of its type.
-/

namespace LibPaxos

open LibPaxos.Library

/-- The parties of a group and the messages sent so far. -/
structure Network where
  proposers : Nat → Proposer
  acceptors : Nat → MemAcceptor
  learners : Nat → Learner
  sent : List PaxosMessage

/-- A group with `n` acceptors before the first call.  Learners are in catch-up
mode. -/
def networkNew (n : Nat) : Network where
  proposers := fun id => proposerNew id n
  acceptors := fun id => memAcceptorNew id 0
  learners := fun _ => learnerNew true n
  sent := []

inductive NetworkOp where
  | proposer (id : Nat) (op : ProposerOp)
  | acceptor (id : Nat) (call : MemCall)
  | learner (id : Nat) (op : LearnerOp)

inductive NetworkResult where
  | proposer (result : ProposerResult)
  | acceptor (result : AcceptorResult)
  | learner (result : Option PaxosAccepted)

def NetworkResult.sent : NetworkResult → Option PaxosMessage
  | .proposer result => result.sent
  | .acceptor result => result.sent
  | .learner _ => none

/-- The message that a call into a proposer takes from the network. -/
def ProposerOp.received : ProposerOp → Option PaxosMessage
  | .receivePromise _ ack => some (.promise ack)
  | .receiveAccepted ack => some (.accepted ack)
  | .receivePreempted _ ack => some (.preempted ack)
  | _ => none

/-- The message that a call into an acceptor takes from the network. -/
def AcceptorOp.received : AcceptorOp → Option PaxosMessage
  | .receivePrepare _ req => some (.prepare req)
  | .receiveAccept req => some (.accept req)
  | _ => none

/-- The message that a call into a learner takes from the network. -/
def LearnerOp.received (op : LearnerOp) : Option PaxosMessage :=
  op.message.map .accepted

/-- The message that a call takes from the network. -/
def NetworkOp.received : NetworkOp → Option PaxosMessage
  | .proposer _ op => op.received
  | .acceptor _ call => call.2.received
  | .learner _ op => op.received

/-- Whether a call does not relay a reply. -/
def AcceptorOp.flat : AcceptorOp → Bool
  | .relayPromise _ => false
  | .relayAccepted _ => false
  | .relayPreempted _ => false
  | _ => true

namespace Network

variable (n : Nat) (net : Network)

/-- Whether the party exists and the call stays inside the types. -/
def allows : NetworkOp → Bool
  | .proposer id op =>
      decide (id < maxNOfProposers) && (net.proposers id).fits op
  | .acceptor id call => decide (id < n) && call.2.flat
  | .learner id op => (net.learners id).fits op

/-- Whether the message that a call takes was sent. -/
def offers (op : NetworkOp) : Bool :=
  op.received.all fun message => decide (message ∈ net.sent)

/-- A call into a proposer, whose message goes to the network. -/
def setProposer (id : Nat) (p : Proposer) (message : Option PaxosMessage) :
    Network :=
  { net with
    proposers := Function.update net.proposers id p
    sent := net.sent ++ message.toList }

/-- A call into an acceptor, whose reply goes to the network. -/
def setAcceptor (id : Nat) (a : MemAcceptor) (message : Option PaxosMessage) :
    Network :=
  { net with
    acceptors := Function.update net.acceptors id a
    sent := net.sent ++ message.toList }

def setLearner (id : Nat) (l : Learner) : Network :=
  { net with learners := Function.update net.learners id l }

end Network

/-- One call into one of the parties. -/
def networkStep (n : Nat) (net : Network) (op : NetworkOp) :
    Option (Network × NetworkResult) :=
  if net.allows n op && net.offers op then
    match op with
    | .proposer id op =>
        (proposerStep (net.proposers id) op).map fun (p, result) =>
          (net.setProposer id p result.sent, .proposer result)
    | .acceptor id call =>
        (memAcceptorStep (net.acceptors id) call).map fun (a, result) =>
          (net.setAcceptor id a result.sent, .acceptor result)
    | .learner id op =>
        (learnerStep (net.learners id) op).map fun (l, result) =>
          (net.setLearner id l, .learner result)
  else
    none

abbrev NetworkTransition : Type :=
  Transition Network NetworkOp NetworkResult

/-- What a step of a group can be. -/
inductive NetworkOutcome (n : Nat) (net : Network) :
    NetworkOp → Network → NetworkResult → Prop
  | proposer (id : Nat) (op : ProposerOp) (p : Proposer)
      (result : ProposerResult) :
      id < maxNOfProposers → (net.proposers id).fits op = true →
      (∀ message, op.received = some message → message ∈ net.sent) →
      proposerStep (net.proposers id) op = some (p, result) →
      NetworkOutcome n net (.proposer id op)
        (net.setProposer id p result.sent) (.proposer result)
  | acceptor (id : Nat) (call : MemCall) (a : MemAcceptor)
      (result : AcceptorResult) :
      id < n → call.2.flat = true →
      (∀ message, call.2.received = some message → message ∈ net.sent) →
      memAcceptorStep (net.acceptors id) call = some (a, result) →
      NetworkOutcome n net (.acceptor id call)
        (net.setAcceptor id a result.sent) (.acceptor result)
  | learner (id : Nat) (op : LearnerOp) (l : Learner)
      (result : Option PaxosAccepted) :
      (net.learners id).fits op = true →
      (∀ message, op.received = some message → message ∈ net.sent) →
      learnerStep (net.learners id) op = some (l, result) →
      NetworkOutcome n net (.learner id op)
        (net.setLearner id l) (.learner result)

section Step

variable {n : Nat} {net after : Network} {op : NetworkOp}
variable {result : NetworkResult}

theorem networkStep_outcome
    (stepEq : networkStep n net op = some (after, result)) :
    NetworkOutcome n net op after result := by
  unfold networkStep at stepEq
  split at stepEq
  · next enabled =>
      rw [Bool.and_eq_true, Network.offers, Option.all_eq_true] at enabled
      obtain ⟨allowed, offered⟩ := enabled
      simp only [decide_eq_true_eq] at offered
      cases op with
      | proposer id op =>
          rw [Option.map_eq_some_iff] at stepEq
          obtain ⟨⟨p, out⟩, ran, equal⟩ := stepEq
          cases equal
          rw [Network.allows, Bool.and_eq_true, decide_eq_true_eq] at allowed
          exact .proposer id op p out allowed.1 allowed.2 offered ran
      | acceptor id call =>
          rw [Option.map_eq_some_iff] at stepEq
          obtain ⟨⟨a, out⟩, ran, equal⟩ := stepEq
          cases equal
          rw [Network.allows, Bool.and_eq_true, decide_eq_true_eq] at allowed
          exact .acceptor id call a out allowed.1 allowed.2 offered ran
      | learner id op =>
          rw [Option.map_eq_some_iff] at stepEq
          obtain ⟨⟨l, out⟩, ran, equal⟩ := stepEq
          cases equal
          exact .learner id op l out allowed offered ran
  · cases stepEq

/-- The party exists and the call stays inside the types. -/
theorem NetworkOutcome.allowed
    (outcome : NetworkOutcome n net op after result) :
    net.allows n op = true := by
  cases outcome with
  | proposer id op p result small fits _ _ => simp [Network.allows, small, fits]
  | acceptor id call a result bound flat _ _ =>
      simp [Network.allows, bound, flat]
  | learner id op l result fits _ _ => exact fits

/-- A call receives what was sent before. -/
theorem NetworkOutcome.offered
    (outcome : NetworkOutcome n net op after result)
    {message : PaxosMessage} (received : op.received = some message) :
    message ∈ net.sent := by
  cases outcome with
  | proposer id op p result _ _ offered _ => exact offered message received
  | acceptor id call a result _ _ offered _ => exact offered message received
  | learner id op l result _ offered _ => exact offered message received

/-- The messages after a step. -/
theorem NetworkOutcome.sent_eq
    (outcome : NetworkOutcome n net op after result) :
    after.sent = net.sent ++ result.sent.toList := by
  cases outcome with
  | proposer id op p out _ _ _ _ => rfl
  | acceptor id call a out _ _ _ _ => rfl
  | learner id op l out _ _ _ =>
      rw [NetworkResult.sent, Option.toList_none, List.append_nil]
      rfl

theorem NetworkOutcome.sent_mono
    (outcome : NetworkOutcome n net op after result)
    {message : PaxosMessage} (member : message ∈ net.sent) :
    message ∈ after.sent := by
  rw [outcome.sent_eq]
  exact List.mem_append_left _ member

/-- A message after a step was there before or was sent by it. -/
theorem NetworkOutcome.mem_sent
    (outcome : NetworkOutcome n net op after result)
    {message : PaxosMessage} (member : message ∈ after.sent) :
    message ∈ net.sent ∨ result.sent = some message := by
  rw [outcome.sent_eq, List.mem_append, Option.mem_toList] at member
  exact member

end Step

def proposerPart (id : Nat) (current : NetworkTransition) :
    Option ProposerTransition :=
  match current.input, current.output with
  | .proposer other op, .proposer result =>
      if other = id then
        some ⟨current.source.proposers id, op, result,
          current.target.proposers id⟩
      else
        none
  | _, _ => none

def acceptorPart (id : Nat) (current : NetworkTransition) :
    Option AcceptorTransition :=
  match current.input, current.output with
  | .acceptor other call, .acceptor result =>
      if other = id then
        some ⟨current.source.acceptors id, call, result,
          current.target.acceptors id⟩
      else
        none
  | _, _ => none

def learnerPart (id : Nat) (current : NetworkTransition) :
    Option LearnerTransition :=
  match current.input, current.output with
  | .learner other op, .learner result =>
      if other = id then
        some ⟨current.source.learners id, op, result,
          current.target.learners id⟩
      else
        none
  | _, _ => none

section Run

variable {n : Nat} {past : List NetworkTransition} {final : Network}

/-- Every proposer takes part in a run of the group with a run of its own that
stays inside its types. -/
theorem proposer_component
    (trace : Trace (networkStep n) (networkNew n) past final) (id : Nat) :
    Trace (guarded proposerStep Fitting) (proposerNew id n)
      (past.filterMap (proposerPart id)) (final.proposers id) := by
  refine trace.component (fun net : Network => net.proposers id) ?_
  rintro ⟨source, input, output, target⟩ stepEq
  have outcome : NetworkOutcome n source input target output :=
    networkStep_outcome stepEq
  cases outcome with
  | proposer other op p result _ fits _ ran =>
      by_cases same : other = id
      · subst same
        refine Or.inr ⟨op, result, ?_, ?_⟩
        · simp only [proposerPart, if_pos]
        · simp only [Network.setProposer, Function.update_self]
          exact guarded_eq_some_iff.mpr ⟨fits, ran⟩
      · refine Or.inl ⟨?_, ?_⟩
        · simp only [proposerPart, if_neg same]
        · exact Function.update_of_ne (Ne.symm same) _ _
  | acceptor other call a result _ _ _ _ => exact Or.inl ⟨rfl, rfl⟩
  | learner other op l result _ _ _ => exact Or.inl ⟨rfl, rfl⟩

/-- Every acceptor takes part with a run of its own. -/
theorem acceptor_component
    (trace : Trace (networkStep n) (networkNew n) past final) (id : Nat) :
    Trace memAcceptorStep (memAcceptorNew id 0)
      (past.filterMap (acceptorPart id)) (final.acceptors id) := by
  refine trace.component (fun net : Network => net.acceptors id) ?_
  rintro ⟨source, input, output, target⟩ stepEq
  have outcome : NetworkOutcome n source input target output :=
    networkStep_outcome stepEq
  cases outcome with
  | acceptor other call a result _ _ _ ran =>
      by_cases same : other = id
      · subst same
        refine Or.inr ⟨call, result, ?_, ?_⟩
        · simp only [acceptorPart, if_pos]
        · simp only [Network.setAcceptor, Function.update_self]
          exact ran
      · refine Or.inl ⟨?_, ?_⟩
        · simp only [acceptorPart, if_neg same]
        · exact Function.update_of_ne (Ne.symm same) _ _
  | proposer other op p result _ _ _ _ => exact Or.inl ⟨rfl, rfl⟩
  | learner other op l result _ _ _ => exact Or.inl ⟨rfl, rfl⟩

/-- Every learner takes part with a run of its own. -/
theorem learner_component
    (trace : Trace (networkStep n) (networkNew n) past final) (id : Nat) :
    Trace learnerStep (learnerNew true n)
      (past.filterMap (learnerPart id)) (final.learners id) := by
  refine trace.component (fun net : Network => net.learners id) ?_
  rintro ⟨source, input, output, target⟩ stepEq
  have outcome : NetworkOutcome n source input target output :=
    networkStep_outcome stepEq
  cases outcome with
  | learner other op l result _ _ ran =>
      by_cases same : other = id
      · subst same
        refine Or.inr ⟨op, result, ?_, ?_⟩
        · simp only [learnerPart, if_pos]
        · simp only [Network.setLearner, Function.update_self]
          exact ran
      · refine Or.inl ⟨?_, ?_⟩
        · simp only [learnerPart, if_neg same]
        · exact Function.update_of_ne (Ne.symm same) _ _
  | proposer other op p result _ _ _ _ => exact Or.inl ⟨rfl, rfl⟩
  | acceptor other call a result _ _ _ _ => exact Or.inl ⟨rfl, rfl⟩

end Run

/-- The acknowledgement of acceptor 0 in `soloRound`. -/
def soloAck (id : Nat) (value : PaxosValue) : PaxosAccepted :=
  paxosAcceptToAccepted 0 ⟨id, 1, maxNOfProposers + id, value⟩

/-- The calls by which a proposer takes a value through both phases of the first
instance with acceptor 0 alone, up to the delivery by a learner. -/
def soloRound (id : Nat) (value : PaxosValue) (learner : Nat) :
    List NetworkOp :=
  let ballot := maxNOfProposers + id
  [.proposer id (.propose value), .proposer id (.prepare 0),
    .acceptor 0 (Memory.zero, .receivePrepare id ⟨id, 1, ballot⟩),
    .proposer id (.receivePromise (fun _ => 0)
      ⟨id, 1, ballot, ballot, 1, [0], PaxosValue.empty, [PaxosValue.empty],
        [ballot], [ballot]⟩),
    .proposer id .accept,
    .acceptor 0 (Memory.zero, .receiveAccept ⟨id, 1, ballot, value⟩),
    .learner learner (.receiveAccepted (soloAck id value)),
    .learner learner .deliverNext]

/-- The acknowledgement of an acceptor in `majorityRound`. -/
def majorityAck (aid id : Nat) (value : PaxosValue) : PaxosAccepted :=
  paxosAcceptToAccepted aid ⟨id, 1, maxNOfProposers + id, value⟩

/-- The calls by which a proposer takes a value through both phases of the first
instance with acceptors 0 and 1, up to the delivery by a learner. -/
def majorityRound (id : Nat) (value : PaxosValue) (learner : Nat) :
    List NetworkOp :=
  let ballot := maxNOfProposers + id
  let promise (aid : Nat) : PaxosPromise :=
    ⟨id, 1, ballot, ballot, 1, [aid], PaxosValue.empty, [PaxosValue.empty],
      [ballot], [ballot]⟩
  [.proposer id (.propose value), .proposer id (.prepare 0),
    .acceptor 0 (Memory.zero, .receivePrepare id ⟨id, 1, ballot⟩),
    .acceptor 1 (Memory.zero, .receivePrepare id ⟨id, 1, ballot⟩),
    .proposer id (.receivePromise (fun _ => 0) (promise 0)),
    .proposer id (.receivePromise (fun _ => 0) (promise 1)),
    .proposer id .accept,
    .acceptor 0 (Memory.zero, .receiveAccept ⟨id, 1, ballot, value⟩),
    .acceptor 1 (Memory.zero, .receiveAccept ⟨id, 1, ballot, value⟩),
    .learner learner (.receiveAccepted (majorityAck 0 id value)),
    .learner learner (.receiveAccepted (majorityAck 1 id value)),
    .learner learner .deliverNext]

end LibPaxos

import LibPaxos.Evpaxos.Evacceptor
import LibPaxos.Evpaxos.Evlearner
import LibPaxos.Evpaxos.Evproposer
import LibPaxos.Evpaxos.Evreplica

/-!
# A replica

`evpaxos_replica_init` builds an acceptor, a proposer and a learner over the same
peers.  They subscribe to the types of messages in this order, so a message that
arrives goes to the callback of the acceptor first, then to that of the proposer
and then to that of the learner.  Only the replicas of a group that is its own
parent have a proposer.  What the learner delivers moves the proposer of the
replica on to the next instance.
-/

namespace LibPaxos

open LibPaxos.Library

/-- `struct evpaxos_replica`, with the null pointer where there is no
proposer. -/
structure Replica where
  acceptor : EvAcceptor
  proposer : Option EvProposer
  learner : Learner

/-- What a callback finds around it: memory past the end of an array, the clock
at the entries of a promise and at the instances that are opened, and how many
turns the loop of deliveries may take. -/
structure Surroundings where
  mem : Memory
  clock : Nat → Int
  now : Nat → Int
  turns : Nat

/-- The test of `evpaxos_replica_init` for a proposer. -/
def runsProposer (own : Address) : Bool :=
  decide (own.parentid ≤ 0 ∧ own.groupid = own.parentid)

/-- `evpaxos_replica_init`, where listening succeeds. -/
def evpaxosReplicaInit (learnerCatchUp : Bool) (preexecWindow : Int)
    (c : EvpaxosConfig) (id : Nat) : Option Replica :=
  (evacceptorInitInternal id c).map fun acceptor =>
    { acceptor := acceptor
      proposer :=
        if runsProposer (c.acceptor id) then
          some (evproposerInitInternal id c.acceptors.length preexecWindow)
        else
          none
      learner := learnerNew learnerCatchUp c.acceptors.length }

/-- `peers_foreach_acceptor` with each of the messages. -/
def sendAcceptors (p : Peers) (messages : List PaxosMessage) : List Send :=
  messages.flatMap fun message =>
    p.peers.map fun id => ⟨.acceptor id, message⟩

/-- `dispatch_message` to the callbacks that the proposer subscribes. -/
def evproposerReceive (env : Surroundings) (p : EvProposer) :
    PaxosMessage → Option (List PaxosMessage × EvProposer)
  | .promise pro => evproposerHandlePromise env.clock env.now p pro
  | .accepted acc => evproposerHandleAccepted env.now p acc
  | .preempted preempted =>
      evproposerHandlePreempted (env.clock 0) env.now p preempted
  | .clientValue v => evproposerHandleClientValue env.now p v
  | .acceptorState state => some ([], evproposerHandleAcceptorState p state)
  | _ => some ([], p)

namespace Replica

/-- The proposer's part of `dispatch_message`. -/
def proposerReceive (env : Surroundings) (r : Replica)
    (message : PaxosMessage) : Option (List PaxosMessage × Replica) :=
  match r.proposer with
  | none => some ([], r)
  | some p =>
      (evproposerReceive env p message).map fun (sent, p) =>
        (sent, { r with proposer := some p })

/-- `evpaxos_replica_deliver`, without the function of the application. -/
def deliver (r : Replica) (iid : Nat) : Replica :=
  { r with proposer := r.proposer.map fun p => evproposerSetInstanceId p iid }

/-- `evlearner_deliver_next_closed`, for a number of turns of its loop: the
instance ids and values that the application gets. -/
def deliverNextClosed :
    Nat → Replica → Option (List (Nat × PaxosValue) × Replica)
  | 0, _ => none
  | turns + 1, r =>
      match learnerDeliverNext r.learner with
      | none => none
      | some (none, l) => some ([], { r with learner := l })
      | some (some record, l) =>
          match record.values.bind (·[0]?) with
          | none => none
          | some value =>
              (deliverNextClosed turns
                ({ r with learner := l }.deliver record.iid)).map
                  fun (later, r) => ((record.iid, value) :: later, r)

/-- The loop of the learner alone, with `evpaxos_replica_deliver` as its delivery
function: the calls for the delivered instances may as well be made afterwards,
since none of them touches the learner. -/
theorem deliverNextClosed_eq (turns : Nat) :
    ∀ r : Replica, r.deliverNextClosed turns =
      (evlearnerDeliverNextClosed turns r.learner).map
        fun (delivered, l) =>
          (delivered, delivered.foldl (fun r entry => r.deliver entry.1)
            { r with learner := l }) := by
  induction turns with
  | zero =>
      intro r
      rfl
  | succ turns inductionHypothesis =>
      intro r
      rw [deliverNextClosed, evlearnerDeliverNextClosed]
      cases learnerDeliverNext r.learner with
      | none => rfl
      | some result =>
          obtain ⟨found, l⟩ := result
          cases found with
          | none => rfl
          | some record =>
              simp only
              cases record.values.bind (·[0]?) with
              | none => rfl
              | some value =>
                  simp only [inductionHypothesis, Option.map_map]
                  rfl

/-- `evlearner_handle_accepted`, the only callback that the learner
subscribes. -/
def learnerReceive (env : Surroundings) (r : Replica) :
    PaxosMessage → Option (List (Nat × PaxosValue) × Replica)
  | .accepted acc =>
      match learnerReceiveAccepted r.learner acc with
      | none => none
      | some l => deliverNextClosed env.turns { r with learner := l }
  | _ => some ([], r)

end Replica

/-- What a replica does on an event: the messages that it sends and what it
delivers. -/
structure ReplicaResult where
  sent : List Send
  delivered : List (Nat × PaxosValue)

def Replica.dispatchMessage (env : Surroundings) (r : Replica)
    (message : PaxosMessage) : Option (Replica × ReplicaResult) :=
  (evacceptorReceive env.mem r.acceptor message).bind fun (acceptor, sent) =>
    ({ r with acceptor := acceptor }.proposerReceive env message).bind
      fun (messages, r) =>
        (r.learnerReceive env message).map fun (delivered, r) =>
          (r, ⟨sent ++ sendAcceptors r.acceptor.peers messages, delivered⟩)

/-- An event at a replica: a message that arrives, the first pre-execution, a
call of the application, or a new bucket order of the tables of the proposer. -/
inductive ReplicaOp where
  | receive (env : Surroundings) (message : PaxosMessage)
  | preexecOnce (now : Nat → Int)
  | submit (status : Nat → Int) (value : List UInt8)
  | sendTrim (iid : Nat)
  | setInstanceId (iid : Nat)
  | rehash (prepareInstances acceptInstances : Table Nat ProposerInstance)

/-- The proposer handles an event of its own. -/
def Replica.proposerEvent (r : Replica) (op : EvProposerOp) :
    Option (Replica × ReplicaResult) :=
  match r.proposer with
  | none => none
  | some p =>
      (evproposerStep p op).map fun (p, messages) =>
        ({ r with proposer := some p },
          ⟨sendAcceptors r.acceptor.peers messages, []⟩)

/-- One event; the two timers that are left only return, and there is no
pre-execution without a proposer. -/
def replicaStep (r : Replica) : ReplicaOp → Option (Replica × ReplicaResult)
  | .receive env message => r.dispatchMessage env message
  | .preexecOnce now => r.proposerEvent (.preexecOnce now)
  | .submit status value =>
      (evpaxosReplicaSubmit r.acceptor.peers status value).map fun sent =>
        (r, ⟨sent.map fun (id, message) => ⟨.acceptor id, message⟩, []⟩)
  | .sendTrim iid =>
      some (r, ⟨sendAcceptors r.acceptor.peers [.trim ⟨iid⟩], []⟩)
  | .setInstanceId iid =>
      some ({ r with learner := learnerSetInstanceId r.learner iid }.deliver iid,
        ⟨[], []⟩)
  | .rehash prepareInstances acceptInstances =>
      r.proposerEvent (.rehash prepareInstances acceptInstances)

end LibPaxos

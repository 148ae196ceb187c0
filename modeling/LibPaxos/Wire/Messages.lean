import LibPaxos.Evpaxos.Evacceptor
import LibPaxos.Wire.Stream

/-!
# The messages of the parties on the wire

The parties exchange messages whose arrays are lists.  Here these are read off
the messages in memory, and compared with what is left of them after they have
been sent and received: of an accepted the source and the fields for a single
acceptor are lost, and of the other messages nothing.  An acceptor does not look
at what is lost.
-/

namespace LibPaxos

open LibPaxos.Library

def RawValue.toPaxosValue (v : RawValue) : PaxosValue :=
  ⟨v.val.getD []⟩

def RawReply.toPromise (v : RawReply) : PaxosPromise where
  src := v.src
  iid := v.iid
  ballot0 := v.ballot0
  valueBallot0 := v.valueBallot0
  nAids := v.nAids
  aids := v.aids.getD []
  value0 := v.value0.toPaxosValue
  values := (v.values.getD []).map RawValue.toPaxosValue
  ballots := v.ballots.getD []
  valueBallots := v.valueBallots.getD []

def RawReply.toAccepted (v : RawReply) : PaxosAccepted where
  src := v.src
  iid := v.iid
  ballot0 := v.ballot0
  valueBallot0 := v.valueBallot0
  nAids := v.nAids
  aids := v.aids.getD []
  value0 := v.value0.toPaxosValue
  values := v.values.map (List.map RawValue.toPaxosValue)
  ballots := v.ballots.getD []
  valueBallots := v.valueBallots.getD []

def RawMessage.toPaxosMessage : RawMessage → PaxosMessage
  | .prepare v => .prepare v
  | .promise v => .promise v.toPromise
  | .accept v => .accept ⟨v.src, v.iid, v.ballot, v.value.toPaxosValue⟩
  | .accepted v => .accepted v.toAccepted
  | .preempted v => .preempted v
  | .repeat v => .repeat v
  | .trim v => .trim v
  | .acceptorState v => .acceptorState v
  | .clientValue v => .clientValue ⟨v.toPaxosValue⟩

/-- What the wire leaves of an accepted. -/
def PaxosAccepted.wired (ack : PaxosAccepted) : PaxosAccepted :=
  { ack with
    src := 2 ^ 32 - 1
    ballot0 := 0
    valueBallot0 := 0
    value0 := PaxosValue.empty
    values := if ack.nAids = 0 then none else ack.values }

/-- What the wire leaves of a message. -/
def PaxosMessage.wired : PaxosMessage → PaxosMessage
  | .accepted ack => .accepted ack.wired
  | message => message

/-! ### What arrives -/

theorem toPaxosValue_received {v : RawValue} (ok : v.WellFormed) :
    v.received.toPaxosValue = v.toPaxosValue := by
  unfold RawValue.received
  split
  · next isEmpty =>
      cases isVal : v.val with
      | none => simp [RawValue.toPaxosValue, RawValue.zeroed, isVal]
      | some bytes =>
          have length := ok.buffer bytes isVal
          rw [isEmpty] at length
          have isNil : bytes = [] := by
            rw [← List.length_eq_zero_iff]
            omega
          simp [RawValue.toPaxosValue, RawValue.zeroed, isVal, isNil]
  · rfl

theorem map_toPaxosValue_received {entries : List RawValue}
    (ok : ∀ entry ∈ entries, entry.WellFormed) :
    (entries.map RawValue.received).map RawValue.toPaxosValue =
      entries.map RawValue.toPaxosValue := by
  rw [List.map_map]
  apply List.map_congr_left
  intro entry member
  exact toPaxosValue_received (ok entry member)

theorem toPromise_received {v : RawReply} (ok : v.WellFormed) :
    v.receivedPromise.toPromise = v.toPromise := by
  have value0 := toPaxosValue_received ok.value0
  have values : ∀ entry ∈ v.values.getD [], entry.WellFormed := by
    cases isValues : v.values with
    | none => exact List.forall_mem_nil _
    | some entries => exact (ok.values entries isValues).2
  simp only [RawReply.toPromise, RawReply.receivedPromise, Option.getD_some,
    value0, map_toPaxosValue_received values]

theorem toAccepted_received {v : RawReply} (ok : v.WellFormed)
    (aligned : (RawMessage.accepted v).Aligned) :
    v.receivedAccepted.toAccepted = v.toAccepted.wired := by
  have same := sameArrays_receivedAccepted ok aligned
  have values : v.receivedAccepted.values.map (List.map RawValue.toPaxosValue) =
      if v.nAids = 0 then none
      else v.values.map (List.map RawValue.toPaxosValue) := by
    rcases Nat.eq_zero_or_pos v.nAids with empty | positive
    · simp [RawReply.receivedAccepted, isPresent, empty]
    · rw [if_neg (Nat.ne_of_gt positive)]
      cases isValues : v.values with
      | none => simp [RawReply.receivedAccepted, isPresent, isValues]
      | some entries =>
          have mapped :=
            map_toPaxosValue_received (ok.values entries isValues).2
          simp [RawReply.receivedAccepted, isPresent, isValues, positive,
            ← mapped]
  simp only [RawReply.toAccepted, PaxosAccepted.wired, same.aids, same.ballots,
    same.valueBallots, values]
  rfl

/-- What arrives of a message is what the wire leaves of it. -/
theorem toPaxosMessage_received {m : RawMessage} (ok : m.WellFormed)
    (aligned : m.Aligned) :
    m.received.toPaxosMessage = m.toPaxosMessage.wired := by
  cases m with
  | promise v => exact congrArg PaxosMessage.promise (toPromise_received ok)
  | accepted v =>
      exact congrArg PaxosMessage.accepted (toAccepted_received ok aligned)
  | accept v =>
      simp only [RawMessage.received, RawMessage.toPaxosMessage,
        PaxosMessage.wired, toPaxosValue_received ok.2.2.2]
  | clientValue v =>
      simp only [RawMessage.received, RawMessage.toPaxosMessage,
        PaxosMessage.wired, toPaxosValue_received ok]
  | prepare _ => rfl
  | preempted _ => rfl
  | «repeat» _ => rfl
  | trim _ => rfl
  | acceptorState _ => rfl

/-- The messages dispatched from a connection, however its bytes are cut, are
what the wire leaves of the messages sent. -/
theorem dispatched_wired {codec : Msgpack} (lawful : codec.Lawful) {κ : Type}
    (subs : List (Subscription κ)) {messages : List RawMessage}
    (sendable : ∀ m ∈ messages, m.Sendable)
    (aligned : ∀ m ∈ messages, m.Aligned) {chunks : List (List UInt8)}
    (cut : chunks.flatten = (messages.map (RawMessage.bytes codec)).flatten) :
    ∃ dispatched, readChunks codec subs [] chunks = some (dispatched, []) ∧
      dispatched.map (fun call => call.1.toPaxosMessage) =
        messages.map fun m => m.toPaxosMessage.wired := by
  refine ⟨_, readChunks_messages lawful subs sendable cut, ?_⟩
  rw [List.map_map]
  apply List.map_congr_left
  intro m member
  exact toPaxosMessage_received (sendable m member).wellFormed
    (aligned m member)

/-! ### What an acceptor reads -/

/-- A message sent by a callback, as it arrives. -/
def Send.wired (send : Send) : Send :=
  { send with message := send.message.wired }

theorem wired_wired (message : PaxosMessage) :
    message.wired.wired = message.wired := by
  cases message with
  | accepted ack =>
      simp only [PaxosMessage.wired, PaxosAccepted.wired]
      split
      · rfl
      · rfl
  | _ => rfl

theorem sendToSource_wired (p : Peers) (srcid : Int) (message : PaxosMessage) :
    (sendToSource p srcid message.wired).map Send.wired =
      (sendToSource p srcid message).map Send.wired := by
  unfold sendToSource
  split
  · split
    · rfl
    · simp only [List.map_cons, List.map_nil, Send.wired, wired_wired]
  · rfl

/-- An acceptor does the same with what the wire leaves of a message as with the
message, and what it sends arrives the same. -/
theorem evacceptorReceive_wired (mem : Memory) (a : EvAcceptor)
    (message : PaxosMessage) :
    (evacceptorReceive mem a message.wired).map
        (fun out => (out.1, out.2.map Send.wired)) =
      (evacceptorReceive mem a message).map
        fun out => (out.1, out.2.map Send.wired) := by
  cases message with
  | accepted ack =>
      have sent := sendToSource_wired a.peers
        (getSrcidAccepted (memStorageApi mem) ack a.state).1 (.accepted ack)
      simp only [evacceptorReceive, PaxosMessage.wired, Option.map_some,
        Option.some.injEq]
      exact congrArg (Prod.mk _) sent
  | _ => rfl

end LibPaxos

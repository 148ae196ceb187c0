import LibPaxos.Library.Stream
import LibPaxos.Wire.RoundTrip

/-!
# Messages in a stream of bytes

The functions of `message.c` and `peers.c` that write messages to a connection
and read them back.  The bytes of a connection arrive in chunks; after each one
`on_read` receives messages from the input buffer until there is none, and hands
each of them to the callbacks subscribed to its type.

The packer and the unpacker of msgpack are a parameter.  The functions have no
result where packing or unpacking a message has none.
-/

namespace LibPaxos

open LibPaxos.Library

section Connection

variable (codec : Msgpack)

/-- `send_paxos_message`: the bytes written to the connection. -/
def sendPaxosMessage (m : RawMessage) : Option (List UInt8) :=
  (packPaxosMessage m).map fun packed => codec.pack packed.count packed.items

/-- The bytes of messages that are sent one after the other. -/
def sendPaxosMessages (messages : List RawMessage) : Option (List UInt8) :=
  (messages.mapM (sendPaxosMessage codec)).map List.flatten

/-- `recv_paxos_message`: the message, if there is one, and the input buffer after
the call.  The loops that only walk over the buffer are left out. -/
def recvPaxosMessage (input : List UInt8) :
    Option (Option RawMessage × List UInt8) :=
  if input.length = 0 then
    some (none, input)
  else
    let next := codec.unpackNext input
    if 0 < next.rc then
      (unpackPaxosMessage next.data).map fun out =>
        (some out, input.drop next.offset)
    else if next.rc = 0 then
      some (none, input)
    else
      some (none, input.drop (2 * 1024 * 1024))

structure Subscription (κ : Type) where
  type : Nat
  callback : κ

variable {κ : Type} (subs : List (Subscription κ))

/-- `dispatch_message`: a message and the callbacks that are called with it. -/
def dispatchMessage (m : RawMessage) : RawMessage × List κ :=
  (m, (subs.filter fun sub => sub.type = m.type).map Subscription.callback)

/-- `on_read`: what is dispatched, and the input buffer after the call.  The loop
ends once a call of `recv_paxos_message` gives no message; when it has gone on
for longer than there are bytes, a call took nothing off the buffer and the loop
does not end. -/
def onRead (input : List UInt8) :
    Option (List (RawMessage × List κ) × List UInt8) :=
  (drain (recvPaxosMessage codec) (input.length + 1) input).map
    fun (received, rest) => (received.map (dispatchMessage subs), rest)

def readChunks :
    List UInt8 → List (List UInt8) →
      Option (List (RawMessage × List κ) × List UInt8)
  | input, [] => some ([], input)
  | input, chunk :: chunks => do
      let (dispatched, rest) ← onRead codec subs (input ++ chunk)
      let (others, last) ← readChunks rest chunks
      some (dispatched ++ others, last)

end Connection

/-- A message that can be sent: well formed, with all the arrays of a promise,
and with no more elements than the index of the unpacking functions counts. -/
structure RawMessage.Sendable (m : RawMessage) : Prop where
  wellFormed : m.WellFormed
  complete : m.Complete
  small : m.elements ≤ intMax

/-! ### The elements of a message can be packed -/

theorem packable_paxosValue {v : RawValue} (ok : v.WellFormed) :
    (packPaxosValue v).Packable := by
  obtain ⟨len, val⟩ := v
  have range := ok.range
  cases val with
  | none => exact Nat.two_pow_pos 32
  | some bytes =>
      have length := ok.buffer bytes rfl
      simp only at length range
      simp only [packPaxosValue, MsgpackItem.Packable, List.length_take]
      omega

theorem packable_array {α : Type} {P : α → Prop} {n : Nat}
    {entries : List α} {pack : α → MsgpackItem}
    (filled : ArrayOf P n (some entries))
    (packable : ∀ entry, P entry → (pack entry).Packable) :
    ∀ item ∈ entries.map pack, item.Packable := by
  intro item member
  obtain ⟨entry, isEntry, rfl⟩ := List.mem_map.mp member
  exact packable entry ((filled entries rfl).2 entry isEntry)

theorem packable_section {α : Type} {P : α → Prop} {n : Nat}
    {entries : List α} {pack : α → MsgpackItem} (flag : Bool)
    (filled : flag = true → ArrayOf P n (some entries))
    (packable : ∀ entry, P entry → (pack entry).Packable) :
    ∀ item ∈ sectionOf flag (entries.map pack), item.Packable := by
  cases flag with
  | false =>
      intro item member
      exact absurd member List.not_mem_nil
  | true => exact packable_array (filled rfl) packable

theorem packable_uint (value : Nat) (range : value < 2 ^ 32) :
    (MsgpackItem.uint value).Packable :=
  range

theorem packable_promiseItems {v : RawReply} (ok : v.WellFormed)
    (complete : (RawMessage.promise v).Complete) :
    ∀ item ∈ v.promiseItems, item.Packable := by
  have bound := ok.nAids
  have filled := ok.filled complete
  have aids := packable_array filled.aids packable_uint
  have values := packable_array filled.values fun _ => packable_paxosValue
  have ballots := packable_array filled.ballots packable_uint
  have valueBallots := packable_array filled.valueBallots packable_uint
  have type : 1 < 2 ^ 32 := by decide
  have size : v.nAids < 2 ^ 32 := by omega
  have fields : ∀ item ∈ [MsgpackItem.uint 1, .uint v.src, .uint v.iid,
      .uint v.ballot0, .uint v.valueBallot0, .uint v.nAids,
      packPaxosValue v.value0], item.Packable := by
    simp only [List.forall_mem_cons]
    exact ⟨type, ok.src, ok.iid, ok.ballot0, ok.valueBallot0, size,
      packable_paxosValue ok.value0, List.forall_mem_nil _⟩
  simp only [RawReply.promiseItems, List.forall_mem_append]
  exact ⟨fields, aids, values, ballots, valueBallots⟩

theorem packable_acceptedItems {v : RawReply} (ok : v.WellFormed) :
    ∀ item ∈ v.acceptedItems, item.Packable := by
  have bound := ok.nAids
  have aids := packable_section (isPresent v.aids v.nAids)
    ok.aids.of_present packable_uint
  have values := packable_section (isPresent v.values v.nAids)
    ok.values.of_present (fun _ => packable_paxosValue)
  have ballots := packable_section (isPresent v.aids v.nAids)
    (fun _ => ok.ballots.ballotsOrZero) packable_uint
  have valueBallots := packable_section (isPresent v.aids v.nAids)
    (fun _ => ok.valueBallots.ballotsOrZero) packable_uint
  have flagRange : ∀ flag : Bool, (if flag then 1 else 0) < 2 ^ 32 := by
    decide
  have type : 3 < 2 ^ 32 := by decide
  have zero : 0 < 2 ^ 32 := by decide
  have size : v.nAids < 2 ^ 32 := by omega
  have fields : ∀ item ∈ [MsgpackItem.uint 3, .uint 0, .uint v.iid,
      .uint v.nAids, .uint (if isPresent v.aids v.nAids then 1 else 0),
      .uint (if isPresent v.values v.nAids then 1 else 0)],
      item.Packable := by
    simp only [List.forall_mem_cons]
    exact ⟨type, zero, ok.iid, size, flagRange _, flagRange _,
      List.forall_mem_nil _⟩
  simp only [RawReply.acceptedItems, List.forall_mem_append]
  exact ⟨fields, aids, values, ballots, valueBallots⟩

theorem packable_items {m : RawMessage} (ok : m.WellFormed)
    (complete : m.Complete) : ∀ item ∈ m.items, item.Packable := by
  have type : ∀ n, n < 9 → n < 2 ^ 32 := by
    intro n small
    omega
  cases m with
  | promise v => exact packable_promiseItems ok complete
  | accepted v => exact packable_acceptedItems ok
  | prepare v =>
      simp only [RawMessage.items, List.forall_mem_cons]
      exact ⟨type 0 (by decide), ok.1, ok.2.1, ok.2.2, List.forall_mem_nil _⟩
  | accept v =>
      simp only [RawMessage.items, List.forall_mem_cons]
      exact ⟨type 2 (by decide), ok.1, ok.2.1, ok.2.2.1,
        packable_paxosValue ok.2.2.2, List.forall_mem_nil _⟩
  | preempted v =>
      simp only [RawMessage.items, List.forall_mem_cons]
      exact ⟨type 4 (by decide), ok.1, ok.2.1, ok.2.2, List.forall_mem_nil _⟩
  | «repeat» v =>
      simp only [RawMessage.items, List.forall_mem_cons]
      exact ⟨type 5 (by decide), ok.1, ok.2, List.forall_mem_nil _⟩
  | trim v =>
      simp only [RawMessage.items, List.forall_mem_cons]
      exact ⟨type 6 (by decide), ok, List.forall_mem_nil _⟩
  | acceptorState v =>
      simp only [RawMessage.items, List.forall_mem_cons]
      exact ⟨type 7 (by decide), ok.1, ok.2, List.forall_mem_nil _⟩
  | clientValue v =>
      simp only [RawMessage.items, List.forall_mem_cons]
      exact ⟨type 8 (by decide), packable_paxosValue ok, List.forall_mem_nil _⟩

theorem RawMessage.Sendable.packableArray {m : RawMessage}
    (sendable : m.Sendable) : PackableArray m.items := by
  refine ⟨?_, packable_items sendable.wellFormed sendable.complete⟩
  have small := sendable.small
  rw [length_items sendable.wellFormed sendable.complete]
  simp only [intMax] at small
  omega

/-! ### Receiving -/

section Receiving

variable {codec : Msgpack}

/-- The bytes of a message that can be sent. -/
def RawMessage.bytes (codec : Msgpack) (m : RawMessage) : List UInt8 :=
  codec.pack m.items.length m.items

theorem sendPaxosMessage_eq {m : RawMessage} (sendable : m.Sendable) :
    sendPaxosMessage codec m = some (m.bytes codec) := by
  rw [sendPaxosMessage,
    packPaxosMessage_eq sendable.wellFormed sendable.complete,
    ← length_items sendable.wellFormed sendable.complete]
  rfl

theorem sendPaxosMessages_eq {messages : List RawMessage}
    (sendable : ∀ m ∈ messages, m.Sendable) :
    sendPaxosMessages codec messages =
      some (messages.map (RawMessage.bytes codec)).flatten := by
  have sent : messages.mapM (sendPaxosMessage codec) =
      some (messages.map (RawMessage.bytes codec)) := by
    induction messages with
    | nil => rfl
    | cons m messages inductionHypothesis =>
        have first : sendPaxosMessage codec m = some (m.bytes codec) :=
          sendPaxosMessage_eq (sendable m (List.mem_cons_self ..))
        have others := inductionHypothesis
          (fun other member => sendable other (List.mem_cons_of_mem _ member))
        rw [List.mapM_cons, first, others]
        rfl
  rw [sendPaxosMessages, sent]
  rfl

/-- The bytes of a message are received as what arrives of it, and only when all
of them are there. -/
theorem receives_message (lawful : codec.Lawful) {m : RawMessage}
    (sendable : m.Sendable) :
    Receives (recvPaxosMessage codec) (m.bytes codec) m.received where
  nonempty := lawful.pack_ne_nil sendable.packableArray
  whole rest := by
    obtain ⟨positive, isData, isOffset⟩ :=
      lawful.whole m.items rest sendable.packableArray
    have nonempty : (m.bytes codec ++ rest).length ≠ 0 := by
      intro isEmpty
      rw [List.length_eq_zero_iff, List.append_eq_nil_iff] at isEmpty
      exact lawful.pack_ne_nil sendable.packableArray isEmpty.1
    have unpacked :=
      unpack_items sendable.wellFormed sendable.complete sendable.small
    rw [recvPaxosMessage, if_neg nonempty]
    simp only [RawMessage.bytes, positive, isData, isOffset, if_true, unpacked,
      Option.map_some, List.drop_left]
  part front isPart proper := by
    have waits := lawful.part m.items front sendable.packableArray isPart proper
    unfold recvPaxosMessage
    split
    · rfl
    · simp only [waits, lt_irrefl, if_false, if_true]

theorem receives_messages (lawful : codec.Lawful) {messages : List RawMessage}
    (sendable : ∀ m ∈ messages, m.Sendable) :
    List.Forall₂ (Receives (recvPaxosMessage codec))
      (messages.map (RawMessage.bytes codec))
      (messages.map RawMessage.received) := by
  rw [List.forall₂_map_left_iff, List.forall₂_map_right_iff, List.forall₂_same]
  intro m member
  exact receives_message lawful (sendable m member)

/-- The calls of `on_read` dispatch what the loop over the chunks receives. -/
theorem readChunks_eq {κ : Type} (subs : List (Subscription κ))
    (chunks : List (List UInt8)) :
    ∀ input, readChunks codec subs input chunks =
      (drainChunks (recvPaxosMessage codec) input chunks).map
        fun (received, rest) => (received.map (dispatchMessage subs), rest) := by
  induction chunks with
  | nil =>
      intro input
      rfl
  | cons chunk chunks inductionHypothesis =>
      intro input
      simp only [readChunks, onRead, drainChunks, inductionHypothesis,
        Option.bind_eq_bind]
      cases drain (recvPaxosMessage codec) ((input ++ chunk).length + 1)
          (input ++ chunk) with
      | none => rfl
      | some first =>
          obtain ⟨received, rest⟩ := first
          simp only [Option.map_some, Option.bind_some]
          cases drainChunks (recvPaxosMessage codec) rest chunks with
          | none => rfl
          | some others =>
              simp only [Option.map_some, Option.bind_some, List.map_append]

/-- The calls of `on_read` on the chunks of messages that can be sent. -/
theorem readChunks_messages (lawful : codec.Lawful) {κ : Type}
    (subs : List (Subscription κ)) {messages : List RawMessage}
    (sendable : ∀ m ∈ messages, m.Sendable) {chunks : List (List UInt8)}
    (cut : chunks.flatten = (messages.map (RawMessage.bytes codec)).flatten) :
    readChunks codec subs [] chunks =
      some (messages.map fun m => dispatchMessage subs m.received, []) := by
  have all := receives_messages lawful sendable
  have received := drainChunks_eq rfl chunks all (pending_nil all) cut
  rw [readChunks_eq, received, Option.map_some]
  simp only [List.map_map]
  rfl

/-- However the bytes of messages are cut into chunks, the calls of `on_read`
dispatch exactly what arrives of each message, in order, and leave the input
buffer empty. -/
theorem stream_reassembly (lawful : codec.Lawful) {κ : Type}
    (subs : List (Subscription κ)) {messages : List RawMessage}
    (sendable : ∀ m ∈ messages, m.Sendable) :
    ∃ stream, sendPaxosMessages codec messages = some stream ∧
      ∀ chunks : List (List UInt8), chunks.flatten = stream →
        readChunks codec subs [] chunks =
          some (messages.map fun m => dispatchMessage subs m.received, []) := by
  refine ⟨_, sendPaxosMessages_eq sendable, ?_⟩
  intro chunks cut
  exact readChunks_messages lawful subs sendable cut

end Receiving

theorem stream_reassembly_for_two :
    (RawMessage.promise .forTwo).Sendable ∧
      (RawMessage.accepted .forTwo).Sendable ∧
      ∃ stream,
        sendPaxosMessages .flat [.promise .forTwo, .accepted .forTwo] =
            some stream ∧
          ∀ chunks : List (List UInt8), chunks.flatten = stream →
            readChunks .flat [(⟨1, 0⟩ : Subscription Nat), ⟨3, 1⟩] [] chunks =
              some ([.promise .forTwo, .accepted .forTwo].map fun m =>
                dispatchMessage [⟨1, 0⟩, ⟨3, 1⟩] (RawMessage.received m), []) := by
  have ok : RawReply.forTwo.WellFormed := by decide
  have promise : (RawMessage.promise .forTwo).Sendable :=
    ⟨ok, fun _ => ⟨rfl, rfl, rfl, rfl⟩, by decide⟩
  have accepted : (RawMessage.accepted .forTwo).Sendable :=
    ⟨ok, trivial, by decide⟩
  refine ⟨promise, accepted, stream_reassembly Msgpack.flat_lawful _ ?_⟩
  simp only [List.forall_mem_cons]
  exact ⟨promise, accepted, List.forall_mem_nil _⟩

end LibPaxos

import LibPaxos.Evpaxos.Relay

/-!
# Requests and replies in a hierarchy of acceptors

The acceptors of all replicas of a configuration, and the messages on their way
between them.  A proposer sends its requests to its peers, with its own id as
source.  A delegate forwards a request down to its subordinates, and later sends the
replies that come up to the source it has stored.  The lemmas say what one
acceptor, and one step of the hierarchy, can put on the wire.
-/

namespace LibPaxos

open LibPaxos.Library

/-- A message on its way from one replica to another. -/
structure Packet where
  sender : Nat
  receiver : Nat
  message : PaxosMessage
  deriving DecidableEq, Repr

/-- The acceptors of all replicas, and the messages on their way. -/
structure Hierarchy where
  node : Nat → EvAcceptor
  wire : List Packet

/-- The replicas of a configuration before the first message.  Nothing below
depends on the numbers of subordinates that they have counted. -/
def hierarchyNew (c : EvpaxosConfig) (subordinates : Nat → Nat) :
    Hierarchy where
  node := fun id =>
    ⟨peersConnectToAcceptors c id, memAcceptorNew id (subordinates id)⟩
  wire := []

/-- What a prepare and an accept have in common. -/
structure Request where
  src : Nat
  iid : Nat
  ballot : Nat
  deriving DecidableEq, Repr

def PaxosMessage.request : PaxosMessage → Option Request
  | .prepare message => some ⟨message.src, message.iid, message.ballot⟩
  | .accept message => some ⟨message.src, message.iid, message.ballot⟩
  | _ => none

def PaxosMessage.withSrc (src : Nat) : PaxosMessage → PaxosMessage
  | .prepare message => .prepare { message with src := src }
  | .accept message => .accept { message with src := src }
  | message => message

def MemAcceptor.grantsRequest (a : MemAcceptor) (req : Request) : Bool :=
  decide (a.trimIid < req.iid) &&
    (a.store.records req.iid).all fun record =>
      decide (record.ballot ≤ req.ballot)

/-- An event of the hierarchy: a proposer sends a request to one of its peers, a
replica handles a message on its way, or a replica handles a reply, a trim or a
repeat that came from anywhere. -/
inductive HierarchyOp where
  | issue (packet : Packet)
  | deliver (mem : Memory) (packet : Packet)
  | inject (mem : Memory) (id : Nat) (message : PaxosMessage)

/-- The messages that a callback sends to other acceptors. -/
def forwarded (sender : Nat) (sent : List Send) : List Packet :=
  sent.filterMap fun send =>
    match send.target with
    | .acceptor id => some ⟨sender, id, send.message⟩
    | .clients => none
    | .sender => none

def Hierarchy.handle (s : Hierarchy) (id : Nat) (call : EvCall) :
    Option (Hierarchy × List Send) :=
  (evacceptorStep (s.node id) call).map fun result =>
    (⟨Function.update s.node id result.1, s.wire ++ forwarded id result.2⟩,
      result.2)

def hierarchyStep (c : EvpaxosConfig) (s : Hierarchy) :
    HierarchyOp → Option (Hierarchy × List Send)
  | .issue packet =>
      if packet.sender < c.acceptors.length ∧
          packet.receiver ∈ (peersConnectToAcceptors c packet.sender).peers ∧
          packet.message.request.map Request.src = some packet.sender then
        some ({ s with wire := s.wire ++ [packet] }, [])
      else
        none
  | .deliver mem packet =>
      if packet ∈ s.wire ∧ packet.receiver < c.acceptors.length then
        s.handle packet.receiver (mem, packet.message)
      else
        none
  | .inject mem id message =>
      if message.request = none ∧ id < c.acceptors.length then
        s.handle id (mem, message)
      else
        none

abbrev HierarchyTransition : Type :=
  Transition Hierarchy HierarchyOp (List Send)

/-- The replica that a granted request for an instance came from. -/
def grantedSender (id iid : Nat) (current : HierarchyTransition) :
    Option Nat :=
  match current.input with
  | .issue _ => none
  | .deliver _ packet =>
      match packet.message.request with
      | none => none
      | some req =>
          if packet.receiver = id ∧ req.iid = iid ∧
              (current.source.node id).state.grantsRequest req = true then
            some packet.sender
          else
            none
  | .inject _ _ _ => none

/-- The replica that the last granted request for an instance came from. -/
def lastSender (id iid : Nat) (past : List HierarchyTransition) :
    Option Nat :=
  (past.filterMap (grantedSender id iid)).getLast?

/-- The path of a request from the proposer down to the sender of a packet, the
sender first. -/
inductive Route (past : List HierarchyTransition) : Packet → List Nat → Prop
  | issued {current : HierarchyTransition} {packet : Packet} :
      current ∈ past → current.input = .issue packet →
      Route past packet [packet.sender]
  | forwarded {current : HierarchyTransition} {mem : Memory}
      {upper packet : Packet} {path : List Nat} :
      current ∈ past → current.input = .deliver mem upper →
      upper.receiver = packet.sender →
      packet.message = upper.message.withSrc packet.sender →
      Route past upper path → Route past packet (packet.sender :: path)

def PaxosMessage.upIid : PaxosMessage → Option Nat
  | .promise message => some message.iid
  | .accepted message => some message.iid
  | .preempted message => some message.iid
  | _ => none

def HierarchyOp.handled : HierarchyOp → Option (Memory × Nat × PaxosMessage)
  | .issue _ => none
  | .deliver mem packet => some (mem, packet.receiver, packet.message)
  | .inject mem id message => some (mem, id, message)

/-- How many acceptor ids the loop over a reply counts: none when the record of
its instance lists all ids of the reply, and otherwise all that it lists then.
-/
def countedAids (record : PaxosAccepted) (reply : PaxosMessage) : Nat :=
  if ∀ entry ∈ reply.replyEntries, entry.1 ∈ record.aids then
    0
  else
    (grownAids reply.replyEntries record.aids).length

/-- A promise or an accepted is held back while fewer ids are counted than half
the number of subordinates.  A preempted never is. -/
def HeldBack (a : EvAcceptor) (record : PaxosAccepted) (reply : PaxosMessage) :
    Prop :=
  reply.replyIid.isSome ∧
    countedAids record reply < a.state.subordinates / 2

instance (a : EvAcceptor) (record : PaxosAccepted) (reply : PaxosMessage) :
    Decidable (HeldBack a record reply) :=
  inferInstanceAs (Decidable (_ ∧ _))

/-- What the routing of replies needs of an event, after the events before it.
-/
structure Routed (before : List HierarchyTransition)
    (current : HierarchyTransition) : Prop where
  /-- The copies of a request that go down have the own id as source. -/
  copies : ∀ mem packet, current.input = .deliver mem packet →
    ∀ id message req, ⟨.acceptor id, message⟩ ∈ current.output →
      message.request = some req → req.src = packet.receiver
  /-- A request comes from the replica it names as source, and its path leads
  back to the proposer. -/
  came : ∀ mem packet req, current.input = .deliver mem packet →
    packet.message.request = some req →
    req.src = packet.sender ∧
      ∃ path, Route before packet (packet.sender :: path)
  /-- The record of a granted request has the source that the request came
  with. -/
  stored : ∀ mem packet req, current.input = .deliver mem packet →
    packet.message.request = some req →
    (current.source.node packet.receiver).state.grantsRequest req = true →
    ∃ record,
      (current.target.node packet.receiver).state.store.records req.iid =
        some record ∧
      record.src = req.src
  /-- A reply for an instance without a record has no source id and goes
  nowhere. -/
  unknown : ∀ mem id reply iid, current.input.handled = some (mem, id, reply) →
    reply.upIid = some iid →
    (current.source.node id).state.store.records iid = none →
    relayedSrcid mem (current.source.node id) reply = -1 ∧ current.output = []
  /-- The source id of any other reply is that of the replica that the last
  granted request for its instance came from, and the reply is sent to that
  replica and nowhere else, unless it is held back. -/
  returned : ∀ mem id reply iid record,
    current.input.handled = some (mem, id, reply) → reply.upIid = some iid →
    (current.source.node id).state.store.records iid = some record →
    ∃ sender, lastSender id iid before = some sender ∧
      if HeldBack (current.source.node id) record reply then
        relayedSrcid mem (current.source.node id) reply = -1 ∧
          current.output = []
      else
        relayedSrcid mem (current.source.node id) reply = sender ∧
          current.output = [⟨.acceptor sender, reply⟩]

/-- An accept that a delegate forwards has the id of the delegate as source
when it comes. -/
def HierarchyOp.KeepsSource (c : EvpaxosConfig) (op : HierarchyOp) : Prop :=
  ∀ mem packet accept, op = .deliver mem packet →
    packet.message = .accept accept →
    accept.src = packet.receiver ∨
      peersForeachDownAcceptor
        (peersConnectToAcceptors c packet.receiver) = []

section Node

variable {a after : EvAcceptor} {mem : Memory} {message : PaxosMessage}
variable {sent : List Send}

theorem grantsRequest_iff {a : MemAcceptor} {req : Request} :
    a.grantsRequest req = true ↔
      a.trimIid < req.iid ∧ a.Grants req.iid req.ballot := by
  simp only [MemAcceptor.grantsRequest, Bool.and_eq_true, decide_eq_true_eq,
    Option.all_eq_true, MemAcceptor.Grants]

/-- A granted request puts a record with its source in place of the old one;
any other request changes nothing. -/
theorem evacceptorStep_request
    (inv : a.state.Inv) {req : Request} (small : req.src < 2 ^ 32)
    (isRequest : message.request = some req)
    (stepEq : evacceptorStep a (mem, message) = some (after, sent)) :
    if a.state.grantsRequest req = true then
      ∃ record, after.state = a.state.setRecord record ∧
        record.iid = req.iid ∧ record.src = req.src
    else
      after.state = a.state := by
  cases message with
  | prepare prepare =>
      cases isRequest
      cases stepEq
      split
      · next granted =>
          obtain ⟨above, grants⟩ := grantsRequest_iff.mp granted
          refine ⟨_, congrArg Prod.snd (receivePrepare_granted inv mem _ above
            grants), rfl, ?_⟩
          simp only [preparedRecord]
          exact uint32OfInt_intOfUint32 small
      · next refused =>
          rw [grantsRequest_iff] at refused
          by_cases above : a.state.trimIid < prepare.iid
          · rcases grants_or_refused a.state prepare.iid prepare.ballot with
              grants | ⟨record, present, smaller⟩
            · exact False.elim (refused ⟨above, grants⟩)
            · exact congrArg Prod.snd (receivePrepare_refused inv mem _ above
                present smaller)
          · exact congrArg Prod.snd (receivePrepare_trimmed mem _
              (Nat.le_of_not_lt above))
  | accept accept =>
      cases isRequest
      cases stepEq
      split
      · next granted =>
          obtain ⟨above, grants⟩ := grantsRequest_iff.mp granted
          exact ⟨_, congrArg Prod.snd (receiveAccept_granted inv mem above
            grants), rfl, rfl⟩
      · next refused =>
          rw [grantsRequest_iff] at refused
          by_cases above : a.state.trimIid < accept.iid
          · rcases grants_or_refused a.state accept.iid accept.ballot with
              grants | ⟨record, present, smaller⟩
            · exact False.elim (refused ⟨above, grants⟩)
            · exact congrArg Prod.snd (receiveAccept_refused inv mem above
                present smaller)
          · exact congrArg Prod.snd (receiveAccept_trimmed mem
              (Nat.le_of_not_lt above))
  | _ => cases isRequest

theorem request_of_requested
    {op : AcceptorOp} {iid : Nat} (isOp : message.acceptorOp = some op)
    (requested : op.requested = some iid) : message.request ≠ none := by
  intro notRequest
  cases message with
  | prepare prepare => cases notRequest
  | accept accept => cases notRequest
  | «repeat» msg => cases isOp
  | acceptorState state => cases isOp
  | clientValue value => cases isOp
  | _ =>
      cases isOp
      cases requested

/-- Any other message keeps the source of every record. -/
theorem evacceptorStep_src
    (inv : a.state.Inv) (notRequest : message.request = none)
    (stepEq : evacceptorStep a (mem, message) = some (after, sent))
    {key : Nat} {new : PaxosAccepted}
    (present : after.state.store.records key = some new) :
    ∃ old, a.state.store.records key = some old ∧ new.src = old.src := by
  have stateEq := (evacceptorStep_state inv stepEq).2
  cases isOp : message.acceptorOp with
  | none =>
      rw [isOp, Option.elim_none] at stateEq
      rw [stateEq] at present
      exact ⟨new, present, rfl⟩
  | some op =>
      rw [isOp, Option.elim_some] at stateEq
      have change := (acceptorStep_outcome inv mem op).record inv key
      rw [← stateEq, present] at change
      generalize shape : some new = record at change
      cases change with
      | kept => exact ⟨new, shape.symm, rfl⟩
      | prepared isrc req isPrepare _ _ _ =>
          subst isPrepare
          exact absurd notRequest (request_of_requested isOp rfl)
      | accepted req isAccept _ _ _ =>
          subst isAccept
          exact absurd notRequest (request_of_requested isOp rfl)
      | relayed old _ _ stored sameHead =>
          cases shape
          exact ⟨old, stored, sameHead.src_eq⟩
      | trimmed _ => cases shape

/-- The copy of a message that goes to other acceptors. -/
def PaxosMessage.downCopy (own : Nat) : PaxosMessage → PaxosMessage
  | .prepare message => .prepare { message with src := own }
  | message => message

theorem mem_sendDown {p : Peers} {msg copy : PaxosMessage} {id : Nat} :
    ⟨.acceptor id, copy⟩ ∈ sendDown p msg ↔
      id ∈ peersForeachDownAcceptor p ∧ copy = msg := by
  simp only [sendDown, List.mem_map, Send.mk.injEq, Target.acceptor.injEq]
  constructor
  · intro found
    obtain ⟨other, member, sameId, same⟩ := found
    exact ⟨sameId ▸ member, same.symm⟩
  · intro found
    exact ⟨id, found.1, rfl, found.2.symm⟩

theorem mem_sendToSource {p : Peers} {srcid : Int} {msg copy : PaxosMessage}
    {id : Nat} (member : ⟨.acceptor id, copy⟩ ∈ sendToSource p srcid msg) :
    copy = msg := by
  unfold sendToSource at member
  split at member
  · split at member
    · simp at member
    · simp only [List.mem_singleton, Send.mk.injEq] at member
      exact member.2
  · simp at member

theorem repeatInstances_target
    (iids : List Nat) (state : MemAcceptor) {send : Send}
    (member : send ∈ (repeatInstances mem iids state).2) :
    send.target = .sender := by
  induction iids generalizing state with
  | nil => simp [repeatInstances] at member
  | cons iid rest inductionHypothesis =>
      simp only [repeatInstances, List.mem_append, Option.mem_toList,
        Option.map_eq_some_iff] at member
      rcases member with ⟨accepted, _, rfl⟩ | later
      · rfl
      · exact inductionHypothesis _ later

theorem acceptReply_target {reply : PaxosMessage} {send : Send} {id : Nat}
    (member : send ∈ acceptReply reply) : send.target ≠ .acceptor id := by
  cases reply with
  | accepted accepted =>
      simp only [acceptReply, List.mem_singleton] at member
      simp [member]
  | preempted preempted =>
      simp only [acceptReply, List.mem_singleton] at member
      simp [member]
  | _ => simp [acceptReply] at member

/-- A request goes to the peers of the loop over the subordinates, and to no
other acceptor. -/
theorem evacceptorStep_down
    {id : Nat} {copy : PaxosMessage} {req : Request}
    (isRequest : message.request = some req)
    (stepEq : evacceptorStep a (mem, message) = some (after, sent)) :
    ⟨.acceptor id, copy⟩ ∈ sent ↔
      id ∈ peersForeachDownAcceptor a.peers ∧
        copy = message.downCopy a.state.id := by
  cases message with
  | prepare prepare =>
      cases stepEq
      rw [List.mem_append, mem_sendDown]
      apply or_iff_left
      simp
  | accept accept =>
      have sentEq : sendDown a.peers (.accept accept) ++
          (acceptorReceiveAccept (memStorageApi mem) a.state accept).1.elim []
            acceptReply = sent :=
        congrArg Prod.snd (Option.some.inj stepEq)
      rw [← sentEq, List.mem_append, mem_sendDown]
      apply or_iff_left
      generalize (acceptorReceiveAccept (memStorageApi mem) a.state accept).1 =
        reply
      cases reply with
      | none => simp
      | some reply => exact fun member => acceptReply_target member rfl
  | _ => cases isRequest

/-- Any other message goes to other acceptors as it is. -/
theorem evacceptorStep_passes
    {id : Nat} {copy : PaxosMessage} (notRequest : message.request = none)
    (stepEq : evacceptorStep a (mem, message) = some (after, sent))
    (member : ⟨.acceptor id, copy⟩ ∈ sent) :
    copy = message := by
  cases message with
  | prepare prepare => cases notRequest
  | accept accept => cases notRequest
  | «repeat» msg =>
      simp only [evacceptorStep, evacceptorReceive, evacceptorHandleRepeat]
        at stepEq
      split at stepEq
      · cases stepEq
      · cases stepEq
        have target := repeatInstances_target _ _ member
        cases target
  | trim trim =>
      cases stepEq
      exact (mem_sendDown.mp member).2
  | promise promise =>
      cases stepEq
      exact mem_sendToSource member
  | accepted accepted =>
      cases stepEq
      exact mem_sendToSource member
  | preempted preempted =>
      cases stepEq
      exact mem_sendToSource member
  | _ =>
      cases stepEq
      simp at member

theorem relayedSrcid_preempted
    (inv : a.state.Inv) (mem : Memory) (preempted : PaxosPreempted) :
    relayedSrcid mem a (.preempted preempted) =
      (a.state.store.records preempted.iid).elim (-1) fun record =>
        intOfUint32 record.src := by
  have found : (memStorageApi mem).getRecord a.state.store preempted.iid =
      a.state.store.records preempted.iid := inv.get_eq mem preempted.iid
  have began : (memStorageApi mem).txBegin a.state.store =
      (0, a.state.store) := rfl
  have committed : (memStorageApi mem).txCommit a.state.store =
      (0, a.state.store) := rfl
  cases present : a.state.store.records preempted.iid with
  | none =>
      rw [Option.elim_none]
      simp only [relayedSrcid, getSrcidPreempted, began, committed, found,
        ne_eq, not_true_eq_false, if_false, present]
  | some record =>
      rw [Option.elim_some]
      simp only [relayedSrcid, getSrcidPreempted, began, committed, found,
        ne_eq, not_true_eq_false, if_false, present]

theorem relayedSrcid_counted
    (inv : a.state.Inv) (mem : Memory) {iid : Nat}
    (isCounted : message.replyIid = some iid) :
    relayedSrcid mem a message =
      (a.state.store.records iid).elim (-1) fun record =>
        if HeldBack a record message then -1 else intOfUint32 record.src := by
  rw [relayedSrcid_eq mem isCounted, getSrcid_srcid inv]
  cases present : a.state.store.records iid with
  | none => rw [Option.elim_none, Option.elim_none]
  | some record =>
      have growing := (inv.record iid record present).1.growing
      have counted := adjustRecord_counted (memStorageApi mem)
        message.replyEntries a.state.store record 0 growing
      rw [Option.elim_some, Option.elim_some, counted, ← ite_not]
      apply if_congr _ rfl rfl
      simp only [HeldBack, countedAids, isCounted, Option.isSome_some,
        true_and, Nat.not_le]

/-- The source id of a reply: that of the record of its instance, unless the
reply is held back. -/
theorem relayedSrcid_up
    (inv : a.state.Inv) (mem : Memory) {iid : Nat}
    (isReply : message.upIid = some iid) :
    relayedSrcid mem a message =
      (a.state.store.records iid).elim (-1) fun record =>
        if HeldBack a record message then -1 else intOfUint32 record.src := by
  cases message with
  | promise promise => exact relayedSrcid_counted inv mem isReply
  | accepted accepted => exact relayedSrcid_counted inv mem isReply
  | preempted preempted =>
      cases isReply
      rw [relayedSrcid_preempted inv mem]
      cases a.state.store.records preempted.iid with
      | none => rw [Option.elim_none, Option.elim_none]
      | some record =>
          rw [Option.elim_some, Option.elim_some, if_neg]
          exact fun held => Bool.false_ne_true held.1
  | _ => cases isReply

/-- The callback of a reply sends it to its source id. -/
theorem evacceptorStep_up
    {iid : Nat} (isReply : message.upIid = some iid)
    (stepEq : evacceptorStep a (mem, message) = some (after, sent)) :
    sent = sendToSource a.peers (relayedSrcid mem a message) message := by
  cases message with
  | promise promise =>
      cases stepEq
      rfl
  | accepted accepted =>
      cases stepEq
      rfl
  | preempted preempted =>
      cases stepEq
      rfl
  | _ => cases isReply

theorem sendToSource_none (p : Peers) (message : PaxosMessage) :
    sendToSource p (-1) message = [] :=
  rfl

theorem sendToSource_peer {p : Peers} {id : Nat} (member : id ∈ p.peers)
    (message : PaxosMessage) :
    sendToSource p id message = [⟨.acceptor id, message⟩] := by
  have found : peersGetAcceptor p id = some id := by
    unfold peersGetAcceptor
    cases search : p.peers.find? fun peer : Nat =>
        decide ((peer : Int) = (id : Int)) with
    | none =>
        have absent := List.find?_eq_none.mp search id member
        simp at absent
    | some peer =>
        have same := List.find?_some search
        rw [decide_eq_true_eq] at same
        rw [Int.ofNat_inj.mp same]
  have positive : (0 : Int) ≤ id := Int.natCast_nonneg id
  simp only [sendToSource, if_pos positive, found]

end Node

section Step

variable {c : EvpaxosConfig} {s target : Hierarchy} {op : HierarchyOp}
variable {sent : List Send}

/-- What an event does: a proposer puts a request on the wire, or a replica
handles a message from the wire or one that is not a request. -/
theorem hierarchyStep_cases
    (stepEq : hierarchyStep c s op = some (target, sent)) :
    (∃ packet, op = .issue packet ∧
      packet.sender < c.acceptors.length ∧
      packet.receiver ∈ (peersConnectToAcceptors c packet.sender).peers ∧
      packet.message.request.map Request.src = some packet.sender ∧
      target = { s with wire := s.wire ++ [packet] }) ∨
    ∃ mem id message after,
      op.handled = some (mem, id, message) ∧ id < c.acceptors.length ∧
      evacceptorStep (s.node id) (mem, message) = some (after, sent) ∧
      target = ⟨Function.update s.node id after,
        s.wire ++ forwarded id sent⟩ ∧
      ((∃ packet ∈ s.wire, op = .deliver mem packet) ∨
        message.request = none) := by
  cases op with
  | issue packet =>
      simp only [hierarchyStep] at stepEq
      split at stepEq
      · next allowed =>
          cases stepEq
          exact Or.inl ⟨packet, rfl, allowed.1, allowed.2.1, allowed.2.2, rfl⟩
      · cases stepEq
  | deliver mem packet =>
      simp only [hierarchyStep, Hierarchy.handle] at stepEq
      split at stepEq
      · next allowed =>
          rw [Option.map_eq_some_iff] at stepEq
          obtain ⟨result, handled, same⟩ := stepEq
          cases same
          exact Or.inr ⟨mem, packet.receiver, packet.message, result.1, rfl,
            allowed.2, handled, rfl, Or.inl ⟨packet, allowed.1, rfl⟩⟩
      · cases stepEq
  | inject mem id message =>
      simp only [hierarchyStep, Hierarchy.handle] at stepEq
      split at stepEq
      · next allowed =>
          rw [Option.map_eq_some_iff] at stepEq
          obtain ⟨result, handled, same⟩ := stepEq
          cases same
          exact Or.inr ⟨mem, id, message, result.1, rfl, allowed.2, handled,
            rfl, Or.inr allowed.1⟩
      · cases stepEq

theorem mem_forwarded {sender : Nat} {packet : Packet} :
    packet ∈ forwarded sender sent ↔
      packet.sender = sender ∧
        ⟨.acceptor packet.receiver, packet.message⟩ ∈ sent := by
  simp only [forwarded, List.mem_filterMap]
  constructor
  · intro found
    obtain ⟨send, member, copied⟩ := found
    obtain ⟨destination, message⟩ := send
    cases destination with
    | acceptor id =>
        cases copied
        exact ⟨rfl, member⟩
    | clients => cases copied
    | sender => cases copied
  · intro found
    obtain ⟨rfl, member⟩ := found
    exact ⟨_, member, rfl⟩

theorem lastSender_append
    {id iid : Nat} (past : List HierarchyTransition)
    (current : HierarchyTransition) :
    lastSender id iid (past ++ [current]) =
      (grantedSender id iid current).or (lastSender id iid past) := by
  unfold lastSender
  rw [List.filterMap_append]
  cases granted : grantedSender id iid current with
  | none => simp [granted]
  | some sender => simp [granted]

theorem Route.append
    {past : List HierarchyTransition} {packet : Packet} {path : List Nat}
    (route : Route past packet path) (current : HierarchyTransition) :
    Route (past ++ [current]) packet path := by
  induction route with
  | issued member isIssue =>
      exact .issued (List.mem_append_left _ member) isIssue
  | forwarded member isDeliver receiver copy _ inductionHypothesis =>
      exact .forwarded (List.mem_append_left _ member) isDeliver receiver copy
        inductionHypothesis

end Step

end LibPaxos

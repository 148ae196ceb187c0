import LibPaxos.Acceptor.Records
import LibPaxos.Evpaxos.Peers

/-!
# The acceptor of a replica

The callbacks of `evacceptor.c`.  A replica runs one acceptor over memory
storage; each message that arrives from a peer goes to the callback subscribed
for its type, which calls into the acceptor and sends messages.

A delegate forwards prepares, accepts and trims down to its subordinates, and
forwards the replies that come up to the source it has stored for their
instance.  How many replies it waits for depends on the number of its
subordinates, which `evacceptor_init_internal` counts with a work list of
groups.
-/

namespace LibPaxos

open LibPaxos.Library

/-- Where a callback sends a message: to an acceptor that the replica connects
to, to every client, or back to the peer that the message came from. -/
inductive Target where
  | acceptor (id : Nat)
  | clients
  | sender
  deriving DecidableEq, Repr

structure Send where
  target : Target
  message : PaxosMessage
  deriving DecidableEq, Repr

structure EvAcceptor where
  peers : Peers
  state : MemAcceptor

/-- `peers_foreach_down_acceptor` with `peer_send_paxos_message`. -/
def sendDown (p : Peers) (msg : PaxosMessage) : List Send :=
  (peersForeachDownAcceptor p).map fun id => ⟨.acceptor id, msg⟩

/-- `send_paxos_message` to the peer with the source id that the acceptor
returned, if the replica has such a peer. -/
def sendToSource (p : Peers) (srcid : Int) (msg : PaxosMessage) : List Send :=
  if 0 ≤ srcid then
    match peersGetAcceptor p srcid with
    | none => []
    | some id => [⟨.acceptor id, msg⟩]
  else
    []

section Callbacks

variable (mem : Memory) (a : EvAcceptor)

def evacceptorFwdPromise (promise : PaxosPromise) : EvAcceptor × List Send :=
  let (srcid, state) :=
    getSrcidPromiseAndAdjust (memStorageApi mem) promise a.state
  ({ a with state := state }, sendToSource a.peers srcid (.promise promise))

def evacceptorFwdPreempted (preempted : PaxosPreempted) :
    EvAcceptor × List Send :=
  let (srcid, state) :=
    getSrcidPreempted (memStorageApi mem) preempted a.state
  ({ a with state := state },
    sendToSource a.peers srcid (.preempted preempted))

def evacceptorFwdAccepted (accepted : PaxosAccepted) :
    EvAcceptor × List Send :=
  let (srcid, state) := getSrcidAccepted (memStorageApi mem) accepted a.state
  ({ a with state := state }, sendToSource a.peers srcid (.accepted accepted))

/-- The `srcid` that the forwarding callback of a reply computes. -/
def relayedSrcid : PaxosMessage → Int
  | .promise promise =>
      (getSrcidPromiseAndAdjust (memStorageApi mem) promise a.state).1
  | .accepted accepted =>
      (getSrcidAccepted (memStorageApi mem) accepted a.state).1
  | .preempted preempted =>
      (getSrcidPreempted (memStorageApi mem) preempted a.state).1
  | _ => -1

/-- `evacceptor_handle_prepare`: the request goes down with the own id as
source, and to the own acceptor with the source it came with. -/
def evacceptorHandlePrepare (prepare : PaxosPrepare) :
    EvAcceptor × List Send :=
  let down :=
    sendDown a.peers (.prepare { prepare with src := a.state.id })
  let (out, state) :=
    acceptorReceivePrepare (memStorageApi mem) (intOfUint32 prepare.src)
      a.state prepare
  ({ a with state := state },
    down ++ (out.map fun msg => (⟨.sender, msg⟩ : Send)).toList)

/-- Where the answer to an accept goes: an accepted to every client, a
preempted to the peer that sent the request. -/
def acceptReply : PaxosMessage → List Send
  | .accepted accepted => [⟨.clients, .accepted accepted⟩]
  | .preempted preempted => [⟨.sender, .preempted preempted⟩]
  | _ => []

/-- `evacceptor_handle_accept`: the request goes down as it came.  The source is
saved and restored around the loop, and nothing changes it in between. -/
def evacceptorHandleAccept (accept : PaxosAccept) : EvAcceptor × List Send :=
  let down := sendDown a.peers (.accept accept)
  let (out, state) := acceptorReceiveAccept (memStorageApi mem) a.state accept
  ({ a with state := state }, down ++ out.elim [] acceptReply)

/-- The loop of `evacceptor_handle_repeat`. -/
def repeatInstances : List Nat → MemAcceptor → MemAcceptor × List Send
  | [], state => (state, [])
  | iid :: rest, state =>
      let (out, state) := acceptorReceiveRepeat (memStorageApi mem) state iid
      let (state, sent) := repeatInstances rest state
      (state,
        (out.map fun accepted =>
          (⟨.sender, .accepted accepted⟩ : Send)).toList ++ sent)

/-- `evacceptor_handle_repeat`.  No `iid_t` is above a last instance of
`2 ^ 32 - 1`, and the loop does not end there. -/
def evacceptorHandleRepeat (msg : PaxosRepeat) :
    Option (EvAcceptor × List Send) :=
  if msg.last = 2 ^ 32 - 1 then
    none
  else
    let (state, sent) :=
      repeatInstances mem (List.range' msg.first (msg.last + 1 - msg.first))
        a.state
    some ({ a with state := state }, sent)

def evacceptorHandleTrim (trim : PaxosTrim) : EvAcceptor × List Send :=
  let (_, state) := acceptorReceiveTrim (memStorageApi mem) a.state trim
  ({ a with state := state }, sendDown a.peers (.trim trim))

end Callbacks

/-- `dispatch_message` to the callbacks that the acceptor subscribes. -/
def evacceptorReceive (mem : Memory) (a : EvAcceptor) :
    PaxosMessage → Option (EvAcceptor × List Send)
  | .prepare prepare => some (evacceptorHandlePrepare mem a prepare)
  | .accept accept => some (evacceptorHandleAccept mem a accept)
  | .repeat msg => evacceptorHandleRepeat mem a msg
  | .trim trim => some (evacceptorHandleTrim mem a trim)
  | .promise promise => some (evacceptorFwdPromise mem a promise)
  | .accepted accepted => some (evacceptorFwdAccepted mem a accepted)
  | .preempted preempted => some (evacceptorFwdPreempted mem a preempted)
  | .acceptorState _ => some (a, [])
  | .clientValue _ => some (a, [])

/-- A message that arrives, and the memory that its callback runs in. -/
abbrev EvCall : Type :=
  Memory × PaxosMessage

def evacceptorStep (a : EvAcceptor) (call : EvCall) :
    Option (EvAcceptor × List Send) :=
  evacceptorReceive call.1 a call.2

abbrev EvTransition : Type :=
  Transition EvAcceptor EvCall (List Send)

/-- The call into the acceptor that a message leads to, apart from repeats,
which only read. -/
def PaxosMessage.acceptorOp : PaxosMessage → Option AcceptorOp
  | .prepare message =>
      some (.receivePrepare (intOfUint32 message.src) message)
  | .accept message => some (.receiveAccept message)
  | .trim message => some (.receiveTrim message)
  | .promise message => some (.relayPromise message)
  | .accepted message => some (.relayAccepted message)
  | .preempted message => some (.relayPreempted message)
  | .repeat _ => none
  | .acceptorState _ => none
  | .clientValue _ => none

theorem repeatInstances_state
    {state : MemAcceptor} (inv : state.Inv) (mem : Memory) (iids : List Nat) :
    (repeatInstances mem iids state).1 = state := by
  induction iids with
  | nil => rfl
  | cons iid rest inductionHypothesis =>
      simp only [repeatInstances, receiveRepeat_spec inv]
      exact inductionHypothesis

/-- A callback keeps the peers, and changes the acceptor by the call it makes
into it. -/
theorem evacceptorStep_state
    {a after : EvAcceptor} {call : EvCall} {sent : List Send}
    (inv : a.state.Inv)
    (stepEq : evacceptorStep a call = some (after, sent)) :
    after.peers = a.peers ∧
      after.state = call.2.acceptorOp.elim a.state fun op =>
        (acceptorStep (memStorageApi call.1) a.state op).1 := by
  obtain ⟨mem, message⟩ := call
  cases message with
  | «repeat» msg =>
      simp only [evacceptorStep, evacceptorReceive, evacceptorHandleRepeat]
        at stepEq
      split at stepEq
      · cases stepEq
      · cases stepEq
        exact ⟨rfl, repeatInstances_state inv mem _⟩
  | _ =>
      cases stepEq
      exact ⟨rfl, rfl⟩

/-- What a node keeps over a run: its acceptor is well formed, and its id, its
number of subordinates and its peers are those it started with. -/
structure EvAcceptor.Continues (start a : EvAcceptor) : Prop where
  inv : a.state.Inv
  id_eq : a.state.id = start.state.id
  subordinates_eq : a.state.subordinates = start.state.subordinates
  peers_eq : a.peers = start.peers

theorem evacceptorStep_continues
    {start a after : EvAcceptor} {call : EvCall} {sent : List Send}
    (continues : start.Continues a)
    (stepEq : evacceptorStep a call = some (after, sent)) :
    start.Continues after := by
  obtain ⟨peersEq, stateEq⟩ := evacceptorStep_state continues.inv stepEq
  cases isOp : call.2.acceptorOp with
  | none =>
      rw [isOp, Option.elim_none] at stateEq
      exact ⟨stateEq ▸ continues.inv, stateEq ▸ continues.id_eq,
        stateEq ▸ continues.subordinates_eq, peersEq ▸ continues.peers_eq⟩
  | some op =>
      rw [isOp, Option.elim_some] at stateEq
      have outcome := acceptorStep_outcome continues.inv call.1 op
      have subordinates :=
        acceptorStep_subordinates (memStorageApi call.1) a.state op
      rw [← stateEq] at outcome subordinates
      exact ⟨outcome.keeps_inv continues.inv,
        outcome.id_eq.trans continues.id_eq,
        subordinates.trans continues.subordinates_eq,
        peersEq.trans continues.peers_eq⟩

/-! ### The number of subordinates -/

/-- The scan that puts a group at the first free place of a work list, unless it
finds the group first.  A free place holds `-1`. -/
def putGroup (grp : Int) : List Int → List Int
  | [] => []
  | place :: rest =>
      if place = grp then
        place :: rest
      else if place = -1 then
        grp :: rest
      else
        place :: putGroup grp rest

/-- One acceptor of the inner loop: the count and the groups to scan after
it. -/
def scanAcceptor (own : Address) (grp : Int) (scanned : List Int)
    (progress : Nat × List Int) (entry : Address) : Nat × List Int :=
  let (ncnt, toscan) := progress
  if entry.groupid = grp ∧ entry.groupid = own.parentid then
    (ncnt + 1, toscan)
  else if entry.parentid = grp then
    if entry.groupid ∈ scanned ∨ entry.groupid ∈ toscan then
      (ncnt + 1, toscan)
    else
      (ncnt + 1, putGroup entry.groupid toscan)
  else
    (ncnt, toscan)

/-- The work-list loop of `evacceptor_init_internal`, run for at most `fuel`
groups. -/
def scanGroups (c : EvpaxosConfig) (own : Address) :
    Nat → List Int → List Int → Nat → Option Nat
  | 0, _, _, _ => none
  | _ + 1, _, [], _ => none
  | fuel + 1, scanned, grp :: rest, ncnt =>
      if grp = -1 then
        some ncnt
      else
        let scanned := putGroup grp scanned
        let (ncnt, toscan) :=
          c.acceptors.foldl (scanAcceptor own grp scanned) (ncnt, rest ++ [-1])
        scanGroups c own fuel scanned toscan ncnt

/-- The number of subordinates that `evacceptor_init_internal` computes. -/
def countSubordinates (c : EvpaxosConfig) (id : Nat) : Option Nat :=
  let own := c.acceptor id
  let scanned := List.replicate c.acceptors.length (-1)
  let toscan :=
    if own.groupid ≠ own.parentid then scanned.set 0 own.groupid else scanned
  scanGroups c own (c.acceptors.length + 1) scanned toscan 0

/-- A delegate, replica 1, over three plain members. -/
def threeMembers : EvpaxosConfig :=
  ⟨[⟨0, 0⟩, ⟨1, 0⟩, ⟨1, 1⟩, ⟨1, 1⟩, ⟨1, 1⟩]⟩

example : countSubordinates threeMembers 1 = some 3 := by
  decide

/-- `evacceptor_init_internal`, over the peers of `evpaxos_replica_init`. -/
def evacceptorInitInternal (id : Nat) (c : EvpaxosConfig) :
    Option EvAcceptor :=
  (countSubordinates c id).map fun ncnt =>
    ⟨peersConnectToAcceptors c id, memAcceptorNew id ncnt⟩

theorem evacceptorInitInternal_continues
    {id : Nat} {c : EvpaxosConfig} {start : EvAcceptor}
    (started : evacceptorInitInternal id c = some start) :
    start.Continues start := by
  simp only [evacceptorInitInternal, Option.map_eq_some_iff] at started
  obtain ⟨ncnt, _, rfl⟩ := started
  exact ⟨memAcceptorNew_inv id ncnt, rfl, rfl, rfl⟩

end LibPaxos

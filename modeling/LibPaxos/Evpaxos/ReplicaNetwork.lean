import LibPaxos.Evpaxos.Group
import LibPaxos.Network.Alike
import LibPaxos.Network.Parts

/-!
# A replica as parties of the flat network

In a configuration without delegates a replica plays one acceptor, one proposer
and one learner of the flat network.  Each event of the replica is a run of
calls of these parties, with the same messages and the same deliveries.
-/

namespace LibPaxos

open LibPaxos.Library

/-- A message on its way: one of the network, or what a replica passes on for
its application. -/
def PaxosMessage.Travels (sent : List PaxosMessage)
    (message : PaxosMessage) : Prop :=
  message ∈ sent ∨ (∃ v, message = .clientValue v) ∨
    ∃ trim, message = .trim trim

/-- The replica has the state of the parties with its id.  Its acceptor also
keeps the ids of relayed replies. -/
structure Replica.Plays (c : EvpaxosConfig) (window : Int) (id : Nat)
    (r : Replica) (net : Network) : Prop where
  peers : r.acceptor.peers = peersConnectToAcceptors c id
  acceptor : r.acceptor.state.Alike (net.acceptors id)
  proposer : r.proposer = some ⟨id, window, net.proposers id⟩
  learner : r.learner = net.learners id

/-- A call of the network that belongs to a replica which handles a message. -/
structure CallAt (id : Nat) (handled : Option PaxosMessage)
    (current : NetworkTransition) : Prop where
  proposer : ∀ other op, current.input = .proposer other op → other = id
  proposes : ∀ other value, current.input = .proposer other (.propose value) →
    handled = some (.clientValue ⟨value⟩)
  acceptor : ∀ other call, current.input = .acceptor other call →
    other = id ∧ ∃ message, handled = some message ∧
      message.acceptorOp = some call.2
  learner : ∀ other op, current.input = .learner other op → other = id
  opens : current.source.opensForValues current.input = true

/-- An event of a replica as a run of the network. -/
structure Replica.Turn (c : EvpaxosConfig) (window : Int) (id : Nat)
    (handled : Option PaxosMessage) (net : Network) (r : Replica)
    (result : ReplicaResult) (more : List NetworkTransition)
    (after : Network) : Prop where
  trace : Trace (networkStep c.acceptors.length) net more after
  calls : ∀ current ∈ more, CallAt id handled current
  plays : r.Plays c window id after
  delivers : deliveredBy id more = result.delivered
  answers : ∀ aid req, Stored more aid req →
    ⟨.clients, .accepted (paxosAcceptToAccepted aid req)⟩ ∈ result.sent
  posts : ∀ send ∈ result.sent, send.message.Travels after.sent ∨
    send.target = .sender ∧ ∃ msg, handled = some (.repeat msg)

section Calls

variable {n id : Nat} {handled : Option PaxosMessage}
variable {net after : Network} {more : List NetworkTransition}

/-- The messages of the network only grow. -/
theorem sent_subset
    (trace : Trace (networkStep n) net more after) :
    ∀ message ∈ net.sent, message ∈ after.sent := by
  induction trace with
  | nil => exact fun _ member => member
  | snoc _ stepEq inductionHypothesis =>
      intro message member
      exact (networkStep_outcome stepEq).sent_mono
        (inductionHypothesis message member)

theorem PaxosMessage.Travels.later
    {message : PaxosMessage} (travels : message.Travels net.sent)
    (trace : Trace (networkStep n) net more after) :
    message.Travels after.sent := by
  rcases travels with sent | client
  · exact Or.inl (sent_subset trace message sent)
  · exact Or.inr client

/-- The calls of one replica leave the other ones alone. -/
theorem others_unchanged
    (trace : Trace (networkStep n) net more after)
    (calls : ∀ current ∈ more, CallAt id handled current)
    {other : Nat} (different : other ≠ id) :
    after.proposers other = net.proposers other ∧
      after.acceptors other = net.acceptors other ∧
      after.learners other = net.learners other := by
  induction trace with
  | nil => exact ⟨rfl, rfl, rfl⟩
  | @snoc past source target op result _ stepEq inductionHypothesis =>
      rw [List.forall_mem_append, List.forall_mem_singleton] at calls
      obtain ⟨earlier, call⟩ := calls
      obtain ⟨proposers, acceptors, learners⟩ := inductionHypothesis earlier
      have outcome := networkStep_outcome stepEq
      cases outcome with
      | proposer owner op p out _ _ _ _ =>
          obtain rfl := call.proposer owner op rfl
          exact ⟨(Function.update_of_ne different _ _).trans proposers,
            acceptors, learners⟩
      | acceptor owner op a out _ _ _ _ =>
          obtain ⟨rfl, _⟩ := call.acceptor owner op rfl
          exact ⟨proposers,
            (Function.update_of_ne different _ _).trans acceptors, learners⟩
      | learner owner op l out _ _ _ =>
          obtain rfl := call.learner owner op rfl
          exact ⟨proposers, acceptors,
            (Function.update_of_ne different _ _).trans learners⟩

end Calls

namespace Replica.Turn

variable {c : EvpaxosConfig} {window : Int} {id : Nat}
variable {handled : Option PaxosMessage} {net middle after : Network}
variable {r next : Replica} {more later : List NetworkTransition}

/-- A replica that sends nothing new and makes no call. -/
theorem quiet
    {sent : List Send} (plays : r.Plays c window id net)
    (posts : ∀ send ∈ sent, send.message.Travels net.sent ∨
      send.target = .sender ∧ ∃ msg, handled = some (.repeat msg)) :
    Turn c window id handled net r ⟨sent, []⟩ [] net where
  trace := .nil
  calls := by
    intro current member
    cases member
  plays := plays
  delivers := rfl
  answers := by
    rintro aid req ⟨current, member, _⟩
    cases member
  posts := posts

theorem trans
    {first second : ReplicaResult}
    (left : Turn c window id handled net r first more middle)
    (right : Turn c window id handled middle next second later after) :
    Turn c window id handled net next
      ⟨first.sent ++ second.sent, first.delivered ++ second.delivered⟩
      (more ++ later) after where
  trace := left.trace.trans right.trace
  calls := List.forall_mem_append.mpr ⟨left.calls, right.calls⟩
  plays := right.plays
  delivers := by
    rw [deliveredBy_append, left.delivers, right.delivers]
  answers := by
    intro aid req stored
    rw [List.mem_append]
    rcases stored_append stored with early | late
    · exact Or.inl (left.answers aid req early)
    · exact Or.inr (right.answers aid req late)
  posts := by
    intro send member
    rcases List.mem_append.mp member with early | late
    · exact (left.posts send early).imp_left fun travels =>
        travels.later right.trace
    · exact right.posts send late

end Replica.Turn

/-! ### What the callbacks of an acceptor send -/

theorem sendToSource_message {p : Peers} {srcid : Int} {msg : PaxosMessage}
    {send : Send} (member : send ∈ sendToSource p srcid msg) :
    send.message = msg := by
  unfold sendToSource at member
  split at member
  · split at member
    · cases member
    · obtain rfl := List.mem_singleton.mp member
      rfl
  · cases member

theorem acceptReply_message {message : PaxosMessage} {send : Send}
    (member : send ∈ acceptReply message) : send.message = message := by
  cases message with
  | accepted ack =>
      obtain rfl := List.mem_singleton.mp member
      rfl
  | preempted ack =>
      obtain rfl := List.mem_singleton.mp member
      rfl
  | _ => cases member

/-- An accept that leaves its own record behind was accepted. -/
theorem Outcome.stored_reply
    {a after : MemAcceptor} {req : PaxosAccept} {reply : Option PaxosMessage}
    (outcome : Outcome a (.receiveAccept req) after reply) (inv : a.Inv)
    (stored : after.store.records req.iid =
      some (paxosAcceptToAccepted a.id req)) :
    reply = some (.accepted (paxosAcceptToAccepted a.id req)) := by
  cases outcome with
  | accepted other isAccept _ _ =>
      cases isAccept
      rfl
  | ignored low =>
      have above := (inv.record _ _ stored).2
      have trimmed := low _ rfl
      omega
  | preempted other record isAccept _ present smaller =>
      cases isAccept
      rw [stored] at present
      cases present
      exact absurd smaller (Nat.lt_irrefl _)
  | promised _ _ isPrepare _ _ => cases isPrepare
  | refused _ _ _ isPrepare _ _ _ => cases isPrepare
  | repeated _ _ isRepeat _ _ _ => cases isRepeat
  | relayed _ _ _ isRelay _ => cases isRelay
  | trimmed _ isTrim _ => cases isTrim

theorem mem_sendAcceptors {p : Peers} {messages : List PaxosMessage}
    {send : Send} (member : send ∈ sendAcceptors p messages) :
    send.message ∈ messages := by
  obtain ⟨message, isMessage, copies⟩ := List.mem_flatMap.mp member
  obtain ⟨id, _, rfl⟩ := List.mem_map.mp copies
  exact isMessage

namespace Replica.Plays

variable {c : EvpaxosConfig} {window : Int} {id : Nat}
variable {handled : Option PaxosMessage} {net : Network} {r : Replica}
variable (plays : r.Plays c window id net)

include plays

/-! ### The proposer -/

/-- A callback of the proposer; it acknowledges nothing. -/
theorem proposerTurn
    (few : id < maxNOfProposers)
    (offered : ∀ (op : ProposerOp) message, op.received = some message →
      handled = some message → message ∈ net.sent)
    {p : EvProposer} {sent : List PaxosMessage}
    (made : EvProposer.Makes handled ⟨id, window, net.proposers id⟩ sent p) :
    ∃ more after,
      Turn c window id handled net { r with proposer := some p }
        ⟨sendAcceptors r.acceptor.peers sent, []⟩ more after ∧
      ∀ ack, .accepted ack ∈ after.sent → .accepted ack ∈ net.sent := by
  obtain ⟨more, moved, parts⟩ :=
    proposer_run (n := c.acceptors.length) few (fun _ _ call => call.fits)
      (fun _ op call message taken =>
        offered op message taken (call.received message taken)) made.calls
  have isProposer : ∀ current ∈ more, ∃ op,
      current.input = .proposer id op := by
    intro current member
    obtain ⟨op, isOp, _⟩ := parts current member
    exact ⟨op, isOp⟩
  refine ⟨more, net.afterProposer id p.state sent,
    ⟨moved, ?_, ?_, ?_, ?_, ?_⟩, ?_⟩
  · intro current member
    obtain ⟨op, isOp, call⟩ := parts current member
    refine ⟨?_, ?_, ?_, ?_, ?_⟩
    · intro other otherOp same
      rw [isOp] at same
      cases same
      rfl
    · intro other value same
      rw [isOp] at same
      cases same
      exact call.proposes value rfl
    · intro other otherOp same
      rw [isOp] at same
      cases same
    · intro other otherOp same
      rw [isOp] at same
      cases same
    · rw [isOp]
      cases op with
      | prepare now =>
          simp only [Network.opensForValues, call.opens now rfl, Bool.not_false]
      | _ => rfl
  · refine ⟨plays.peers, plays.acceptor, ?_, plays.learner⟩
    have sameId : p.id = id := made.id_eq
    have sameWindow : p.preexecWindow = window := made.window_eq
    rw [Network.afterProposer_proposers, ← sameId, ← sameWindow]
  · apply deliveredBy_eq_nil
    intro current member op isLearner
    obtain ⟨own, isOp⟩ := isProposer current member
    rw [isOp] at isLearner
    cases isLearner
  · rintro aid req ⟨current, member, mem, isAcceptor, _⟩
    obtain ⟨own, isOp⟩ := isProposer current member
    rw [isOp] at isAcceptor
    cases isAcceptor
  · intro send member
    exact Or.inl (Or.inl
      (List.mem_append_right _ (mem_sendAcceptors member)))
  · intro ack member
    rcases List.mem_append.mp member with old | new
    · exact old
    · rcases emits_kind made.calls _ new with
        ⟨out, impossible⟩ | ⟨out, impossible⟩
      · cases impossible
      · cases impossible

/-! ### The acceptor -/

/-- A prepare, an accept or a trim is a call into the acceptor of the network,
with the same reply. -/
theorem requestTurn
    {message : PaxosMessage} {mem : Memory} {op : AcceptorOp}
    {a : EvAcceptor} {sent : List Send} (bound : id < c.acceptors.length)
    (sameId : (net.acceptors id).id = id)
    (isOp : message.acceptorOp = some op) (flat : op.flat = true)
    (notRepeat : ∀ iid, op ≠ .receiveRepeat iid)
    (offered : ∀ taken, op.received = some taken → taken ∈ net.sent)
    (ran : evacceptorReceive mem r.acceptor message = some (a, sent))
    (replies : ∀ send ∈ sent,
      (acceptorStep (memStorageApi mem) r.acceptor.state op).2.sent =
        some send.message)
    (answered : ∀ req ack, op = .receiveAccept req →
      (acceptorStep (memStorageApi mem) r.acceptor.state op).2.sent =
        some (.accepted ack) → ⟨.clients, .accepted ack⟩ ∈ sent) :
    ∃ more after,
      Turn c window id (some message) net { r with acceptor := a } ⟨sent, []⟩
        more after := by
  have state : a.peers = r.acceptor.peers ∧ a.state =
      (acceptorStep (memStorageApi mem) r.acceptor.state op).1 := by
    have stepped : evacceptorStep r.acceptor (mem, message) = some (a, sent) :=
      ran
    have same := evacceptorStep_state plays.acceptor.inv stepped
    simp only [isOp, Option.elim_some] at same
    exact same
  obtain ⟨sameReply, alike⟩ := plays.acceptor.step flat notRepeat mem
  have outcome := acceptorStep_outcome plays.acceptor.plainInv mem op
  rw [← state.2] at alike
  rw [sameReply] at replies answered
  have stepEq : networkStep c.acceptors.length net (.acceptor id (mem, op)) =
      some (net.setAcceptor id
        (acceptorStep (memStorageApi mem) (net.acceptors id) op).1
        (acceptorStep (memStorageApi mem) (net.acceptors id) op).2.sent,
        .acceptor (acceptorStep (memStorageApi mem) (net.acceptors id) op).2) :=
    by
    have offers : net.offers (.acceptor id (mem, op)) = true := by
      rw [Network.offers, Option.all_eq_true]
      exact fun taken received => decide_eq_true (offered taken received)
    simp only [networkStep, Network.allows, decide_eq_true bound, flat, offers,
      Bool.and_self, if_true, memAcceptorStep, Option.map_some]
  generalize acceptorStep (memStorageApi mem) (net.acceptors id) op = result
    at alike outcome replies answered stepEq
  refine ⟨_, _, Trace.nil.snoc stepEq, ?_, ?_, ?_, ?_, ?_⟩
  · intro current member
    obtain rfl := List.mem_singleton.mp member
    refine ⟨?_, ?_, ?_, ?_, rfl⟩
    · intro other otherOp same
      cases same
    · intro other value same
      cases same
    · intro other call same
      cases same
      exact ⟨rfl, message, rfl, isOp⟩
    · intro other otherOp same
      cases same
  · refine ⟨state.1.trans plays.peers, ?_, plays.proposer, plays.learner⟩
    simp only [Network.setAcceptor, Function.update_self]
    exact alike
  · apply deliveredBy_eq_nil
    intro current member otherOp isLearner
    obtain rfl := List.mem_singleton.mp member
    cases isLearner
  · rintro aid req ⟨current, member, otherMem, isAcceptor, stored⟩
    obtain rfl := List.mem_singleton.mp member
    cases isAcceptor
    simp only [Network.setAcceptor, Function.update_self] at stored
    apply answered req _ rfl
    rw [← sameId] at stored ⊢
    exact outcome.stored_reply plays.acceptor.plainInv stored
  · intro send member
    refine Or.inl (Or.inl (List.mem_append_right _ ?_))
    exact Option.mem_toList.mpr (replies send member)

/-- A reply that is relayed is sent on as it came, and nothing happens in the
network. -/
theorem relayTurn
    {message : PaxosMessage} {mem : Memory} {a : EvAcceptor} {sent : List Send}
    (isSent : message ∈ net.sent) (isReply : message.upIid ≠ none)
    (ran : evacceptorReceive mem r.acceptor message = some (a, sent)) :
    Turn c window id (some message) net { r with acceptor := a } ⟨sent, []⟩
      [] net := by
  have relays : ∀ (state : MemAcceptor) (srcid : Int),
      state.Alike (net.acceptors id) →
      Turn c window id (some message) net
        { r with acceptor := ⟨r.acceptor.peers, state⟩ }
        ⟨sendToSource r.acceptor.peers srcid message, []⟩ [] net := by
    intro state srcid alike
    refine .quiet ?_ ?_
    · exact ⟨plays.peers, alike, plays.proposer, plays.learner⟩
    · intro send member
      rw [sendToSource_message member]
      exact Or.inl (Or.inl isSent)
  cases message with
  | promise promise =>
      cases ran
      have isRelay : (AcceptorOp.relayPromise promise).relayed = some _ := rfl
      exact relays _ _ (plays.acceptor.relay isRelay mem)
  | accepted accepted =>
      cases ran
      have isRelay : (AcceptorOp.relayAccepted accepted).relayed = some _ := rfl
      exact relays _ _ (plays.acceptor.relay isRelay mem)
  | preempted preempted =>
      cases ran
      exact relays _ _ plays.acceptor
  | _ => exact absurd rfl isReply

/-- The callbacks of the acceptor. -/
theorem acceptorTurn
    {message : PaxosMessage} {mem : Memory} {a : EvAcceptor} {sent : List Send}
    (flat : c.Flat) (bound : id < c.acceptors.length)
    (sameId : (net.acceptors id).id = id)
    (comes : message ∈ net.sent ∧ message.Exchanged ∨
      message.fromClient = true)
    (ran : evacceptorReceive mem r.acceptor message = some (a, sent)) :
    ∃ more after,
      Turn c window id (some message) net { r with acceptor := a } ⟨sent, []⟩
        more after ∧
      ∀ ack, message = .accepted ack → after = net := by
  have nobody := flat.sendDown bound
  rw [← plays.peers] at nobody
  have other : (∀ ack, message ≠ .accepted ack) →
      (∃ more after, Turn c window id (some message) net
        { r with acceptor := a } ⟨sent, []⟩ more after) →
      ∃ more after,
        Turn c window id (some message) net { r with acceptor := a } ⟨sent, []⟩
          more after ∧
        ∀ ack, message = .accepted ack → after = net := by
    rintro notAccepted ⟨more, after, turn⟩
    exact ⟨more, after, turn, fun ack same => absurd same (notAccepted ack)⟩
  have unmoved : Turn c window id (some message) net { r with acceptor := a }
        ⟨sent, []⟩ [] net →
      ∃ more after,
        Turn c window id (some message) net { r with acceptor := a } ⟨sent, []⟩
          more after ∧
        ∀ ack, message = .accepted ack → after = net :=
    fun turn => ⟨[], net, turn, fun _ _ => rfl⟩
  cases message with
  | prepare prepare =>
      obtain ⟨isSent, _⟩ := comes.resolve_right Bool.false_ne_true
      apply other (by intro ack impossible; cases impossible)
      refine plays.requestTurn bound sameId rfl rfl ?_ ?_ ran ?_ ?_
      · intro iid impossible
        cases impossible
      · intro taken received
        cases received
        exact isSent
      · cases ran
        intro send member
        rw [nobody, List.nil_append, Option.mem_toList,
          Option.map_eq_some_iff] at member
        obtain ⟨reply, replied, rfl⟩ := member
        exact replied
      · intro req ack impossible
        cases impossible
  | accept accept =>
      obtain ⟨isSent, _⟩ := comes.resolve_right Bool.false_ne_true
      apply other (by intro ack impossible; cases impossible)
      have replies : sent =
          (acceptorStep (memStorageApi mem) r.acceptor.state
            (.receiveAccept accept)).2.sent.elim [] acceptReply := by
        calc sent = sendDown r.acceptor.peers (.accept accept) ++ _ :=
              (congrArg Prod.snd (Option.some.inj ran)).symm
          _ = _ := by rw [nobody, List.nil_append]; rfl
      refine plays.requestTurn bound sameId rfl rfl ?_ ?_ ran ?_ ?_
      · intro iid impossible
        cases impossible
      · intro taken received
        cases received
        exact isSent
      · intro send member
        rw [replies] at member
        generalize (acceptorStep (memStorageApi mem) r.acceptor.state
          (.receiveAccept accept)).2.sent = reply at member ⊢
        cases reply with
        | none => cases member
        | some reply => rw [acceptReply_message member]
      · intro req ack _ replied
        rw [replies, replied]
        exact List.mem_singleton_self _
  | trim trim =>
      apply other (by intro ack impossible; cases impossible)
      refine plays.requestTurn bound sameId rfl rfl ?_ ?_ ran ?_ ?_
      · intro iid impossible
        cases impossible
      · intro taken impossible
        cases impossible
      · cases ran
        intro send member
        rw [nobody] at member
        cases member
      · intro req ack impossible
        cases impossible
  | promise promise =>
      obtain ⟨isSent, _⟩ := comes.resolve_right Bool.false_ne_true
      apply unmoved
      refine plays.relayTurn isSent ?_ ran
      intro impossible
      cases impossible
  | accepted accepted =>
      obtain ⟨isSent, _⟩ := comes.resolve_right Bool.false_ne_true
      apply unmoved
      refine plays.relayTurn isSent ?_ ran
      intro impossible
      cases impossible
  | preempted preempted =>
      obtain ⟨isSent, _⟩ := comes.resolve_right Bool.false_ne_true
      apply unmoved
      refine plays.relayTurn isSent ?_ ran
      intro impossible
      cases impossible
  | «repeat» msg =>
      apply unmoved
      simp only [evacceptorReceive, evacceptorHandleRepeat] at ran
      split at ran
      · cases ran
      · cases ran
        rw [repeatInstances_state plays.acceptor.inv]
        apply Turn.quiet plays
        intro send member
        exact Or.inr ⟨repeatInstances_target _ _ member, msg, rfl⟩
  | acceptorState state =>
      cases ran
      apply unmoved (Turn.quiet plays ?_)
      intro send member
      cases member
  | clientValue value =>
      cases ran
      apply unmoved (Turn.quiet plays ?_)
      intro send member
      cases member

/-! ### The learner -/

/-- A call into the learner. -/
theorem learnerTurn
    {op : LearnerOp} {l : Learner} {out : Option PaxosAccepted}
    (fits : (net.learners id).fits op = true)
    (offered : ∀ message, op.received = some message → message ∈ net.sent)
    (ran : learnerStep (net.learners id) op = some (l, out)) :
    Turn c window id handled net { r with learner := l }
      ⟨[], out.toList.map fun record => (record.iid, record.value)⟩
      [⟨net, .learner id op, .learner out, net.setLearner id l⟩]
      (net.setLearner id l) := by
  have offers : net.offers (.learner id op) = true := by
    rw [Network.offers, Option.all_eq_true]
    exact fun message taken => decide_eq_true (offered message taken)
  have stepEq : networkStep c.acceptors.length net (.learner id op) =
      some (net.setLearner id l, .learner out) := by
    simp only [networkStep, Network.allows, fits, offers, Bool.and_self,
      if_true, ran, Option.map_some]
  refine ⟨Trace.nil.snoc stepEq, ?_, ?_, ?_, ?_, ?_⟩
  · intro current member
    obtain rfl := List.mem_singleton.mp member
    refine ⟨?_, ?_, ?_, ?_, rfl⟩
    · intro other otherOp same
      cases same
    · intro other value same
      cases same
    · intro other call same
      cases same
    · intro other otherOp same
      cases same
      rfl
  · refine ⟨plays.peers, plays.acceptor, plays.proposer, ?_⟩
    simp only [Network.setLearner, Function.update_self]
  · have picked : learnerPart id
        ⟨net, .learner id op, .learner out, net.setLearner id l⟩ = some _ :=
      learnerPart_of_eq rfl rfl
    simp only [deliveredBy, delivered, List.filterMap_cons, picked,
      List.filterMap_nil]
    cases out <;> rfl
  · rintro aid req ⟨current, member, mem, isAcceptor, _⟩
    obtain rfl := List.mem_singleton.mp member
    cases isAcceptor
  · intro send member
    cases member

omit plays in
theorem firstValue_eq
    {record : PaxosAccepted} {value : PaxosValue}
    (isFirst : record.values.bind (·[0]?) = some value) :
    record.value = value := by
  obtain ⟨values, isValues, first⟩ := Option.bind_eq_some_iff.mp isFirst
  rw [PaxosAccepted.value, isValues]
  cases values with
  | nil => cases first
  | cons head rest =>
      cases first
      rfl

omit plays in
/-- The loop of deliveries: each one moves the proposer of the replica on. -/
theorem deliverTurn (few : id < maxNOfProposers) (turns : Nat) :
    ∀ {history : List NetworkTransition} {net : Network} {r next : Replica}
      {delivered : List (Nat × PaxosValue)},
      Trace (networkStep c.acceptors.length)
        (networkNew c.acceptors.length) history net →
      (∀ ack, .accepted ack ∈ net.sent → ack.iid + 1 < 2 ^ 32) →
      (∀ (op : ProposerOp) message, op.received = some message →
        handled = some message → message ∈ net.sent) →
      r.Plays c window id net →
      deliverNextClosed turns r = some (delivered, next) →
      ∃ more after,
        Turn c window id handled net next ⟨[], delivered⟩ more after := by
  induction turns with
  | zero =>
      intro history net r next delivered _ _ _ _ ran
      cases ran
  | succ turns inductionHypothesis =>
      intro history net r next delivered trace below offered plays ran
      rw [deliverNextClosed, plays.learner] at ran
      have fits := learner_fits trace below id
      have nothing : ∀ message, LearnerOp.deliverNext.received = some message →
          message ∈ net.sent := by
        intro message taken
        cases taken
      split at ran
      · cases ran
      · next l stopped =>
          cases ran
          have stepEq : learnerStep (net.learners id) .deliverNext =
              some (l, none) := by
            rw [learnerStep, stopped]
            rfl
          exact ⟨_, _, plays.learnerTurn fits nothing stepEq⟩
      · next record l returned =>
          split at ran
          · cases ran
          · next value isFirst =>
              obtain ⟨⟨later, last⟩, looped, equal⟩ :=
                Option.map_eq_some_iff.mp ran
              cases equal
              have stepEq : learnerStep (net.learners id) .deliverNext =
                  some (l, some record) := by
                rw [learnerStep, returned]
                rfl
              have taken : Turn c window id handled net
                  { r with learner := l } ⟨[], [(record.iid, record.value)]⟩
                  _ (net.setLearner id l) :=
                plays.learnerTurn fits nothing stepEq
              have made : EvProposer.Makes handled
                  ⟨id, window, net.proposers id⟩ []
                  (evproposerSetInstanceId ⟨id, window, net.proposers id⟩
                    record.iid) :=
                evproposerSetInstanceId_makes _ record.iid
              obtain ⟨more, middle, moved, silent⟩ :=
                taken.plays.proposerTurn few offered made
              have follows : ({ r with learner := l } : Replica).deliver
                  record.iid = { r with
                    learner := l
                    proposer := some (evproposerSetInstanceId
                      ⟨id, window, net.proposers id⟩ record.iid) } := by
                rw [Replica.deliver, plays.proposer, Option.map_some]
              rw [follows] at looped
              obtain ⟨rest, after, goesOn⟩ := inductionHypothesis
                ((trace.trans taken.trace).trans moved.trace)
                (fun ack sent => below ack (silent ack sent))
                (fun op message received isHandled =>
                  sent_subset moved.trace message
                    (offered op message received isHandled))
                moved.plays looped
              have all := taken.trans (moved.trans goesOn)
              rw [firstValue_eq isFirst] at all
              exact ⟨_, after, all⟩

/-- The callback of the learner. -/
theorem receiveTurn
    {env : Surroundings} {message : PaxosMessage} {next : Replica}
    {delivered : List (Nat × PaxosValue)} {history : List NetworkTransition}
    (few : id < maxNOfProposers)
    (trace : Trace (networkStep c.acceptors.length)
      (networkNew c.acceptors.length) history net)
    (below : ∀ ack, message = .accepted ack →
      ∀ other, .accepted other ∈ net.sent → other.iid + 1 < 2 ^ 32)
    (isSent : ∀ ack, message = .accepted ack → message ∈ net.sent)
    (ran : r.learnerReceive env message = some (delivered, next)) :
    ∃ more after,
      Turn c window id (some message) net next ⟨[], delivered⟩ more after := by
  have nothing : Turn c window id (some message) net r ⟨[], []⟩ [] net := by
    apply Turn.quiet plays
    intro send member
    cases member
  cases message with
  | accepted acc =>
      rw [learnerReceive, plays.learner] at ran
      split at ran
      · cases ran
      · next l received =>
          have member := isSent acc rfl
          have stepEq : learnerStep (net.learners id) (.receiveAccepted acc) =
              some (l, none) := by
            rw [learnerStep, received]
            rfl
          have taken : Turn c window id (some (.accepted acc)) net
              { r with learner := l } ⟨[], []⟩ _ (net.setLearner id l) :=
            plays.learnerTurn rfl
              (by
                intro message isTaken
                cases isTaken
                exact member)
              stepEq
          have isHandled : ∀ (op : ProposerOp) message,
              op.received = some message →
              some (.accepted acc) = some message → message ∈ net.sent := by
            intro op message _ same
            cases same
            exact member
          obtain ⟨more, after, turn⟩ := deliverTurn few env.turns
            (trace.trans taken.trace) (below acc rfl) isHandled taken.plays ran
          exact ⟨_, after, taken.trans turn⟩
  | _ =>
      cases ran
      exact ⟨[], net, nothing⟩

omit plays in
theorem received_inside
    {op : ProposerOp} {message : PaxosMessage}
    (received : op.received = some message) : message.fromClient = false := by
  cases op with
  | receivePromise clock ack =>
      cases received
      rfl
  | receiveAccepted ack =>
      cases received
      rfl
  | receivePreempted now ack =>
      cases received
      rfl
  | _ => cases received

/-- A message that arrives, first at the acceptor, then at the proposer and then
at the learner. -/
theorem dispatchTurn
    {env : Surroundings} {message : PaxosMessage} {next : Replica}
    {result : ReplicaResult} {history : List NetworkTransition}
    (flat : c.Flat) (bound : id < c.acceptors.length)
    (trace : Trace (networkStep c.acceptors.length)
      (networkNew c.acceptors.length) history net)
    (roomy : (net.proposers id).roomy window.toNat = true)
    (below : ∀ ack, .accepted ack ∈ net.sent → ack.iid + 1 < 2 ^ 32)
    (comes : message ∈ net.sent ∨ message.fromClient = true)
    (ran : r.dispatchMessage env message = some (next, result)) :
    ∃ more after,
      Turn c window id (some message) net next result more after := by
  have few := Nat.lt_of_lt_of_le bound flat.few
  have sameId := (memAcceptor_trace_inv (acceptor_component trace id)).2
  have exchanged : message ∈ net.sent ∧ message.Exchanged ∨
      message.fromClient = true :=
    comes.imp_left fun isSent => ⟨isSent, network_exchanged trace _ isSent⟩
  obtain ⟨⟨acceptor, sent⟩, accepted, rest⟩ := Option.bind_eq_some_iff.mp ran
  obtain ⟨⟨outgoing, proposing⟩, proposed, rest⟩ :=
    Option.bind_eq_some_iff.mp rest
  obtain ⟨⟨delivered, learning⟩, learned, equal⟩ :=
    Option.map_eq_some_iff.mp rest
  cases equal
  obtain ⟨first, middle, turn, unmoved⟩ :=
    plays.acceptorTurn flat bound sameId exchanged accepted
  have sameProposer : middle.proposers id = net.proposers id := by
    have both := turn.plays.proposer.symm.trans plays.proposer
    injection both with both
    exact congrArg EvProposer.state both
  rw [← sameProposer] at roomy
  simp only [proposerReceive, plays.proposer] at proposed
  obtain ⟨⟨messages, p⟩, received, equal⟩ := Option.map_eq_some_iff.mp proposed
  obtain ⟨rfl, rfl⟩ := Prod.mk.inj equal
  rw [← sameProposer] at received
  have isTaken : ∀ (op : ProposerOp) taken, op.received = some taken →
      some message = some taken → taken ∈ middle.sent := by
    intro op taken brings isMessage
    cases isMessage
    have inside := received_inside brings
    rcases comes with isSent | client
    · exact sent_subset turn.trace message isSent
    · rw [client] at inside
      cases inside
  have made : EvProposer.Makes (some message)
      ⟨id, window, middle.proposers id⟩ messages p := by
    apply evproposerReceive_makes roomy _ _ received
    · rintro state rfl
      rcases exchanged with ⟨_, impossible⟩ | impossible
      · exact impossible
      · cases impossible
    · rintro pro rfl
      rcases exchanged with ⟨_, single⟩ | impossible
      · exact single
      · cases impossible
  obtain ⟨second, later, proposerTurn, silent⟩ :=
    turn.plays.proposerTurn few isTaken made
  obtain ⟨third, after, learnerTurn⟩ := proposerTurn.plays.receiveTurn few
    ((trace.trans turn.trace).trans proposerTurn.trace)
    (by
      rintro ack rfl other member
      rw [unmoved ack rfl] at silent
      exact below other (silent other member))
    (by
      rintro ack rfl
      exact sent_subset proposerTurn.trace _
        (isTaken (.receiveAccepted ack) _ rfl rfl))
    learned
  have all := turn.trans (proposerTurn.trans learnerTurn)
  have samePeers : next.acceptor.peers = acceptor.peers :=
    learnerTurn.plays.peers.trans turn.plays.peers.symm
  rw [samePeers]
  simp only [List.append_nil, List.nil_append] at all
  exact ⟨_, after, all⟩

/-! ### Events of the replica itself -/

omit plays in
theorem submitLoop_message {p : Peers} {status : Nat → Int} {value : List UInt8}
    (positions : List Nat) {sent : List (Nat × PaxosMessage)}
    (ran : submitLoop p status value positions = some sent) :
    ∀ entry ∈ sent, entry.2 = paxosSubmit value := by
  induction positions with
  | nil =>
      cases ran
      intro entry member
      cases member
  | cons i rest inductionHypothesis =>
      rw [submitLoop] at ran
      split at ran
      · cases ran
      · split at ran
        · cases ran
          intro entry member
          obtain rfl := List.mem_singleton.mp member
          rfl
        · exact inductionHypothesis ran

/-- The pre-execution, the calls of the application and a new bucket order. -/
theorem ownTurn
    {op : ReplicaOp} {next : Replica} {result : ReplicaResult}
    (few : id < maxNOfProposers)
    (roomy : (net.proposers id).roomy window.toNat = true)
    (isOwn : op.own = true)
    (ran : replicaStep r op = some (next, result)) :
    ∃ more after, Turn c window id none net next result more after := by
  have nothing : ∀ (op : ProposerOp) message, op.received = some message →
      none = some message → message ∈ net.sent := by
    intro op message _ impossible
    cases impossible
  have posts : ∀ sent : List Send,
      (∀ send ∈ sent, send.message.Travels net.sent) →
      ∃ more after, Turn c window id none net r ⟨sent, []⟩ more after := by
    intro sent travels
    exact ⟨[], net, .quiet plays fun send member =>
      Or.inl (travels send member)⟩
  have proposes : ∀ {p : EvProposer} {messages : List PaxosMessage},
      EvProposer.Makes none ⟨id, window, net.proposers id⟩ messages p →
      ∃ more after, Turn c window id none net { r with proposer := some p }
        ⟨sendAcceptors r.acceptor.peers messages, []⟩ more after := by
    intro p messages made
    obtain ⟨more, after, turn, _⟩ := plays.proposerTurn few nothing made
    exact ⟨more, after, turn⟩
  cases op with
  | receive env message => cases isOwn
  | setInstanceId iid => cases isOwn
  | preexecOnce now =>
      simp only [replicaStep, Replica.proposerEvent, plays.proposer] at ran
      obtain ⟨⟨p, messages⟩, stepped, equal⟩ := Option.map_eq_some_iff.mp ran
      obtain ⟨rfl, rfl⟩ := Prod.mk.inj equal
      obtain ⟨⟨messages, p⟩, executed, equal⟩ :=
        Option.map_eq_some_iff.mp stepped
      cases equal
      exact proposes (evproposerPreexecOnce_makes roomy executed)
  | rehash prepareInstances acceptInstances =>
      simp only [replicaStep, Replica.proposerEvent, plays.proposer] at ran
      obtain ⟨⟨p, messages⟩, stepped, equal⟩ := Option.map_eq_some_iff.mp ran
      obtain ⟨rfl, rfl⟩ := Prod.mk.inj equal
      exact proposes (evproposerStep_rehash_makes stepped)
  | submit status value =>
      obtain ⟨sent, submitted, equal⟩ := Option.map_eq_some_iff.mp ran
      cases equal
      apply posts
      intro send member
      obtain ⟨entry, isEntry, rfl⟩ := List.mem_map.mp member
      exact Or.inr (Or.inl ⟨_, submitLoop_message _ submitted entry isEntry⟩)
  | sendTrim iid =>
      cases ran
      apply posts
      intro send member
      exact Or.inr (Or.inr
        ⟨⟨iid⟩, List.mem_singleton.mp (mem_sendAcceptors member)⟩)

end Replica.Plays

end LibPaxos

import LibPaxos.Acceptor.Identity
import LibPaxos.Evpaxos.Evacceptor

/-!
# Relaying the same reply twice

A node that relays a promise or an accepted adds the acceptor ids of the reply
to its record of the instance.  When the same reply comes again, every id is
listed and the counter of new ids stays at zero.  Zero ids are not enough when
half the number of subordinates, rounded down, is at least one.  For a node with
no subordinates or with a single one they are, and the reply goes out again.
-/

namespace LibPaxos

open LibPaxos.Library

def PaxosMessage.replyIid : PaxosMessage → Option Nat
  | .promise message => some message.iid
  | .accepted message => some message.iid
  | _ => none

/-- A message other than a prepare, an accept or a trim for the instance. -/
def PaxosMessage.LeavesAlone (iid : Nat) : PaxosMessage → Prop
  | .prepare message => message.iid ≠ iid
  | .accept message => message.iid ≠ iid
  | .trim message => message.iid < iid
  | _ => True

/-- The node relays a reply at most once between two requests for its
instance. -/
def RelaysOnce (start : EvAcceptor) : Prop :=
  ∀ (before middle after : List EvTransition) (first second : EvTransition)
    (final : EvAcceptor) (iid : Nat),
    Trace evacceptorStep start
      (before ++ first :: middle ++ second :: after) final →
    first.input.2.replyIid = some iid → second.input.2 = first.input.2 →
    (∀ current ∈ middle, current.input.2.LeavesAlone iid) →
    relayedSrcid second.input.1 second.source second.input.2 = -1 ∧
      second.output = []

theorem acceptorOp_leavesAlone
    {message : PaxosMessage} {op : AcceptorOp} {iid : Nat}
    (isOp : message.acceptorOp = some op) (alone : message.LeavesAlone iid) :
    op.LeavesAlone iid := by
  cases message with
  | prepare prepare =>
      cases isOp
      exact ⟨fun same => alone (Option.some.inj same), nofun⟩
  | accept accept =>
      cases isOp
      exact ⟨fun same => alone (Option.some.inj same), nofun⟩
  | trim trim =>
      cases isOp
      refine ⟨nofun, ?_⟩
      intro other same
      cases same
      exact alone
  | promise promise =>
      cases isOp
      exact ⟨nofun, nofun⟩
  | accepted accepted =>
      cases isOp
      exact ⟨nofun, nofun⟩
  | preempted preempted =>
      cases isOp
      exact ⟨nofun, nofun⟩
  | _ => cases isOp

theorem grows_refl (record : Option PaxosAccepted) :
    Option.Rel Grows record record := by
  cases record with
  | none => exact .none
  | some record => exact .some ⟨rfl, fun _ member => member⟩

theorem grows_trans
    {first second third : Option PaxosAccepted}
    (left : Option.Rel Grows first second)
    (right : Option.Rel Grows second third) :
    Option.Rel Grows first third := by
  cases left with
  | none => exact right
  | some grew =>
      cases right with
      | some grewMore =>
          exact .some ⟨grewMore.src_eq.trans grew.src_eq,
            fun aid member => grewMore.aids aid (grew.aids aid member)⟩

/-- A message for another instance leaves the record of this one, up to relayed
ids. -/
theorem evacceptorStep_grows
    {a after : EvAcceptor} {call : EvCall} {sent : List Send} {iid : Nat}
    (inv : a.state.Inv)
    (stepEq : evacceptorStep a call = some (after, sent))
    (alone : call.2.LeavesAlone iid) :
    Option.Rel Grows (a.state.store.records iid)
      (after.state.store.records iid) := by
  have stateEq := (evacceptorStep_state inv stepEq).2
  cases isOp : call.2.acceptorOp with
  | none =>
      rw [isOp, Option.elim_none] at stateEq
      rw [stateEq]
      exact grows_refl _
  | some op =>
      rw [isOp, Option.elim_some] at stateEq
      rw [stateEq]
      exact acceptorStep_grows inv call.1 (acceptorOp_leavesAlone isOp alone)

/-- The ids, ballots and value ballots that a reply carries. -/
def PaxosMessage.replyEntries : PaxosMessage → List (Nat × Nat × Nat)
  | .promise message =>
      relayedEntries message.nAids message.aids message.ballots
        message.valueBallots
  | .accepted message =>
      relayedEntries message.nAids message.aids message.ballots
        message.valueBallots
  | _ => []

section Reply

variable {a after : EvAcceptor} {call : EvCall} {sent : List Send} {iid : Nat}

theorem relayedSrcid_eq (mem : Memory) {message : PaxosMessage}
    (isReply : message.replyIid = some iid) :
    relayedSrcid mem a message =
      (getSrcid (memStorageApi mem) iid message.replyEntries a.state).1 := by
  cases message with
  | promise promise =>
      cases isReply
      rfl
  | accepted accepted =>
      cases isReply
      rfl
  | _ => cases isReply

/-- What the callback of a reply does: it runs the loop over the ids of the
reply, and sends the reply to the source that comes back. -/
theorem evacceptorStep_reply
    (isReply : call.2.replyIid = some iid)
    (stepEq : evacceptorStep a call = some (after, sent)) :
    after.state =
        (getSrcid (memStorageApi call.1) iid call.2.replyEntries a.state).2 ∧
      sent = sendToSource a.peers (relayedSrcid call.1 a call.2) call.2 := by
  obtain ⟨mem, message⟩ := call
  cases message with
  | promise promise =>
      cases isReply
      cases stepEq
      exact ⟨rfl, rfl⟩
  | accepted accepted =>
      cases isReply
      cases stepEq
      exact ⟨rfl, rfl⟩
  | _ => cases isReply

/-- After a reply, the record of its instance lists all its ids. -/
theorem evacceptorStep_lists
    (inv : a.state.Inv) (isReply : call.2.replyIid = some iid)
    (stepEq : evacceptorStep a call = some (after, sent))
    {new : PaxosAccepted}
    (present : after.state.store.records iid = some new) :
    ∀ entry ∈ call.2.replyEntries, entry.1 ∈ new.aids := by
  intro entry member
  rw [(evacceptorStep_reply isReply stepEq).1] at present
  cases stored : a.state.store.records iid with
  | none =>
      rw [getSrcid_state inv, stored] at present
      rw [Option.elim_none, stored] at present
      cases present
  | some old =>
      obtain ⟨grown, grownAt, aids⟩ :=
        getSrcid_aids inv call.1 stored call.2.replyEntries
      rw [present] at grownAt
      cases grownAt
      rw [aids, mem_grownAids]
      exact Or.inr ⟨entry, member, rfl⟩

end Reply

/-- The source id returned for a reply whose ids are all listed. -/
theorem relayedSrcid_of_listed
    {a : EvAcceptor} {iid : Nat} {message : PaxosMessage}
    {record : PaxosAccepted}
    (inv : a.state.Inv) (mem : Memory)
    (isReply : message.replyIid = some iid)
    (present : a.state.store.records iid = some record)
    (listed : ∀ entry ∈ message.replyEntries, entry.1 ∈ record.aids) :
    relayedSrcid mem a message =
      if 2 ≤ a.state.subordinates then -1 else intOfUint32 record.src := by
  have consistent := (inv.record iid record present).1.toWordsConsistent
  rw [relayedSrcid_eq mem isReply, getSrcid_srcid inv, present,
    Option.elim_some, adjustRecord_of_listed _ consistent _ listed]
  by_cases several : 2 ≤ a.state.subordinates
  · rw [if_pos several, if_neg]
    omega
  · rw [if_neg several, if_pos]
    omega

section Run

variable {id : Nat} {c : EvpaxosConfig} {start final : EvAcceptor}

theorem evacceptor_trace_continues
    (started : evacceptorInitInternal id c = some start)
    {past : List EvTransition}
    (trace : Trace evacceptorStep start past final) :
    start.Continues final :=
  trace.invariant start.Continues (evacceptorInitInternal_continues started)
    fun _ _ _ _ continues stepEq => evacceptorStep_continues continues stepEq

variable {before middle after : List EvTransition}
variable {first second : EvTransition} {iid : Nat}

/-- At the second delivery the record is the one found at the first, up to
relayed ids, and lists all ids of the reply. -/
theorem second_delivery_record
    (started : evacceptorInitInternal id c = some start)
    (trace : Trace evacceptorStep start
      (before ++ first :: middle ++ second :: after) final)
    (isReply : first.input.2.replyIid = some iid)
    (alone : ∀ current ∈ middle, current.input.2.LeavesAlone iid) :
    Option.Rel Grows (first.source.state.store.records iid)
        (second.source.state.store.records iid) ∧
      ∀ new, second.source.state.store.records iid = some new →
        ∀ entry ∈ first.input.2.replyEntries, entry.1 ∈ new.aids := by
  have early : Trace evacceptorStep start
      (before ++ first :: (middle ++ second :: after)) final := by
    simpa using trace
  obtain ⟨reached, firstStep⟩ := early.split
  have firstContinues := evacceptor_trace_continues started reached
  have targetContinues := evacceptorStep_continues firstContinues firstStep
  have firstAlone : first.input.2.LeavesAlone iid := by
    cases message : first.input.2 with
    | promise promise => trivial
    | accepted accepted => trivial
    | _ => simp [PaxosMessage.replyIid, message] at isReply
  have firstGrows :=
    evacceptorStep_grows firstContinues.inv firstStep firstAlone
  have kept := trace.stable_through
    (fun state => start.Continues state ∧
      Option.Rel Grows (first.target.state.store.records iid)
        (state.state.store.records iid))
    ⟨targetContinues, grows_refl _⟩ (by
      rintro current member ⟨continues, grows⟩ stepEq
      exact ⟨evacceptorStep_continues continues stepEq,
        grows_trans grows (evacceptorStep_grows continues.inv stepEq
          (alone current member))⟩)
  refine ⟨grows_trans firstGrows kept.2, ?_⟩
  intro new present entry member
  have grew := kept.2
  rw [present] at grew
  generalize stored : first.target.state.store.records iid = old at grew
  cases grew with
  | some grew =>
      exact grew.aids _ (evacceptorStep_lists firstContinues.inv isReply
        firstStep stored entry member)

/-- A reply that is delivered twice, with no prepare, accept or trim for its
instance in between, is held back the second time if and only if the node has
at least two subordinates, or its record of the instance was missing or had no
source at the first delivery. -/
theorem relays_reply_once_iff
    (started : evacceptorInitInternal id c = some start)
    (trace : Trace evacceptorStep start
      (before ++ first :: middle ++ second :: after) final)
    (isReply : first.input.2.replyIid = some iid)
    (same : second.input.2 = first.input.2)
    (alone : ∀ current ∈ middle, current.input.2.LeavesAlone iid) :
    (relayedSrcid second.input.1 second.source second.input.2 = -1 ∧
        second.output = []) ↔
      2 ≤ start.state.subordinates ∨
        ∀ record, first.source.state.store.records iid = some record →
          intOfUint32 record.src = -1 := by
  obtain ⟨grows, lists⟩ :=
    second_delivery_record started trace isReply alone
  obtain ⟨reached, secondStep⟩ := trace.split
  have continues := evacceptor_trace_continues started reached
  rw [← same] at isReply lists
  have output := (evacceptorStep_reply isReply secondStep).2
  have silent : relayedSrcid second.input.1 second.source second.input.2 = -1 →
      second.output = [] := by
    intro none
    rw [output, none]
    rfl
  rw [and_iff_left_of_imp silent]
  generalize found : first.source.state.store.records iid = old at grows
  generalize present : second.source.state.store.records iid = new at grows
  cases grows with
  | none =>
      rw [relayedSrcid_eq _ isReply, getSrcid_srcid continues.inv, present]
      simp
  | @some old new grew =>
      rw [relayedSrcid_of_listed continues.inv _ isReply present
        (lists new present), continues.subordinates_eq, grew.src_eq]
      by_cases several : 2 ≤ start.state.subordinates
      · simp [several]
      · simp [several]

end Run

/-- A promise that an acceptor sends for instance 1, asked for with ballot 5. -/
def promiseFrom (src aid : Nat) : PaxosPromise :=
  ⟨src, 1, 5, 5, 1, [aid], PaxosValue.empty, [PaxosValue.empty], [5], [5]⟩

/-- A prepare from acceptor 0, and the same promise twice. -/
def prepareThenPromiseTwice (promise : PaxosPromise) : List EvCall :=
  [(Memory.zero, .prepare ⟨0, 1, 5⟩), (Memory.zero, .promise promise),
    (Memory.zero, .promise promise)]

/-- The delegate relays the promise of a member the first time and holds it back
the second time. -/
theorem relays_once_over_three_members :
    ∃ start past final,
      evacceptorInitInternal 1 threeMembers = some start ∧
        runFrom evacceptorStep start
          (prepareThenPromiseTwice (promiseFrom 1 2)) = some (past, final) ∧
        (past.map Transition.output)[1]? =
          some [⟨.acceptor 0, .promise (promiseFrom 1 2)⟩] ∧
        (past.map Transition.output)[2]? = some [] := by
  have started : evacceptorInitInternal 1 threeMembers =
      some ⟨peersConnectToAcceptors threeMembers 1, memAcceptorNew 1 3⟩ := rfl
  have trace : Trace evacceptorStep
      ⟨peersConnectToAcceptors threeMembers 1, memAcceptorNew 1 3⟩
      ([_] ++ _ :: [] ++ _ :: []) _ :=
    trace_of_runFrom evacceptorStep _
      (prepareThenPromiseTwice (promiseFrom 1 2)) rfl
  have held := relays_reply_once_iff started trace rfl rfl (by simp)
  refine ⟨_, _, _, started, rfl, rfl, ?_⟩
  exact congrArg some (held.mpr (Or.inl (by decide))).2

/-- Replica 4 of `paxos.conf` has one subordinate, replica 6, and relays a
promise of it as often as it comes. -/
theorem relays_promise_twice :
    ¬ ∀ id c start, evacceptorInitInternal id c = some start →
      RelaysOnce start := by
  intro once
  have started : evacceptorInitInternal 4 paxosConf =
      some ⟨peersConnectToAcceptors paxosConf 4, memAcceptorNew 4 1⟩ := rfl
  have trace := trace_of_runFrom evacceptorStep
    ⟨peersConnectToAcceptors paxosConf 4, memAcceptorNew 4 1⟩
    (prepareThenPromiseTwice (promiseFrom 4 6)) rfl
  have held := once 4 paxosConf _ started [_] [] [] _ _ _ 1 trace rfl rfl
    (by simp)
  exact absurd held.1 (by decide)

end LibPaxos

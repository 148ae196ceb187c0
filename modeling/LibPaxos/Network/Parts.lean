import LibPaxos.Library.Simulation
import LibPaxos.Network.SoleProposer

/-!
# One node at work in a group

A node of the group calls its own acceptor, proposer and learner and leaves the
other ones alone.  Here a run of calls into one proposer becomes a run of the
group, and a learner has room for the next instance as long as the proposers
have.
-/

namespace LibPaxos

open LibPaxos.Library

/-! ### Kinds of messages -/

/-- A message that the parties send to each other; a promise comes from one
acceptor. -/
def PaxosMessage.Exchanged : PaxosMessage → Prop
  | .prepare _ => True
  | .promise ack => ack.nAids = 1
  | .accept _ => True
  | .accepted _ => True
  | .preempted _ => True
  | _ => False

/-- A call into a proposer sends a prepare or an accept, if anything. -/
theorem proposerStep_sends
    {p after : Proposer} {op : ProposerOp} {result : ProposerResult}
    {message : PaxosMessage}
    (stepEq : proposerStep p op = some (after, result))
    (sent : result.sent = some message) :
    (∃ out, message = .prepare out) ∨ ∃ out, message = .accept out := by
  have prepares : ∀ out : Option PaxosPrepare,
      out.map PaxosMessage.prepare = some message →
      (∃ out, message = .prepare out) ∨ ∃ out, message = .accept out := by
    intro out found
    obtain ⟨pr, _, rfl⟩ := Option.map_eq_some_iff.mp found
    exact Or.inl ⟨pr, rfl⟩
  have accepts : ∀ out : Option PaxosAccept,
      out.map PaxosMessage.accept = some message →
      (∃ out, message = .prepare out) ∨ ∃ out, message = .accept out := by
    intro out found
    obtain ⟨accept, _, rfl⟩ := Option.map_eq_some_iff.mp found
    exact Or.inr ⟨accept, rfl⟩
  cases op with
  | propose value =>
      cases stepEq
      cases sent
  | prepare now =>
      obtain ⟨⟨out, p⟩, _, equal⟩ := Option.map_eq_some_iff.mp stepEq
      cases equal
      exact prepares (some out) sent
  | receivePromise clock ack =>
      obtain ⟨⟨out, p⟩, _, equal⟩ := Option.map_eq_some_iff.mp stepEq
      cases equal
      exact prepares out sent
  | accept =>
      obtain ⟨⟨out, p⟩, _, equal⟩ := Option.map_eq_some_iff.mp stepEq
      cases equal
      exact accepts out sent
  | receiveAccepted ack =>
      obtain ⟨⟨done, retired, p⟩, _, equal⟩ :=
        Option.map_eq_some_iff.mp stepEq
      cases equal
      cases sent
  | receivePreempted now ack =>
      obtain ⟨⟨out, p⟩, _, equal⟩ := Option.map_eq_some_iff.mp stepEq
      cases equal
      exact prepares out sent
  | receiveAcceptorState state =>
      cases stepEq
      cases sent
  | setInstanceId iid =>
      cases stepEq
      cases sent
  | timeoutPrepare proposerTimeout iter =>
      cases stepEq
      exact prepares _ sent
  | timeoutAccept proposerTimeout iter =>
      obtain ⟨⟨out, rest⟩, _, equal⟩ := Option.map_eq_some_iff.mp stepEq
      cases equal
      exact accepts out sent
  | rehash prepareInstances acceptInstances =>
      rw [proposerStep] at stepEq
      split at stepEq
      · cases stepEq
        cases sent
      · cases stepEq

theorem Outcome.exchanged
    {a after : MemAcceptor} {op : AcceptorOp} {reply : Option PaxosMessage}
    (outcome : Outcome a op after reply)
    {message : PaxosMessage} (sent : reply = some message) :
    message.Exchanged := by
  cases outcome with
  | promised _ _ _ _ _ =>
      cases sent
      rfl
  | refused _ _ _ _ _ _ _ =>
      cases sent
      rfl
  | accepted _ _ _ _ =>
      cases sent
      exact True.intro
  | preempted _ _ _ _ _ _ =>
      cases sent
      exact True.intro
  | repeated _ _ _ _ _ _ =>
      cases sent
      exact True.intro
  | _ => cases sent

section Run

variable {n : Nat} {past : List NetworkTransition} {final : Network}

theorem network_exchanged
    (trace : Trace (networkStep n) (networkNew n) past final) :
    ∀ message ∈ final.sent, message.Exchanged := by
  induction trace with
  | nil =>
      intro message member
      cases member
  | @snoc past source target op result trace stepEq inductionHypothesis =>
      have outcome := networkStep_outcome stepEq
      intro message member
      rcases outcome.mem_sent member with old | new
      · exact inductionHypothesis message old
      · cases outcome with
        | learner id op l out _ _ _ => cases new
        | proposer id op p out _ _ _ ran =>
            rcases proposerStep_sends ran new with ⟨out, rfl⟩ | ⟨out, rfl⟩
            · exact True.intro
            · exact True.intro
        | acceptor id call a out _ _ _ ran =>
            have inv := (memAcceptor_trace_inv (acceptor_component trace id)).1
            exact (memAcceptorStep_outcome inv ran).exchanged new

/-- What is acknowledged belongs to an instance that a proposer has opened. -/
theorem acknowledged_opened
    (trace : Trace (networkStep n) (networkNew n) past final)
    {ack : PaxosAccepted} (sent : .accepted ack ∈ final.sent) :
    ∃ id < maxNOfProposers, ack.iid ≤ (final.proposers id).nextPrepareIid := by
  have backed := network_backed trace
  obtain ⟨aid, req, rfl, stored⟩ := backed.acknowledged ack sent
  obtain ⟨id, small, _, settled⟩ :=
    (network_owned trace).settled req (backed.asked aid req stored).2
  exact ⟨id, small, settled.opened⟩

/-- A learner has room for the instance after each one that is acknowledged. -/
theorem learner_fits
    (trace : Trace (networkStep n) (networkNew n) past final)
    (below : ∀ ack, .accepted ack ∈ final.sent → ack.iid + 1 < 2 ^ 32)
    (id : Nat) :
    (final.learners id).fits .deliverNext = true := by
  by_cases nothing : receivedFor (final.learners id).currentIid
      (past.filterMap (learnerPart id)) = []
  · -- Without a message for the instance there is nothing to deliver.
    have inv := learner_trace_inv (learner_component trace id)
      (learner_ready trace id)
    obtain ⟨after, out, stepEq, _, exactly⟩ := inv.deliver (Or.inl nothing)
    have silent : out = none := by
      rw [← Option.not_isSome_iff_eq_none, exactly.isSome_iff, nothing]
      exact not_reachedMajority_nil n
    subst silent
    obtain ⟨⟨out, l⟩, ran, equal⟩ := Option.map_eq_some_iff.mp stepEq
    cases equal
    simp only [Learner.fits, ran]
  · obtain ⟨ack, member⟩ := List.exists_mem_of_ne_nil _ nothing
    obtain ⟨sent, sameIid⟩ := receivedFor_sent trace member
    have room := below ack sent
    rw [sameIid] at room
    simp only [Learner.fits]
    split
    · exact decide_eq_true room
    · rfl

end Run

/-! ### Deliveries of a part of a run -/

theorem deliveredBy_append (id : Nat) (past future : List NetworkTransition) :
    deliveredBy id (past ++ future) =
      deliveredBy id past ++ deliveredBy id future := by
  simp only [deliveredBy, delivered, List.filterMap_append, List.map_append]

/-- Without a call into a learner it delivers nothing. -/
theorem deliveredBy_eq_nil
    {id : Nat} {past : List NetworkTransition}
    (others : ∀ current ∈ past, ∀ op, current.input ≠ .learner id op) :
    deliveredBy id past = [] := by
  have nobody : past.filterMap (learnerPart id) = [] := by
    rw [List.filterMap_eq_nil_iff]
    intro current member
    cases picked : learnerPart id current with
    | none => rfl
    | some own =>
        exact absurd (learnerPart_eq_some picked).1 (others current member _)
  rw [deliveredBy, nobody]
  rfl

/-- A run stores an accept in one of its two parts. -/
theorem stored_append
    {past future : List NetworkTransition} {aid : Nat} {req : PaxosAccept}
    (stored : Stored (past ++ future) aid req) :
    Stored past aid req ∨ Stored future aid req := by
  obtain ⟨current, member, rest⟩ := stored
  rcases List.mem_append.mp member with old | new
  · exact Or.inl ⟨current, old, rest⟩
  · exact Or.inr ⟨current, new, rest⟩

/-! ### A run of a proposer in the group -/

namespace Network

/-- The group after calls into a proposer that hand over messages. -/
def afterProposer (net : Network) (id : Nat) (p : Proposer)
    (messages : List PaxosMessage) : Network :=
  { net with
    proposers := Function.update net.proposers id p
    sent := net.sent ++ messages }

variable (net : Network) (id : Nat)

theorem afterProposer_self :
    net.afterProposer id (net.proposers id) [] = net := by
  simp only [afterProposer, Function.update_eq_self, List.append_nil]

theorem afterProposer_set (p next : Proposer) (messages : List PaxosMessage)
    (message : Option PaxosMessage) :
    (net.afterProposer id p messages).setProposer id next message =
      net.afterProposer id next (messages ++ message.toList) := by
  simp only [afterProposer, setProposer, Function.update_idem,
    List.append_assoc]

theorem afterProposer_proposers (p : Proposer)
    (messages : List PaxosMessage) :
    (net.afterProposer id p messages).proposers id = p :=
  Function.update_self _ _ _

end Network

/-- A run of a proposer that takes only messages that were sent is a run of the
group. -/
theorem proposer_run
    {n id : Nat} {net : Network} {allowed : Proposer → ProposerOp → Prop}
    (small : id < maxNOfProposers)
    (fits : ∀ p op, allowed p op → p.fits op = true)
    (offered : ∀ p op, allowed p op → ∀ message, op.received = some message →
      message ∈ net.sent)
    {sent : List PaxosMessage} {p : Proposer}
    (calls : Emits proposerStep allowed (fun result => result.sent.toList)
      (net.proposers id) sent p) :
    ∃ more, Trace (networkStep n) net more (net.afterProposer id p sent) ∧
      ∀ current ∈ more, ∃ op, current.input = .proposer id op ∧
        allowed (current.source.proposers id) op := by
  obtain ⟨past, trace, rfl⟩ := calls
  obtain ⟨more, moved, parts⟩ := Trace.embedded
    (fun result : ProposerResult => result.sent.toList)
    (fun p messages => net.afterProposer id p messages)
    (NetworkOp.proposer id) NetworkResult.proposer
    (by
      intro source op target result emitted stepEq
      obtain ⟨meets, ran⟩ := guarded_eq_some_iff.mp stepEq
      have allows : (net.afterProposer id source emitted).allows n
          (.proposer id op) = true := by
        simp only [Network.allows, Network.afterProposer_proposers,
          fits source op meets, decide_eq_true small, Bool.and_true]
      have offers : (net.afterProposer id source emitted).offers
          (.proposer id op) = true := by
        rw [Network.offers, Option.all_eq_true]
        intro message taken
        exact decide_eq_true
          (List.mem_append_left _ (offered source op meets message taken))
      change networkStep n (net.afterProposer id source emitted)
        (.proposer id op) = some _
      simp only [networkStep, allows, offers, Bool.and_self, if_true,
        Network.afterProposer_proposers, ran, Option.map_some,
        Network.afterProposer_set])
    trace
  rw [Network.afterProposer_self] at moved
  refine ⟨more, moved, ?_⟩
  intro current member
  obtain ⟨own, ownMember, isStep⟩ := parts current member
  obtain ⟨_, _, _, _, stepEq⟩ := trace.mem_split ownMember
  obtain ⟨earlier, sameSource⟩ := isStep.source
  refine ⟨own.input, isStep.input, ?_⟩
  rw [sameSource, Network.afterProposer_proposers]
  exact (guarded_eq_some_iff.mp stepEq).1

/-- The messages of such a run are prepares and accepts. -/
theorem emits_kind
    {allowed : Proposer → ProposerOp → Prop} {p after : Proposer}
    {sent : List PaxosMessage}
    (calls : Emits proposerStep allowed (fun result => result.sent.toList) p
      sent after) :
    ∀ message ∈ sent,
      (∃ out, message = .prepare out) ∨ ∃ out, message = .accept out := by
  obtain ⟨past, trace, rfl⟩ := calls
  intro message member
  obtain ⟨current, currentMember, emitted⟩ := List.mem_flatMap.mp member
  obtain ⟨_, _, _, _, stepEq⟩ := trace.mem_split currentMember
  exact proposerStep_sends (guarded_eq_some_iff.mp stepEq).2
    (Option.mem_toList.mp emitted)

end LibPaxos

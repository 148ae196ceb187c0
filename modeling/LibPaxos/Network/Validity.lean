import LibPaxos.Network.Decisions
import LibPaxos.Proposer.Phase2

/-!
# Values come from clients

A value reaches an accept from the queue of its proposer or from a promise,
a promise from a record, a record from an accept, and a learner from accepted
messages.  No copy on the way makes up a value: all of them were proposed.
-/

namespace LibPaxos

open LibPaxos.Library

/-- A value was passed to `proposer_propose` of some proposer. -/
def Proposed (past : List NetworkTransition) (value : PaxosValue) : Prop :=
  ∃ current ∈ past, ∃ id, current.input = .proposer id (.propose value)

/-- The values that a message carries; an empty value in a promise stands for
no value. -/
def PaxosMessage.carried : PaxosMessage → List PaxosValue
  | .accept out => [out.value]
  | .accepted ack => ack.values.getD []
  | .promise ack => ack.values.filter fun value => decide (0 < value.len)
  | _ => []

theorem Proposed.append
    {past : List NetworkTransition} {value : PaxosValue}
    (proposed : Proposed past value) (later : List NetworkTransition) :
    Proposed (past ++ later) value := by
  obtain ⟨current, member, rest⟩ := proposed
  exact ⟨current, List.mem_append_left _ member, rest⟩

/-- The promised value of an instance was proposed. -/
def PromisedProposed (past : List NetworkTransition) (_ : Nat)
    (inst : ProposerInstance) : Prop :=
  ∀ value, inst.promisedValue = some value → Proposed past value

/-- All values that can still get into a message were proposed. -/
structure Genuine (past : List NetworkTransition) (net : Network) : Prop where
  accepts : ∀ out, .accept out ∈ net.sent → Proposed past out.value
  promises : ∀ ack, .promise ack ∈ net.sent →
    ∀ value ∈ ack.values, 0 < value.len → Proposed past value
  instances : ∀ id, (net.proposers id).Instances
    (PromisedProposed past) (PromisedProposed past)

section Step

variable {n : Nat} {past : List NetworkTransition} {net : Network}

theorem Genuine.later
    (genuine : Genuine past net) (last : NetworkTransition) :
    Genuine (past ++ [last]) net where
  accepts := by
    intro out sent
    exact (genuine.accepts out sent).append _
  promises := by
    intro ack sent value member nonempty
    exact (genuine.promises ack sent value member nonempty).append _
  instances := by
    intro id
    refine ⟨?_, ?_⟩
    · intro key inst present value promised
      exact ((genuine.instances id).prepare key inst present value
        promised).append _
    · intro key inst present value promised
      exact ((genuine.instances id).accept key inst present value
        promised).append _

/-- A step of a proposer takes promised values from promises only. -/
theorem ProposerOutcome.promisedProposed
    {p after : Proposer} {op : ProposerOp} {result : ProposerResult}
    (outcome : ProposerOutcome p op after result)
    (holds : p.Instances (PromisedProposed past) (PromisedProposed past))
    (promises : ∀ clock ack, op = .receivePromise clock ack →
      ∀ value ∈ ack.values, 0 < value.len → Proposed past value) :
    after.Instances (PromisedProposed past) (PromisedProposed past) := by
  refine outcome.instances holds ⟨?_, ?_, ?_, ?_, ?_, ?_, ?_⟩
  · intro _ _ _ value promised
    cases promised
  · intro clock ack ii inst changed sent isPromise held _ entryOutcome
    cases entryOutcome with
    | stale _ _ _ => exact held
    | preempted _ _ _ =>
        intro value promised
        cases promised
    | counted _ _ _ _ _ _ _ _ _ => exact held
    | recorded aid value fresh quorum valueBallot _ _ valueAt _ nonempty _ _ =>
        intro other promised
        cases promised
        exact promises clock ack isPromise value
          (List.mem_of_getElem? valueAt) nonempty
  · intro inst valued values out _ held _ took _ value promised
    exact held value ((takeValue_iid took).2.2.1.symm.trans promised)
  · intro _ _ inst _ _ _ held _ _ _ _ _
    exact held
  · intro _ _ _ _ _ _ _ value promised
    cases promised
  · intro _ inst _ held
    exact held
  · intro _ inst _ held
    exact held

/-- What a non-empty value of a promise says about the acceptor. -/
theorem Outcome.promise_sent
    {a after : MemAcceptor} {op : AcceptorOp} {reply : Option PaxosMessage}
    (outcome : Outcome a op after reply)
    {ack : PaxosPromise} (sent : reply = some (.promise ack))
    {value : PaxosValue} (member : value ∈ ack.values)
    (nonempty : 0 < value.len) :
    ∃ key record, a.store.records key = some record ∧
      record.values ≠ none ∧ value = record.value := by
  cases outcome with
  | promised isrc req _ _ _ =>
      cases sent
      rw [paxosAcceptedToPromise, List.mem_singleton] at member
      rw [member] at nonempty
      exact False.elim (Nat.lt_irrefl 0 nonempty)
  | refused isrc req record _ _ present _ =>
      cases sent
      rw [paxosAcceptedToPromise, List.mem_singleton] at member
      refine ⟨req.iid, record, present, ?_, member⟩
      intro missing
      rw [member, PaxosAccepted.value, missing] at nonempty
      exact Nat.lt_irrefl 0 nonempty
  | _ => cases sent

end Step

section Run

variable {n : Nat} {past : List NetworkTransition} {final : Network}

/-- A client value of a proposer was proposed in the run of the group. -/
theorem proposed_of_proposedValues
    {id : Nat} {value : PaxosValue}
    (member : value ∈ proposedValues (past.filterMap (proposerPart id))) :
    Proposed past value := by
  unfold proposedValues at member
  rw [List.mem_flatMap] at member
  obtain ⟨own, ownMember, proposes⟩ := member
  rw [List.mem_filterMap] at ownMember
  obtain ⟨current, currentMember, picked⟩ := ownMember
  refine ⟨current, currentMember, id, ?_⟩
  rw [proposerPart_eq_some picked]
  cases shape : own.input with
  | propose other =>
      rw [shape, proposedBy, List.mem_singleton] at proposes
      rw [proposes]
  | _ =>
      rw [shape] at proposes
      cases proposes

/-- The value of an accept that a proposer sends was proposed. -/
theorem Genuine.accept_proposed
    (genuine : Genuine past final)
    (trace : Trace (networkStep n) (networkNew n) past final)
    {id : Nat} (small : id < maxNOfProposers) {op : ProposerOp} {p : Proposer}
    {result : ProposerResult}
    (outcome : ProposerOutcome (final.proposers id) op p result)
    {out : PaxosAccept} (sent : result.sent = some (.accept out)) :
    Proposed past out.value := by
  obtain ⟨_, _, sameId, _⟩ := proposer_facts trace small
  rcases outcome.accept_sent sent with
    ⟨inst, valued, values, _, present, _, took, toAccept⟩ |
    ⟨_, _, inst, _, present, toAccept⟩
  · obtain ⟨_, _, _, chosen⟩ := instanceToAccept_eq_some toAccept
    rw [(takeValue_iid took).2.2.1] at chosen
    rw [Option.or_eq_some_iff] at chosen
    rcases chosen with promised | ⟨_, own⟩
    · exact (genuine.instances id).prepare _ _ present _ promised
    · exact proposed_of_proposedValues (takeValue_proposed
        (proposer_component trace id).unguarded present took own)
  · obtain ⟨other, otherToAccept, otherSent⟩ :=
      (network_owned trace).outstanding id _ _ present
    rw [sameId, otherToAccept] at toAccept
    cases toAccept
    exact genuine.accepts out otherSent

/-- In every run, all values that can get into a message were proposed. -/
theorem network_genuine
    (trace : Trace (networkStep n) (networkNew n) past final) :
    Genuine past final := by
  induction trace with
  | nil =>
      refine ⟨?_, ?_, fun id => proposerNew_instances id n _ _⟩
      · intro out sent
        cases sent
      · intro ack sent
        cases sent
  | @snoc past source target op result trace stepEq inductionHypothesis =>
      have outcome := networkStep_outcome stepEq
      have arrives : ∀ message ∈ target.sent,
          message ∈ source.sent ∨ result.sent = some message :=
        fun _ => outcome.mem_sent
      have earlier :=
        inductionHypothesis.later ⟨source, op, result, target⟩
      cases outcome with
      | learner id op l result _ _ _ =>
          exact ⟨earlier.accepts, earlier.promises, earlier.instances⟩
      | proposer id op p result small fits offered ran =>
          obtain ⟨keyed, _, _, _⟩ := proposer_facts trace small
          have stepped := proposerStep_outcome keyed ran
          refine ⟨?_, ?_, ?_⟩
          · intro out sent
            rcases arrives _ sent with old | new
            · exact earlier.accepts out old
            · exact (inductionHypothesis.accept_proposed trace small stepped
                new).append _
          · intro ack sent
            rcases arrives _ sent with old | new
            · exact earlier.promises ack old
            · rcases stepped.sent_kind new with
                ⟨_, impossible⟩ | ⟨_, impossible⟩
              · cases impossible
              · cases impossible
          · intro other
            by_cases own : other = id
            · subst own
              simp only [Network.setProposer, Function.update_self]
              refine stepped.promisedProposed (earlier.instances other) ?_
              rintro clock ack rfl
              exact earlier.promises ack (offered _ rfl)
            · simp only [Network.setProposer, Function.update_of_ne own]
              exact earlier.instances other
      | acceptor id call a result bound flat offered ran =>
          obtain ⟨inv, _⟩ :=
            memAcceptor_trace_inv (acceptor_component trace id)
          have stepped := memAcceptorStep_outcome inv ran
          refine ⟨?_, ?_, earlier.instances⟩
          · intro out sent
            rcases arrives _ sent with old | new
            · exact earlier.accepts out old
            · exact False.elim (stepped.not_accept out new)
          · intro ack sent value member nonempty
            rcases arrives _ sent with old | new
            · exact earlier.promises ack old value member nonempty
            · obtain ⟨key, record, present, valued, rfl⟩ :=
                stepped.promise_sent new member nonempty
              obtain ⟨req, rfl, stored⟩ :=
                (network_backed trace).held id key record present valued
              exact earlier.accepts req
                ((network_backed trace).asked id req stored).2

/-- The values of all messages sent so far were proposed. -/
theorem carried_proposed
    (trace : Trace (networkStep n) (networkNew n) past final)
    {message : PaxosMessage} (sent : message ∈ final.sent)
    {value : PaxosValue} (carried : value ∈ message.carried) :
    Proposed past value := by
  have genuine := network_genuine trace
  cases message with
  | accept out =>
      rw [PaxosMessage.carried, List.mem_singleton] at carried
      rw [carried]
      exact genuine.accepts out sent
  | accepted ack =>
      obtain ⟨aid, req, rfl, stored⟩ :=
        (network_backed trace).acknowledged ack sent
      have same : value = req.value := List.mem_singleton.mp carried
      rw [same]
      exact genuine.accepts req ((network_backed trace).asked aid req stored).2
  | promise ack =>
      rw [PaxosMessage.carried, List.mem_filter, decide_eq_true_eq] at carried
      exact genuine.promises ack sent value carried.1 carried.2
  | _ => cases carried

/-- A step that sends a message does not propose a value. -/
theorem proposed_before
    {last : NetworkTransition} {source : Network} {message : PaxosMessage}
    (outcome : NetworkOutcome n source last.input last.target last.output)
    (sent : last.output.sent = some message)
    {value : PaxosValue} (proposed : Proposed (past ++ [last]) value) :
    Proposed past value := by
  obtain ⟨current, member, id, isPropose⟩ := proposed
  rw [List.mem_append, List.mem_singleton] at member
  rcases member with old | rfl
  · exact ⟨current, old, id, isPropose⟩
  · obtain ⟨_, input, output, target⟩ := current
    simp only at isPropose sent outcome
    subst isPropose
    cases outcome with
    | proposer _ _ p result _ _ _ ran =>
        cases ran
        cases sent

/-- In every run of a group, every value that a learner delivers, and every
value carried by an accept, an accepted or a non-empty promise, was passed to
`proposer_propose` before. -/
theorem values_come_from_clients
    (trace : Trace (networkStep n) (networkNew n) past final) :
    ∀ before current after, past = before ++ current :: after →
      (∀ message, current.output.sent = some message →
        ∀ value ∈ message.carried, Proposed before value) ∧
      ∀ id record, current.input = .learner id .deliverNext →
        current.output = .learner (some record) →
        ∃ value, record.values = some [value] ∧ Proposed before value := by
  rintro before current after rfl
  obtain ⟨reached, stepEq⟩ := trace.split
  have outcome := networkStep_outcome stepEq
  refine ⟨?_, ?_⟩
  · intro message sent value carried
    have arrived : message ∈ current.target.sent := by
      rw [outcome.sent_eq, sent]
      exact List.mem_append_right _ (List.mem_singleton_self _)
    exact proposed_before outcome sent
      (carried_proposed (reached.snoc stepEq) arrived carried)
  · intro id record isDeliver returned
    obtain ⟨aid, req, rfl, _, voters, enough, stored⟩ :=
      delivery_stored trace isDeliver returned
    obtain ⟨voter, member⟩ := Finset.card_pos.mp
      (Nat.lt_of_lt_of_le (Nat.succ_pos _) enough)
    refine ⟨req.value, rfl, ?_⟩
    exact (network_genuine reached).accepts req
      ((network_backed reached).asked voter req (stored voter member).2).2

/-- The value that a learner delivers after a round with two of three acceptors
was proposed. -/
theorem values_come_from_clients_delivers :
    ∃ past final,
      Trace (networkStep 3) (networkNew 3) past final ∧
      ∃ before current, past = before ++ [current] ∧
        current.output = .learner (some (majorityAck 1 0 ⟨[7]⟩)) ∧
        Proposed before ⟨[7]⟩ := by
  have reached :=
    trace_of_runFrom (networkStep 3) (networkNew 3)
      ((majorityRound 0 ⟨[7]⟩ 0).dropLast) rfl
  have trace := reached.snoc
    (show networkStep 3 _ (.learner 0 .deliverNext) = _ from rfl)
  obtain ⟨value, values, proposed⟩ :=
    (values_come_from_clients trace _ _ [] rfl).2 0 _ rfl rfl
  cases values
  exact ⟨_, _, trace, _, _, rfl, rfl, proposed⟩

end Run

end LibPaxos

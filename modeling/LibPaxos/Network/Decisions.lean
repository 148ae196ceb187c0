import LibPaxos.Network.Messages
import LibPaxos.Proposer.Values

/-!
# Decisions of a group

A learner counts acceptor ids per ballot when it delivers, and a proposer when
it closes an instance; neither looks at a value.  Both are right, since an
accepted message carries the id of the acceptor that stored the accept, and an
instance and a ballot determine that accept.
-/

namespace LibPaxos

open LibPaxos.Library

/-- A majority of the acceptors stored the value for the instance, all at the
ballot. -/
def MajorityStored (n : Nat) (past : List NetworkTransition)
    (iid ballot : Nat) (value : PaxosValue) : Prop :=
  ∃ voters : Finset Nat, n / 2 + 1 ≤ voters.card ∧
    ∀ aid ∈ voters, aid < n ∧
      ∃ req : PaxosAccept, req.iid = iid ∧ req.ballot = ballot ∧
        req.value = value ∧ Stored past aid req

section Run

variable {n : Nat} {past : List NetworkTransition} {final : Network}

/-- Every message received in a run was sent in the run. -/
theorem received_sent
    (trace : Trace (networkStep n) (networkNew n) past final)
    {current : NetworkTransition} (member : current ∈ past)
    {message : PaxosMessage}
    (received : current.input.received = some message) :
    message ∈ final.sent := by
  induction trace with
  | nil => cases member
  | snoc _ stepEq inductionHypothesis =>
      have outcome := networkStep_outcome stepEq
      rw [List.mem_append, List.mem_singleton] at member
      rcases member with old | rfl
      · exact outcome.sent_mono (inductionHypothesis old)
      · exact outcome.sent_mono (outcome.offered received)

theorem learnerPart_eq_some
    {id : Nat} {current : NetworkTransition} {own : LearnerTransition}
    (picked : learnerPart id current = some own) :
    current.input = .learner id own.input ∧
      current.output = .learner own.output ∧
      own.source = current.source.learners id := by
  unfold learnerPart at picked
  split at picked
  · next other op result isLearner returned =>
      split at picked
      · next same =>
          subst same
          cases picked
          exact ⟨isLearner, returned, rfl⟩
      · cases picked
  · cases picked

theorem learnerPart_of_eq
    {id : Nat} {current : NetworkTransition} {op : LearnerOp}
    {result : Option PaxosAccepted}
    (isLearner : current.input = .learner id op)
    (returned : current.output = .learner result) :
    learnerPart id current =
      some ⟨current.source.learners id, op, result,
        current.target.learners id⟩ := by
  simp only [learnerPart, isLearner, returned, if_pos]

/-- The messages that a learner received for an instance were sent. -/
theorem receivedFor_sent
    (trace : Trace (networkStep n) (networkNew n) past final)
    {id iid : Nat} {ack : PaxosAccepted}
    (member : ack ∈ receivedFor iid (past.filterMap (learnerPart id))) :
    .accepted ack ∈ final.sent ∧ ack.iid = iid := by
  unfold receivedFor at member
  rw [List.mem_filterMap] at member
  obtain ⟨own, ownMember, message⟩ := member
  rw [List.mem_filterMap] at ownMember
  obtain ⟨current, currentMember, picked⟩ := ownMember
  rw [Option.filter_eq_some_iff, decide_eq_true_eq] at message
  obtain ⟨isLearner, _, _⟩ := learnerPart_eq_some picked
  refine ⟨received_sent trace currentMember ?_, message.2⟩
  rw [isLearner]
  simp only [NetworkOp.received, LearnerOp.received, message.1,
    Option.map_some]

theorem acceptedOk_paxosAcceptToAccepted
    {aid : Nat} (bound : aid < n) (req : PaxosAccept) :
    AcceptedOk n (paxosAcceptToAccepted aid req) where
  toArraysConsistent :=
    (recordOk_paxosAcceptToAccepted aid req).toArraysConsistent
  positive := Nat.one_pos
  aid_lt := bound

/-- Learners can handle every message that reaches them. -/
theorem learner_ready
    (trace : Trace (networkStep n) (networkNew n) past final) (id : Nat)
    (before : List LearnerTransition) (own : LearnerTransition)
    (after : List LearnerTransition)
    (shape : past.filterMap (learnerPart id) = before ++ own :: after) :
    own.input.Ready n before own.source := by
  obtain ⟨front, back, rfl, rfl, tail⟩ := List.filterMap_eq_append_iff.mp shape
  obtain ⟨skipped, current, rest, rfl, _, picked, _⟩ :=
    List.filterMap_eq_cons_iff.mp tail
  rw [← List.append_assoc] at trace
  obtain ⟨reached, stepEq⟩ := trace.split
  obtain ⟨isLearner, _, sameSource⟩ := learnerPart_eq_some picked
  have outcome := networkStep_outcome stepEq
  cases received : own.input with
  | receiveAccepted ack =>
      have offered : .accepted ack ∈ current.source.sent := by
        refine outcome.offered ?_
        rw [isLearner, received]
        rfl
      obtain ⟨aid, req, rfl, stored⟩ :=
        (network_backed reached).acknowledged ack offered
      exact acceptedOk_paxosAcceptToAccepted
        ((network_backed reached).asked aid req stored).1 req
  | deliverNext =>
      have fits := outcome.allowed
      rw [isLearner, received] at fits
      refine Or.inr (Or.inr ?_)
      rw [sameSource]
      exact fits

/-- Behind a delivery there is one accept that a majority stored. -/
theorem delivery_stored
    {before after : List NetworkTransition} {current : NetworkTransition}
    (trace : Trace (networkStep n) (networkNew n)
      (before ++ current :: after) final)
    {id : Nat} {record : PaxosAccepted}
    (isDeliver : current.input = .learner id .deliverNext)
    (returned : current.output = .learner (some record)) :
    ∃ aid req, record = paxosAcceptToAccepted aid req ∧
      req.iid = (current.source.learners id).currentIid ∧
      ∃ voters : Finset Nat, n / 2 + 1 ≤ voters.card ∧
        ∀ voter ∈ voters, voter < n ∧ Stored before voter req := by
  have reached := trace.split.1
  have backed := network_backed reached
  have owned := network_owned reached
  have exactly := (deliver_exact (learner_component trace id)
    (learner_ready trace id)
    (by
      rw [List.filterMap_append,
        List.filterMap_cons_some (learnerPart_of_eq isDeliver returned)])
    rfl).2
  simp only at exactly
  obtain ⟨ack, ackMember, copied⟩ := exactly.received record rfl
  obtain ⟨voters, enough, sent⟩ := exactly.majority record rfl
  obtain ⟨ackSent, ackIid⟩ := receivedFor_sent reached ackMember
  obtain ⟨aid, req, rfl, stored⟩ := backed.acknowledged ack ackSent
  refine ⟨aid, req, copied, ackIid, voters, enough, ?_⟩
  intro voter member
  obtain ⟨other, otherMember, sameAid, sameBallot⟩ := sent voter member
  obtain ⟨otherSent, otherIid⟩ := receivedFor_sent reached otherMember
  obtain ⟨otherAid, otherReq, rfl, otherStored⟩ :=
    backed.acknowledged other otherSent
  have sameReq : otherReq = req := by
    refine owned.unique otherReq req (backed.asked _ _ otherStored).2
      (backed.asked _ _ stored).2 (otherIid.trans ackIid.symm) ?_
    rw [copied] at sameBallot
    exact sameBallot
  rw [← sameReq, ← sameAid]
  exact ⟨(backed.asked _ _ otherStored).1, otherStored⟩

theorem proposerPart_eq_some
    {id : Nat} {current : NetworkTransition} {own : ProposerTransition}
    (picked : proposerPart id current = some own) :
    current.input = .proposer id own.input := by
  unfold proposerPart at picked
  split at picked
  · next other op result isProposer returned =>
      split at picked
      · next same =>
          subst same
          cases picked
          exact isProposer
      · cases picked
  · cases picked

theorem proposerPart_of_eq
    {id : Nat} {current : NetworkTransition} {op : ProposerOp}
    {result : ProposerResult}
    (isProposer : current.input = .proposer id op)
    (returned : current.output = .proposer result) :
    proposerPart id current =
      some ⟨current.source.proposers id, op, result,
        current.target.proposers id⟩ := by
  simp only [proposerPart, isProposer, returned, if_pos]

/-- What an acknowledgement to a proposer says about the acceptor. -/
theorem acknowledged_stored
    (trace : Trace (networkStep n) (networkNew n) past final)
    (id : Nat) {iid ballot aid : Nat}
    (acknowledged :
      Acknowledged (past.filterMap (proposerPart id)) iid ballot aid) :
    ∃ req : PaxosAccept, req.iid = iid ∧ req.ballot = ballot ∧
      Stored past aid req := by
  obtain ⟨own, ownMember, ack, isAccepted, sameIid, ballotAt, aidAt⟩ :=
    acknowledged
  rw [List.mem_filterMap] at ownMember
  obtain ⟨current, member, picked⟩ := ownMember
  have sent : .accepted ack ∈ final.sent := by
    refine received_sent trace member ?_
    rw [proposerPart_eq_some picked, isAccepted]
    rfl
  obtain ⟨sender, req, rfl, stored⟩ :=
    (network_backed trace).acknowledged ack sent
  cases aidAt
  cases ballotAt
  exact ⟨req, sameIid, rfl, stored⟩

/-- Closing an instance takes the acknowledgement that completes its quorum. -/
theorem proposerReceiveAccepted_closes
    {p after : Proposer} {ack : PaxosAccepted} {done : Bool}
    {retired : List PaxosValue} {inst : ProposerInstance}
    (ran : proposerReceiveAccepted p ack = some (done, retired, after))
    (present : p.acceptInstances.get ack.iid = some inst)
    (closed : after.acceptInstances.get ack.iid = none) :
    ∃ aid quorum, ack.ballots[0]? = some inst.ballot ∧
      ack.aids[0]? = some aid ∧
      quorumAdd inst.quorum aid = some (true, quorum) ∧
      quorumReached quorum = true := by
  have still : p.acceptInstances.get ack.iid ≠ none := by
    rw [present]
    exact Option.some_ne_none inst
  simp only [proposerReceiveAccepted, present] at ran
  split at ran
  · cases ran
  · next ballot ballotAt =>
      split at ran
      · next same =>
          subst same
          split at ran
          · cases ran
          · next aid aidAt =>
              split at ran
              · cases ran
              · cases ran
                exact False.elim (still closed)
              · next quorum added =>
                  split at ran
                  · next reached =>
                      exact ⟨aid, quorum, ballotAt, aidAt, added, reached⟩
                  · cases ran
                    simp only [Table.get_set_self _ present] at closed
                    cases closed
      · cases ran
        exact False.elim (still closed)

/-- Behind a closed instance there is its accept, stored by a majority. -/
theorem closing_stored
    {before after : List NetworkTransition} {current : NetworkTransition}
    (trace : Trace (networkStep n) (networkNew n)
      (before ++ current :: after) final)
    {id : Nat} {ack : PaxosAccepted} {inst : ProposerInstance}
    (isAccepted : current.input = .proposer id (.receiveAccepted ack))
    (present : (current.source.proposers id).acceptInstances.get ack.iid =
      some inst)
    (closed : (current.target.proposers id).acceptInstances.get ack.iid =
      none) :
    ∃ out, instanceToAccept id inst = some out ∧
      .accept out ∈ current.source.sent ∧ out.iid = ack.iid ∧
      ∃ voters : Finset Nat, n / 2 + 1 ≤ voters.card ∧
        ∀ voter ∈ voters, voter < n ∧ Stored before voter out := by
  obtain ⟨reached, stepEq⟩ := trace.split
  have owned := network_owned reached
  obtain ⟨source, input, output, target⟩ := current
  simp only at isAccepted present closed reached stepEq owned ⊢
  subst isAccepted
  have extended := reached.snoc stepEq
  have outcome := networkStep_outcome stepEq
  cases outcome with
  | proposer _ _ p result small fits _ ran =>
      obtain ⟨keyed, _, sameId, _⟩ := proposer_facts reached small
      obtain ⟨out, toAccept, sent⟩ := owned.outstanding id _ _ present
      obtain ⟨_, outIid, outBallot, _⟩ := instanceToAccept_eq_some toAccept
      rw [keyed.accept _ _ present] at outIid
      rw [proposerStep, Option.map_eq_some_iff] at ran
      obtain ⟨⟨done, retired, state⟩, received, equal⟩ := ran
      cases equal
      simp only [Network.setProposer, Function.update_self] at closed
      obtain ⟨aid, quorum, ballotAt, aidAt, added, complete⟩ :=
        proposerReceiveAccepted_closes received present closed
      have counts := (proposer_pendingCounts
        (proposer_component reached id).unguarded).accept _ _ present
      obtain ⟨majority, acknowledged⟩ :
          IsMajority (Finset.range n) quorum.marked ∧
          ∀ other ∈ quorum.marked,
            Acknowledged
              (before.filterMap (proposerPart id) ++
                [⟨source.proposers id, .receiveAccepted ack, ⟨none, retired⟩,
                  (source.setProposer id p none).proposers id⟩])
              ack.iid inst.ballot other :=
        counts.completed rfl rfl ballotAt aidAt added complete
      refine ⟨out, toAccept, sent, outIid, quorum.marked, ?_, ?_⟩
      · have enough := majority.2
        rwa [Finset.card_range] at enough
      · intro voter marked
        obtain ⟨req, sameIid, sameBallot, stored⟩ :=
          acknowledged_stored extended id (by
            rw [List.filterMap_append,
              List.filterMap_cons_some (proposerPart_of_eq rfl rfl),
              List.filterMap_nil]
            exact acknowledged voter marked)
        obtain ⟨bound, asked⟩ := (network_backed extended).asked _ _ stored
        have sameReq : req = out :=
          (network_owned extended).unique req out asked
            (List.mem_append_left _ sent) (sameIid.trans outIid.symm)
            (sameBallot.trans outBallot.symm)
        rw [sameReq] at stored
        rcases stored_snoc stored with early | ⟨_, impossible, _⟩
        · exact ⟨bound, early⟩
        · cases impossible

/-- In every run of a group, when a learner delivers a value, and when a
proposer closes an instance whose outstanding accept carries a value, a majority
of the acceptors has stored that value for that instance at one ballot. -/
theorem decisions_backed_by_majority
    (trace : Trace (networkStep n) (networkNew n) past final) :
    ∀ before current after, past = before ++ current :: after →
      (∀ id record, current.input = .learner id .deliverNext →
        current.output = .learner (some record) →
        ∃ ballot value, record.values = some [value] ∧
          MajorityStored n before record.iid ballot value) ∧
      ∀ id ack inst, current.input = .proposer id (.receiveAccepted ack) →
        (current.source.proposers id).acceptInstances.get ack.iid =
          some inst →
        (current.target.proposers id).acceptInstances.get ack.iid = none →
        ∃ out, instanceToAccept id inst = some out ∧
          .accept out ∈ current.source.sent ∧ out.iid = ack.iid ∧
          ∃ ballot, MajorityStored n before ack.iid ballot out.value := by
  rintro before current after rfl
  refine ⟨?_, ?_⟩
  · intro id record isDeliver returned
    obtain ⟨aid, req, rfl, _, voters, enough, stored⟩ :=
      delivery_stored trace isDeliver returned
    refine ⟨req.ballot, req.value, rfl, voters, enough, ?_⟩
    intro voter member
    obtain ⟨bound, storedReq⟩ := stored voter member
    exact ⟨bound, req, rfl, rfl, rfl, storedReq⟩
  · intro id ack inst isAccepted present closed
    obtain ⟨out, toAccept, sent, sameIid, voters, enough, stored⟩ :=
      closing_stored trace isAccepted present closed
    refine ⟨out, toAccept, sent, sameIid, out.ballot, voters, enough, ?_⟩
    intro voter member
    obtain ⟨bound, storedOut⟩ := stored voter member
    exact ⟨bound, out, sameIid, rfl, rfl, storedOut⟩

/-- A learner delivers the value that two of three acceptors have stored. -/
theorem decisions_backed_by_majority_delivers :
    ∃ past final,
      Trace (networkStep 3) (networkNew 3) past final ∧
      ∃ before current, past = before ++ [current] ∧
        current.output = .learner (some (majorityAck 1 0 ⟨[7]⟩)) ∧
        ∃ ballot, MajorityStored 3 before 1 ballot ⟨[7]⟩ := by
  have reached :=
    trace_of_runFrom (networkStep 3) (networkNew 3)
      ((majorityRound 0 ⟨[7]⟩ 0).dropLast) rfl
  have trace := reached.snoc
    (show networkStep 3 _ (.learner 0 .deliverNext) = _ from rfl)
  obtain ⟨ballot, value, values, majority⟩ :=
    (decisions_backed_by_majority trace _ _ [] rfl).1 0 _ rfl rfl
  cases values
  exact ⟨_, _, trace, _, _, rfl, rfl, ballot, majority⟩

end Run

end LibPaxos

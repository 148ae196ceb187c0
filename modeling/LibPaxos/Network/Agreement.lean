import LibPaxos.Network.Decisions
import LibPaxos.Acceptor.PromiseKeeping

/-!
# Agreement of learners

`acceptor_receive_prepare` drops the value of the record it finds, so a promise
does not report a value that was accepted before.  Where no granted prepare
meets an accepted value, an acceptor that promises a ballot has not voted in the
instance, and will not vote below that ballot.  Then a majority is shut below
every ballot for which an accept was sent, at most one value is chosen in an
instance, and what two learners have delivered is the same up to a point.
-/

namespace LibPaxos

open LibPaxos.Library

/-- Whether the call is not a prepare that is granted although the record of its
instance holds an accepted value. -/
def Network.sparesVotes (net : Network) : NetworkOp → Bool
  | .acceptor id (_, .receivePrepare _ req) =>
      ((net.acceptors id).store.records req.iid).all fun record =>
        decide (record.values = none) || decide (req.ballot < record.ballot)
  | _ => true

/-- A call that spares accepted values grants no prepare on one. -/
theorem Network.ballot_lt_of_sparesVotes
    {net : Network} {id : Nat} {call : MemCall}
    (spares : net.sparesVotes (.acceptor id call) = true)
    {isrc : Int} {req : PaxosPrepare}
    (isPrepare : call.2 = .receivePrepare isrc req)
    {record : PaxosAccepted}
    (present : (net.acceptors id).store.records req.iid = some record)
    (valued : record.values ≠ none) :
    req.ballot < record.ballot := by
  obtain ⟨mem, op⟩ := call
  simp only at isPrepare
  subst isPrepare
  simpa [Network.sparesVotes, present, valued] using spares

/-- The acceptor has not voted below the ballot and never will. -/
structure Shut (past : List NetworkTransition) (net : Network)
    (aid iid ballot : Nat) : Prop where
  holds : (net.acceptors aid).HoldsAtLeast iid ballot
  votes : ∀ req, Stored past aid req → req.iid = iid → ballot ≤ req.ballot

section Step

variable {n : Nat} {past : List NetworkTransition} {net : Network}

/-- An accept that was stored has at least the ballot that the acceptor holds
afterwards. -/
theorem ballot_le_of_stored
    {a : MemAcceptor} (inv : a.Inv) {iid ballot aid : Nat}
    (holds : a.HoldsAtLeast iid ballot) {req : PaxosAccept}
    (present : a.store.records req.iid =
      some (paxosAcceptToAccepted aid req))
    (sameIid : req.iid = iid) :
    ballot ≤ req.ballot := by
  subst sameIid
  rcases holds with trimmed | ⟨record, recordAt, enough⟩
  · have above := (inv.record _ _ present).2
    omega
  · rw [present] at recordAt
    cases recordAt
    exact enough

/-- A step of an acceptor keeps what is shut. -/
theorem Shut.answer
    {aid iid ballot : Nat} (shut : Shut past net aid iid ballot)
    {id : Nat} {call : MemCall} {a : MemAcceptor} {result : AcceptorResult}
    (inv : (net.acceptors id).Inv)
    (outcome : Outcome (net.acceptors id) call.2 a result.sent) :
    Shut
      (past ++ [⟨net, .acceptor id call, .acceptor result,
        net.setAcceptor id a result.sent⟩])
      (net.setAcceptor id a result.sent) aid iid ballot := by
  have holds : ((net.setAcceptor id a result.sent).acceptors
      aid).HoldsAtLeast iid ballot := by
    by_cases own : aid = id
    · subst own
      simp only [Network.setAcceptor, Function.update_self]
      exact outcome.holdsAtLeast inv shut.holds
    · simp only [Network.setAcceptor, Function.update_of_ne own]
      exact shut.holds
  refine ⟨holds, ?_⟩
  intro req stored sameIid
  rcases stored_snoc stored with old | ⟨mem, isAccept, present⟩
  · exact shut.votes req old sameIid
  · cases isAccept
    simp only [Network.setAcceptor, Function.update_self] at holds present
    exact ballot_le_of_stored (outcome.keeps_inv inv) holds present sameIid

/-- A step that is not one of an acceptor keeps what is shut. -/
theorem Shut.quiet
    {aid iid ballot : Nat} (shut : Shut past net aid iid ballot)
    {after : Network} {last : NetworkTransition}
    (other : ∀ aid call, last.input ≠ .acceptor aid call)
    (same : after.acceptors = net.acceptors) :
    Shut (past ++ [last]) after aid iid ballot := by
  refine ⟨?_, ?_⟩
  · rw [same]
    exact shut.holds
  · intro req stored sameIid
    rcases stored_snoc stored with old | ⟨mem, isAccept, _⟩
    · exact shut.votes req old sameIid
    · exact False.elim (other _ _ isAccept)

/-- Every step keeps what is shut. -/
theorem Shut.step
    {past : List NetworkTransition} {source target : Network} {op : NetworkOp}
    {result : NetworkResult}
    (trace : Trace (networkStep n) (networkNew n) past source)
    (stepEq : networkStep n source op = some (target, result))
    {aid iid ballot : Nat} (shut : Shut past source aid iid ballot) :
    Shut (past ++ [⟨source, op, result, target⟩]) target aid iid ballot := by
  have outcome := networkStep_outcome stepEq
  cases outcome with
  | proposer id op p result _ _ _ _ => exact shut.quiet nofun rfl
  | learner id op l result _ _ _ => exact shut.quiet nofun rfl
  | acceptor id call a result _ _ _ ran =>
      obtain ⟨inv, _⟩ := memAcceptor_trace_inv (acceptor_component trace id)
      exact shut.answer inv (memAcceptorStep_outcome inv ran)

end Step

/-- The acceptor has trimmed the instance or holds a value for it. -/
def MemAcceptor.Voted (a : MemAcceptor) (iid : Nat) : Prop :=
  iid ≤ a.trimIid ∨
    ∃ record, a.store.records iid = some record ∧ record.values ≠ none

/-- A call that spares accepted values keeps them. -/
theorem Outcome.voted
    {a after : MemAcceptor} {op : AcceptorOp} {reply : Option PaxosMessage}
    (outcome : Outcome a op after reply) (inv : a.Inv) (flat : op.flat = true)
    (spares : ∀ isrc req, op = .receivePrepare isrc req →
      ∀ record, a.store.records req.iid = some record →
        record.values ≠ none → req.ballot < record.ballot)
    {iid : Nat} (voted : a.Voted iid) :
    after.Voted iid := by
  rcases voted with trimmed | ⟨record, present, valued⟩
  · exact Or.inl (trimmed.trans outcome.trim_le)
  · have change := outcome.record inv iid
    generalize stored : after.store.records iid = now at change
    cases change with
    | kept => exact Or.inr ⟨record, stored.trans present, valued⟩
    | prepared isrc req isPrepare sameIid _ grants =>
        rw [← sameIid] at present grants
        have spared := spares isrc req isPrepare record present valued
        have granted := grants record present
        omega
    | accepted req _ _ _ _ =>
        exact Or.inr ⟨_, stored, Option.some_ne_none _⟩
    | relayed old new isRelay _ _ =>
        exact False.elim (isRelay (relayed_of_flat flat))
    | trimmed low => exact Or.inl low

section Votes

variable {n : Nat} {past : List NetworkTransition} {final : Network}

/-- Where accepted values are spared, no vote is forgotten. -/
theorem network_voted
    (trace : Trace (networkStep n) (networkNew n) past final)
    (spares : ∀ current ∈ past, current.source.sparesVotes current.input = true)
    {aid : Nat} {req : PaxosAccept} (stored : Stored past aid req) :
    (final.acceptors aid).Voted req.iid := by
  induction trace with
  | nil =>
      obtain ⟨current, member, _⟩ := stored
      cases member
  | @snoc past source target op result trace stepEq inductionHypothesis =>
      have earlier := inductionHypothesis fun current member =>
        spares current (List.mem_append_left _ member)
      have spared := spares ⟨source, op, result, target⟩
        (List.mem_append_right _ (List.mem_singleton_self _))
      rcases stored_snoc stored with old | ⟨_, _, present⟩
      · have voted := earlier old
        have outcome := networkStep_outcome stepEq
        cases outcome with
        | proposer id op p result _ _ _ _ => exact voted
        | learner id op l result _ _ _ => exact voted
        | acceptor id call a result _ flat _ ran =>
            by_cases own : aid = id
            · subst own
              obtain ⟨inv, _⟩ :=
                memAcceptor_trace_inv (acceptor_component trace aid)
              have stepped := memAcceptorStep_outcome inv ran
              simp only [Network.setAcceptor, Function.update_self]
              refine stepped.voted inv flat ?_ voted
              intro isrc asked isPrepare held present valued
              exact Network.ballot_lt_of_sparesVotes spared isPrepare present
                valued
            · simp only [Network.setAcceptor, Function.update_of_ne own]
              exact voted
      · exact Or.inr ⟨_, present, Option.some_ne_none _⟩

/-- A promise comes from a record.  Where accepted values are spared, the
acceptor has not voted in the instance, or the record is a vote. -/
theorem Outcome.promise_record
    {a after : MemAcceptor} {op : AcceptorOp} {reply : Option PaxosMessage}
    (outcome : Outcome a op after reply) (inv : a.Inv)
    (spares : ∀ isrc req, op = .receivePrepare isrc req →
      ∀ record, a.store.records req.iid = some record →
        record.values ≠ none → req.ballot < record.ballot)
    {ack : PaxosPromise} (sent : reply = some (.promise ack)) :
    ∃ record, ack = paxosAcceptedToPromise record ∧ record.aid = a.id ∧
      after.store.records record.iid = some record ∧
      (¬ a.Voted record.iid ∨
        (a.store.records record.iid = some record ∧
          record.values ≠ none)) := by
  cases outcome with
  | promised isrc req isPrepare above grants =>
      cases sent
      refine ⟨preparedRecord isrc a.id (a.found req.iid) req, rfl, rfl,
        a.records_setRecord_self _, Or.inl ?_⟩
      rintro (trimmed | ⟨record, present, valued⟩)
      · change req.iid ≤ a.trimIid at trimmed
        omega
      · have spared := spares isrc req isPrepare record present valued
        have granted := grants record present
        omega
  | refused isrc req record isPrepare above present _ =>
      cases sent
      have ok := (inv.record _ _ present).1
      rw [← ok.iid_eq] at present above
      refine ⟨record, rfl, ok.aid_eq, present, ?_⟩
      by_cases valued : record.values = none
      · left
        rintro (trimmed | ⟨other, otherAt, otherValued⟩)
        · omega
        · rw [present] at otherAt
          cases otherAt
          exact otherValued valued
      · exact Or.inr ⟨present, valued⟩
  | _ => cases sent

/-- What a promise is worth: its acceptor is shut below its ballot, or the
accept for that ballot was sent already. -/
def PromiseWorth (past : List NetworkTransition) (net : Network)
    (ack : PaxosPromise) : Prop :=
  ∃ aid ballot, ack.aids = [aid] ∧ ack.ballots = [ballot] ∧
    (Shut past net aid ack.iid ballot ∨
      ∃ out, .accept out ∈ net.sent ∧ out.iid = ack.iid ∧
        out.ballot = ballot)

theorem PromiseWorth.step
    {source target : Network} {op : NetworkOp} {result : NetworkResult}
    (trace : Trace (networkStep n) (networkNew n) past source)
    (stepEq : networkStep n source op = some (target, result))
    {ack : PaxosPromise} (worth : PromiseWorth past source ack) :
    PromiseWorth (past ++ [⟨source, op, result, target⟩]) target ack := by
  obtain ⟨aid, ballot, aids, ballots, shut | ⟨out, sent, rest⟩⟩ := worth
  · exact ⟨aid, ballot, aids, ballots, Or.inl (shut.step trace stepEq)⟩
  · exact ⟨aid, ballot, aids, ballots, Or.inr
      ⟨out, (networkStep_outcome stepEq).sent_mono sent, rest⟩⟩

/-- The worth of a new promise. -/
theorem promiseWorth_answer
    {source : Network}
    (trace : Trace (networkStep n) (networkNew n) past source)
    (spares : ∀ current ∈ past, current.source.sparesVotes current.input = true)
    {id : Nat} {call : MemCall} {a : MemAcceptor} {result : AcceptorResult}
    (outcome : Outcome (source.acceptors id) call.2 a result.sent)
    (spared : source.sparesVotes (.acceptor id call) = true)
    {ack : PaxosPromise} (sent : result.sent = some (.promise ack)) :
    PromiseWorth
      (past ++ [⟨source, .acceptor id call, .acceptor result,
        source.setAcceptor id a result.sent⟩])
      (source.setAcceptor id a result.sent) ack := by
  obtain ⟨inv, sameId⟩ := memAcceptor_trace_inv (acceptor_component trace id)
  obtain ⟨record, rfl, sameAid, present, unvoted | ⟨before, valued⟩⟩ :=
    outcome.promise_record inv (by
      intro isrc req isPrepare held present valued
      exact Network.ballot_lt_of_sparesVotes spared isPrepare present
        valued) sent
  · have holds : a.HoldsAtLeast record.iid record.ballot :=
      Or.inr ⟨record, present, Nat.le_refl _⟩
    refine ⟨record.aid, record.ballot, rfl, rfl, Or.inl ?_⟩
    rw [sameAid, sameId]
    refine ⟨?_, ?_⟩
    · simp only [Network.setAcceptor, Function.update_self]
      exact holds
    · intro req stored sameIid
      rcases stored_snoc stored with old | ⟨mem, isAccept, storedAt⟩
      · have voted := network_voted trace spares old
        rw [sameIid] at voted
        exact False.elim (unvoted voted)
      · simp only [Network.setAcceptor, Function.update_self] at storedAt
        exact ballot_le_of_stored (outcome.keeps_inv inv) holds storedAt
          sameIid
  · obtain ⟨req, equal, stored⟩ :=
      (network_backed trace).held id _ record before valued
    have asked := ((network_backed trace).asked id req stored).2
    refine ⟨record.aid, record.ballot, rfl, rfl, Or.inr
      ⟨req, List.mem_append_left _ asked, ?_, ?_⟩⟩
    · rw [equal]
      rfl
    · rw [equal]
      rfl

end Votes

/-- What is known of an instance that waits for promises. -/
structure Waits (past : List NetworkTransition) (net : Network) (id key : Nat)
    (inst : ProposerInstance) : Prop where
  owned : OwnedBallot id inst.ballot
  unsent : ∀ out, .accept out ∈ net.sent → OwnedBallot id out.ballot →
    out.iid = key → out.ballot < inst.ballot
  shut : ∀ aid ∈ inst.quorum.marked, Shut past net aid key inst.ballot

/-- What is known of an instance whose accept was sent. -/
structure Pends (net : Network) (id key : Nat) (inst : ProposerInstance) :
    Prop where
  owned : OwnedBallot id inst.ballot
  sent_le : ∀ out, .accept out ∈ net.sent → OwnedBallot id out.ballot →
    out.iid = key → out.ballot ≤ inst.ballot

section Proposers

variable {n : Nat} {past : List NetworkTransition} {net : Network} {id : Nat}

/-- A promise that is counted shuts its acceptor: the accept for the ballot of a
waiting instance was not sent yet. -/
theorem Waits.counts
    {key : Nat} {inst : ProposerInstance} (waits : Waits past net id key inst)
    {ack : PaxosPromise} (worth : PromiseWorth past net ack)
    (sameKey : ack.iid = key) {ii aid : Nat}
    (ballotAt : ack.ballots[ii]? = some inst.ballot)
    (aidAt : ack.aids[ii]? = some aid) :
    Shut past net aid key inst.ballot := by
  obtain ⟨sender, ballot, aids, ballots, either⟩ := worth
  rw [ballots] at ballotAt
  rw [aids] at aidAt
  cases ii with
  | succ ii => cases aidAt
  | zero =>
      cases aidAt
      cases ballotAt
      rcases either with shut | ⟨out, sent, outIid, outBallot⟩
      · rw [← sameKey]
        exact shut
      · have owned := waits.owned
        rw [← outBallot] at owned
        have below := waits.unsent out sent owned (outIid.trans sameKey)
        omega

/-- An entry of a promise keeps what is known of a waiting instance. -/
theorem Waits.entry
    {key : Nat} {inst changed : ProposerInstance}
    (waits : Waits past net id key inst)
    {ack : PaxosPromise} (worth : PromiseWorth past net ack)
    (sameKey : ack.iid = key) {clock : Nat → Int} {ii : Nat}
    {sent : Option PaxosPrepare}
    (room : ∀ ballot, ack.ballots[ii]? = some ballot →
      ballotFits inst ballot = true)
    (outcome : EntryOutcome id clock ack ii inst changed sent) :
    Waits past net id key changed := by
  obtain ⟨owned, grows, _⟩ := outcome.ballot waits.owned room
  refine ⟨owned, ?_, ?_⟩
  · intro out outSent outOwned sameIid
    exact (waits.unsent out outSent outOwned sameIid).trans_le grows
  · intro aid marked
    cases outcome with
    | stale _ _ _ => exact waits.shut aid marked
    | preempted _ _ _ =>
        rw [proposerPreempt, Quorum.marked_quorumClear] at marked
        cases marked
    | counted other value fresh quorum ballotAt aidAt _ added _ =>
        simp only [(Quorum.quorumAdd_spec added).2.1, Finset.mem_insert]
          at marked
        rcases marked with rfl | old
        · exact waits.counts worth sameKey ballotAt aidAt
        · exact waits.shut aid old
    | recorded other value fresh quorum valueBallot ballotAt aidAt _ added _ _
        _ =>
        simp only [(Quorum.quorumAdd_spec added).2.1, Finset.mem_insert]
          at marked
        rcases marked with rfl | old
        · exact waits.counts worth sameKey ballotAt aidAt
        · exact waits.shut aid old

/-- A step of a proposer keeps what is known of its instances. -/
theorem ProposerOutcome.waits
    {op : ProposerOp} {p : Proposer} {result : ProposerResult}
    (outcome : ProposerOutcome (net.proposers id) op p result)
    (small : id < maxNOfProposers) (sameId : (net.proposers id).id = id)
    (fits : (net.proposers id).fits op = true)
    (opened : ∀ out, .accept out ∈ net.sent → OwnedBallot id out.ballot →
      out.iid ≤ (net.proposers id).nextPrepareIid)
    (worth : ∀ clock ack, op = .receivePromise clock ack →
      PromiseWorth past net ack)
    (holds : (net.proposers id).Instances (Waits past net id)
      (Pends net id)) :
    p.Instances (Waits past net id) (Pends net id) := by
  refine outcome.instances holds ⟨?_, ?_, ?_, ?_, ?_, ?_, ?_⟩
  · intro now isPrepare _
    refine ⟨?_, ?_, ?_⟩
    · simp only [Proposer.freshInstance, sameId]
      exact ownedBallot_fresh small
    · intro out sent owned sameIid
      have early := opened out sent owned
      have fresh := opens_of_fits fits now isPrepare
      omega
    · intro aid marked
      simp [Proposer.freshInstance] at marked
  · intro clock ack ii inst changed sent isPromise waits room entryOutcome
    rw [sameId] at entryOutcome
    exact waits.entry (worth clock ack isPromise) rfl (room fits) entryOutcome
  · intro inst valued values out _ waits _ took _
    have sameBallot := (takeValue_iid took).2.1
    refine ⟨?_, ?_⟩
    · simpa only [sameBallot] using waits.owned
    · intro other sent owned sameIid
      simp only [sameBallot]
      exact Nat.le_of_lt (waits.unsent other sent owned sameIid)
  · intro _ _ inst _ _ _ pends _ _ _ _ _
    exact ⟨pends.owned, pends.sent_le⟩
  · intro now ack inst _ pends _ room
    rw [sameId]
    obtain ⟨owned, grows⟩ := pends.owned.next (room fits)
    refine ⟨owned, ?_, ?_⟩
    · intro out sent outOwned sameIid
      exact (pends.sent_le out sent outOwned sameIid).trans_lt grows
    · intro aid marked
      rw [proposerPreempt, Quorum.marked_quorumClear] at marked
      cases marked
  · intro _ inst _ waits
    exact ⟨waits.owned, waits.unsent, waits.shut⟩
  · intro _ inst _ pends
    exact ⟨pends.owned, pends.sent_le⟩

end Proposers

/-- Promises shut acceptors, and a majority is shut below every accept. -/
structure Orderly (n : Nat) (past : List NetworkTransition) (net : Network) :
    Prop where
  promises : ∀ ack, .promise ack ∈ net.sent → PromiseWorth past net ack
  waiting : ∀ id < maxNOfProposers, (net.proposers id).prepareInstances.All
    fun key inst => ∀ aid ∈ inst.quorum.marked,
      Shut past net aid key inst.ballot
  accepts : ∀ out, .accept out ∈ net.sent →
    ∃ voters, IsMajority (Finset.range n) voters ∧
      ∀ aid ∈ voters, Shut past net aid out.iid out.ballot

section Run

variable {n : Nat} {past : List NetworkTransition} {final : Network}

/-- What is known of the instances of a proposer in a run. -/
theorem Orderly.instances
    (orderly : Orderly n past final)
    (trace : Trace (networkStep n) (networkNew n) past final)
    {id : Nat} (small : id < maxNOfProposers) :
    (∀ out, .accept out ∈ final.sent → OwnedBallot id out.ballot →
      out.iid ≤ (final.proposers id).nextPrepareIid) ∧
    (final.proposers id).Instances (Waits past final id) (Pends final id) := by
  obtain ⟨_, numbered, sameId, _⟩ := proposer_facts trace small
  have ballots := numbered.owned
  rw [sameId] at ballots
  have settled : ∀ out, .accept out ∈ final.sent →
      OwnedBallot id out.ballot → (final.proposers id).Settled out := by
    intro out sent owned
    obtain ⟨owner, _, ownerOwned, settled⟩ :=
      (network_owned trace).settled out sent
    have sameOwner : owner = id := by
      rw [← ownerOwned.residue, ← owned.residue]
    rwa [sameOwner] at settled
  refine ⟨fun out sent owned => (settled out sent owned).opened, ?_, ?_⟩
  · intro key inst present
    refine ⟨ballots.prepare key inst present, ?_,
      orderly.waiting id small key inst present⟩
    intro out sent owned sameIid
    exact (settled out sent owned).instances.prepare key inst present
      sameIid.symm
  · intro key inst present
    refine ⟨ballots.accept key inst present, ?_⟩
    intro out sent owned sameIid
    rcases (settled out sent owned).instances.accept key inst present
      sameIid.symm with higher | stands
    · exact Nat.le_of_lt higher
    · exact Nat.le_of_eq (instanceToAccept_eq_some stands).2.2.1

/-- A majority is shut below the ballot of an accept that a proposer sends. -/
theorem Orderly.accept_sent
    (orderly : Orderly n past final)
    (trace : Trace (networkStep n) (networkNew n) past final)
    {id : Nat} (small : id < maxNOfProposers) {op : ProposerOp} {p : Proposer}
    {result : ProposerResult}
    (outcome : ProposerOutcome (final.proposers id) op p result)
    {out : PaxosAccept} (sent : result.sent = some (.accept out)) :
    ∃ voters, IsMajority (Finset.range n) voters ∧
      ∀ aid ∈ voters, Shut past final aid out.iid out.ballot := by
  obtain ⟨_, _, sameId, _⟩ := proposer_facts trace small
  rcases outcome.accept_sent sent with
    ⟨inst, valued, values, _, present, reached, took, toAccept⟩ |
    ⟨_, _, inst, _, present, toAccept⟩
  · obtain ⟨_, sameIid, sameBallot, _⟩ := instanceToAccept_eq_some toAccept
    rw [(takeValue_iid took).1] at sameIid
    rw [(takeValue_iid took).2.1] at sameBallot
    have counted := (proposer_pendingCounts
      (proposer_component trace id).unguarded).prepare _ _ present
    refine ⟨inst.quorum.marked, ?_, ?_⟩
    · rw [← counted]
      exact inst.quorum.reached_iff_isMajority.mp reached
    · rw [sameIid, sameBallot]
      exact orderly.waiting id small _ _ present
  · obtain ⟨other, otherToAccept, otherSent⟩ :=
      (network_owned trace).outstanding id _ _ present
    rw [sameId, otherToAccept] at toAccept
    cases toAccept
    exact orderly.accepts out otherSent

/-- Every step keeps the order of promises and accepts, where it spares accepted
values. -/
theorem Orderly.step
    {source target : Network} {op : NetworkOp} {result : NetworkResult}
    (orderly : Orderly n past source)
    (trace : Trace (networkStep n) (networkNew n) past source)
    (spares : ∀ current ∈ past, current.source.sparesVotes current.input = true)
    (stepEq : networkStep n source op = some (target, result))
    (spared : source.sparesVotes op = true) :
    Orderly n (past ++ [⟨source, op, result, target⟩]) target := by
  have outcome := networkStep_outcome stepEq
  have keepsShut : ∀ aid iid ballot, Shut past source aid iid ballot →
      Shut (past ++ [⟨source, op, result, target⟩]) target aid iid ballot :=
    fun _ _ _ => Shut.step trace stepEq
  have keepsWorth : ∀ ack, PromiseWorth past source ack →
      PromiseWorth (past ++ [⟨source, op, result, target⟩]) target ack :=
    fun _ => PromiseWorth.step trace stepEq
  have keepsMajority : ∀ out : PaxosAccept,
      (∃ voters, IsMajority (Finset.range n) voters ∧
        ∀ aid ∈ voters, Shut past source aid out.iid out.ballot) →
      ∃ voters, IsMajority (Finset.range n) voters ∧
        ∀ aid ∈ voters, Shut (past ++ [⟨source, op, result, target⟩]) target
          aid out.iid out.ballot := by
    rintro out ⟨voters, majority, shut⟩
    exact ⟨voters, majority, fun aid member =>
      keepsShut aid _ _ (shut aid member)⟩
  have keepsWaiting : ∀ id < maxNOfProposers,
      (source.proposers id).prepareInstances.All fun key inst =>
        ∀ aid ∈ inst.quorum.marked,
          Shut (past ++ [⟨source, op, result, target⟩]) target aid key
            inst.ballot := by
    intro id small key inst present aid marked
    exact keepsShut aid _ _ (orderly.waiting id small key inst present aid
      marked)
  have arrives : ∀ message ∈ target.sent,
      message ∈ source.sent ∨ result.sent = some message :=
    fun _ => outcome.mem_sent
  cases outcome with
  | learner id op l result _ _ _ =>
      exact ⟨fun ack sent => keepsWorth ack (orderly.promises ack sent),
        keepsWaiting,
        fun out sent => keepsMajority out (orderly.accepts out sent)⟩
  | acceptor id call a result _ _ _ ran =>
      obtain ⟨inv, _⟩ := memAcceptor_trace_inv (acceptor_component trace id)
      have stepped := memAcceptorStep_outcome inv ran
      refine ⟨?_, keepsWaiting, ?_⟩
      · intro ack sent
        rcases arrives _ sent with old | new
        · exact keepsWorth ack (orderly.promises ack old)
        · exact promiseWorth_answer trace spares stepped spared new
      · intro out sent
        rcases arrives _ sent with old | new
        · exact keepsMajority out (orderly.accepts out old)
        · exact False.elim (stepped.not_accept out new)
  | proposer id op p result small fits offered ran =>
      obtain ⟨keyed, _, sameId, _⟩ := proposer_facts trace small
      have stepped := proposerStep_outcome keyed ran
      obtain ⟨opened, holds⟩ := orderly.instances trace small
      refine ⟨?_, ?_, ?_⟩
      · intro ack sent
        rcases arrives _ sent with old | new
        · exact keepsWorth ack (orderly.promises ack old)
        · rcases stepped.sent_kind new with
            ⟨_, impossible⟩ | ⟨_, impossible⟩
          · cases impossible
          · cases impossible
      · intro other otherSmall
        by_cases own : other = id
        · subst own
          simp only [Network.setProposer, Function.update_self]
          have waits := stepped.waits small sameId fits opened (by
            rintro clock ack rfl
            exact orderly.promises ack (offered _ rfl)) holds
          intro key inst present aid marked
          exact keepsShut aid _ _
            ((waits.prepare key inst present).shut aid marked)
        · simp only [Network.setProposer, Function.update_of_ne own]
          exact keepsWaiting other otherSmall
      · intro out sent
        rcases arrives _ sent with old | new
        · exact keepsMajority out (orderly.accepts out old)
        · exact keepsMajority out
            (orderly.accept_sent trace small stepped new)

/-- Where accepted values are spared, a majority is shut below every accept, in
every run. -/
theorem network_orderly
    (trace : Trace (networkStep n) (networkNew n) past final)
    (spares : ∀ current ∈ past, current.source.sparesVotes current.input = true) :
    Orderly n past final := by
  induction trace with
  | nil =>
      refine ⟨?_, ?_, ?_⟩
      · intro ack sent
        cases sent
      · intro id _
        exact Table.All.empty
      · intro out sent
        cases sent
  | @snoc past source target op result trace stepEq inductionHypothesis =>
      have earlier : ∀ current ∈ past,
          current.source.sparesVotes current.input = true :=
        fun current member => spares current (List.mem_append_left _ member)
      exact (inductionHypothesis earlier).step trace earlier stepEq
        (spares _ (List.mem_append_right _ (List.mem_singleton_self _)))

def Votes (past : List NetworkTransition) (iid aid ballot : Nat)
    (value : PaxosValue) : Prop :=
  ∃ req : PaxosAccept, Stored past aid req ∧ req.iid = iid ∧
    req.ballot = ballot ∧ req.value = value

/-- Where accepted values are spared, at most one value is chosen in an
instance. -/
theorem votes_chosen_unique
    (trace : Trace (networkStep n) (networkNew n) past final)
    (spares : ∀ current ∈ past, current.source.sparesVotes current.input = true)
    {iid leftBallot rightBallot : Nat} {left right : PaxosValue}
    (leftChosen :
      Chosen (Finset.range n) (Votes past iid) leftBallot left)
    (rightChosen :
      Chosen (Finset.range n) (Votes past iid) rightBallot right) :
    left = right := by
  have backed := network_backed trace
  refine chosen_unique ?_ ?_ leftChosen rightChosen
  · rintro _ _ ballot _ _ ⟨first, firstStored, firstIid, firstBallot, rfl⟩
      ⟨second, secondStored, secondIid, secondBallot, rfl⟩
    rw [(network_owned trace).unique first second
      (backed.asked _ _ firstStored).2 (backed.asked _ _ secondStored).2
      (firstIid.trans secondIid.symm) (firstBallot.trans secondBallot.symm)]
  · rintro _ ballot _ ⟨req, stored, rfl, rfl, rfl⟩
    obtain ⟨voters, majority, shut⟩ :=
      (network_orderly trace spares).accepts req (backed.asked _ _ stored).2
    refine ⟨voters, majority, ?_⟩
    rintro voter member smaller below _ ⟨other, otherStored, sameIid, rfl, _⟩
    have bound := (shut voter member).votes other otherStored sameIid
    omega

/-- Only `learner_deliver_next` returns a record. -/
theorem learnerStep_returned
    {l after : Learner} {op : LearnerOp} {record : PaxosAccepted}
    (ran : learnerStep l op = some (after, some record)) :
    op = .deliverNext := by
  cases op with
  | deliverNext => rfl
  | receiveAccepted ack =>
      rw [learnerStep, Option.map_eq_some_iff] at ran
      obtain ⟨_, _, equal⟩ := ran
      cases equal

/-- A delivered value was chosen. -/
theorem delivery_chosen
    (trace : Trace (networkStep n) (networkNew n) past final)
    {id : Nat} {record : PaxosAccepted}
    (member : record ∈ delivered (past.filterMap (learnerPart id))) :
    ∃ ballot, Chosen (Finset.range n) (Votes past record.iid) ballot
      record.value := by
  unfold delivered at member
  rw [List.mem_filterMap] at member
  obtain ⟨own, ownMember, returned⟩ := member
  obtain ⟨_, _, _, _, ran⟩ :=
    (learner_component trace id).mem_split ownMember
  rw [returned] at ran
  have isDeliver := learnerStep_returned ran
  rw [List.mem_filterMap] at ownMember
  obtain ⟨current, currentMember, picked⟩ := ownMember
  obtain ⟨isLearner, output, _⟩ := learnerPart_eq_some picked
  obtain ⟨before, after, rfl⟩ := List.mem_iff_append.mp currentMember
  rw [returned] at output
  rw [isDeliver] at isLearner
  obtain ⟨aid, req, rfl, _, voters, enough, stored⟩ :=
    delivery_stored trace isLearner output
  refine ⟨req.ballot, voters, ⟨?_, ?_⟩, ?_⟩
  · intro voter voterMember
    exact Finset.mem_range.mpr (stored voter voterMember).1
  · rw [Finset.card_range]
    exact enough
  · intro voter voterMember
    exact ⟨req, (stored voter voterMember).2.append _, rfl, rfl, rfl⟩

/-- The instance ids and values that a learner has delivered, in order. -/
def deliveredBy (id : Nat) (past : List NetworkTransition) :
    List (Nat × PaxosValue) :=
  (delivered (past.filterMap (learnerPart id))).map fun record =>
    (record.iid, record.value)

/-- The deliveries of a learner are numbered from one. -/
theorem deliveredBy_numbered
    (trace : Trace (networkStep n) (networkNew n) past final) (id : Nat) :
    (deliveredBy id past).map Prod.fst =
      List.range' 1 (deliveredBy id past).length := by
  have numbered := (learner_trace_inv (learner_component trace id)
    (learner_ready trace id)).numbered
  unfold deliveredBy
  rw [List.map_map, List.length_map]
  exact numbered

/-- Two numbered lists that agree on every number are equal up to the shorter
one. -/
theorem take_eq_of_numbered
    {α : Type} {shorter longer : List (Nat × α)}
    (shorterNumbered : shorter.map Prod.fst =
      List.range' 1 shorter.length)
    (longerNumbered : longer.map Prod.fst = List.range' 1 longer.length)
    (agree : ∀ number left right, (number, left) ∈ shorter →
      (number, right) ∈ longer → left = right)
    (length : shorter.length ≤ longer.length) :
    shorter <+: longer := by
  have numberAt : ∀ (entries : List (Nat × α)),
      entries.map Prod.fst = List.range' 1 entries.length →
      ∀ index (bound : index < entries.length),
        entries[index].1 = 1 + index := by
    intro entries numbered index bound
    have mapped : (entries.map Prod.fst)[index]? = some (entries[index].1) := by
      rw [List.getElem?_map, List.getElem?_eq_getElem bound, Option.map_some]
    rw [numbered, List.getElem?_range' bound, Nat.one_mul] at mapped
    exact (Option.some.inj mapped).symm
  rw [List.prefix_iff_eq_take]
  refine List.ext_getElem ?_ ?_
  · rw [List.length_take]
    omega
  · intro index bound other
    rw [List.getElem_take]
    have inside : index < longer.length := by omega
    have sameNumber : shorter[index].1 = longer[index].1 := by
      rw [numberAt shorter shorterNumbered index bound,
        numberAt longer longerNumbered index inside]
    refine Prod.ext sameNumber ?_
    refine agree shorter[index].1 _ _ (List.getElem_mem bound) ?_
    rw [sameNumber]
    exact List.getElem_mem inside

/-- Where no step grants a prepare on a record that holds an accepted value, of
any two learners one has delivered what the other has, or only the first part
of it. -/
theorem learners_agree_when_votes_spared
    (trace : Trace (networkStep n) (networkNew n) past final)
    (spares : ∀ current ∈ past, current.source.sparesVotes current.input = true)
    (left right : Nat) :
    deliveredBy left past <+: deliveredBy right past ∨
      deliveredBy right past <+: deliveredBy left past := by
  have agree : ∀ first second number firstValue secondValue,
      (number, firstValue) ∈ deliveredBy first past →
      (number, secondValue) ∈ deliveredBy second past →
      firstValue = secondValue := by
    intro first second number firstValue secondValue firstMember secondMember
    unfold deliveredBy at firstMember secondMember
    rw [List.mem_map] at firstMember secondMember
    obtain ⟨firstRecord, firstDelivered, firstEq⟩ := firstMember
    obtain ⟨secondRecord, secondDelivered, secondEq⟩ := secondMember
    obtain ⟨_, firstChosen⟩ := delivery_chosen trace firstDelivered
    obtain ⟨_, secondChosen⟩ := delivery_chosen trace secondDelivered
    cases firstEq
    obtain ⟨sameIid, rfl⟩ := Prod.mk.inj secondEq
    rw [sameIid] at secondChosen
    exact votes_chosen_unique trace spares firstChosen secondChosen
  have leftNumbered := deliveredBy_numbered trace left
  have rightNumbered := deliveredBy_numbered trace right
  rcases Nat.le_total (deliveredBy left past).length
    (deliveredBy right past).length with shorter | shorter
  · exact Or.inl (take_eq_of_numbered leftNumbered rightNumbered
      (agree left right) shorter)
  · exact Or.inr (take_eq_of_numbered rightNumbered leftNumbered
      (agree right left) shorter)

/-- One acceptor and one proposer, whose value two learners deliver. -/
theorem learners_agree_when_votes_spared_both :
    ∃ past final,
      Trace (networkStep 1) (networkNew 1) past final ∧
      (∀ current ∈ past, current.source.sparesVotes current.input = true) ∧
      deliveredBy 0 past = [(1, ⟨[7]⟩)] ∧
      (deliveredBy 0 past <+: deliveredBy 1 past ∨
        deliveredBy 1 past <+: deliveredBy 0 past) := by
  obtain ⟨past, final, ran, tested, first⟩ : ∃ past final,
      Trace (networkStep 1) (networkNew 1) past final ∧
      (past.all fun current =>
        current.source.sparesVotes current.input) = true ∧
      deliveredBy 0 past = [(1, ⟨[7]⟩)] :=
    ⟨_, _, trace_of_runFrom _ _
      (soloRound 0 ⟨[7]⟩ 0 ++
        [.learner 1 (.receiveAccepted (soloAck 0 ⟨[7]⟩)),
          .learner 1 .deliverNext]) rfl, rfl, rfl⟩
  have spares := List.all_eq_true.mp tested
  exact ⟨past, final, ran, spares, first,
    learners_agree_when_votes_spared ran spares 0 1⟩

/-- A second proposer prepares the instance after its value was delivered: the
acceptor promises without reporting the value, and another learner delivers the
value of the second proposer for the same instance. -/
theorem learners_disagree_after_second_prepare :
    ∃ past final,
      Trace (networkStep 1) (networkNew 1) past final ∧
      deliveredBy 0 past = [(1, ⟨[7]⟩)] ∧
      deliveredBy 1 past = [(1, ⟨[8]⟩)] ∧
      ¬ (deliveredBy 0 past <+: deliveredBy 1 past ∨
        deliveredBy 1 past <+: deliveredBy 0 past) := by
  have ran :=
    trace_of_runFrom (networkStep 1) (networkNew 1)
      (soloRound 0 ⟨[7]⟩ 0 ++ soloRound 1 ⟨[8]⟩ 1) rfl
  refine ⟨_, _, ran, rfl, rfl, ?_⟩
  change ¬ ([(1, ⟨[7]⟩)] <+: [(1, (⟨[8]⟩ : PaxosValue))] ∨
    [(1, (⟨[8]⟩ : PaxosValue))] <+: [(1, ⟨[7]⟩)])
  decide

end Run

end LibPaxos

import LibPaxos.Network.Agreement

/-!
# One proposer with values

Where only one proposer is given values, and instances are opened only while
values wait in the queue, no other proposer ever sends a message.  So every
ballot in the group is the first one of that proposer, no request is refused, and
an instance has a single accept.  Then learners agree, although an acceptor drops
the value of a record when a prepare comes again.
-/

namespace LibPaxos

open LibPaxos.Library

/-- Whether the call does not propose a value to another proposer. -/
def NetworkOp.proposesOnly (r : Nat) : NetworkOp → Bool
  | .proposer id (.propose _) => decide (id = r)
  | _ => true

/-- Whether the call does not open an instance without a value that waits in the
queue. -/
def Network.opensForValues (net : Network) : NetworkOp → Bool
  | .proposer id (.prepare _) => !carrayEmpty (net.proposers id).values.val
  | _ => true

/-! ### Proposers without values -/

/-- A proposer without values and without instances. -/
structure Proposer.Unused (p : Proposer) : Prop where
  values : carrayEmpty p.values.val = true
  prepare : p.prepareInstances.entries = []
  accept : p.acceptInstances.entries = []

namespace Proposer.Unused

variable {p : Proposer} (unused : p.Unused) (key : Nat)

include unused

theorem prepare_absent {inst : ProposerInstance} :
    p.prepareInstances.get key ≠ some inst := by
  intro present
  have member := Table.get_eq_some_iff.mp present
  rw [unused.prepare] at member
  cases member

theorem accept_absent {inst : ProposerInstance} :
    p.acceptInstances.get key ≠ some inst := by
  intro present
  have member := Table.get_eq_some_iff.mp present
  rw [unused.accept] at member
  cases member

end Proposer.Unused

theorem proposerNew_unused (id acceptors : Nat) :
    (proposerNew id acceptors).Unused :=
  ⟨rfl, rfl, rfl⟩

/-- Without a new value and without a new instance a proposer stays unused and
sends nothing. -/
theorem ProposerOutcome.unused
    {p after : Proposer} {op : ProposerOp} {result : ProposerResult}
    (outcome : ProposerOutcome p op after result) (unused : p.Unused)
    (notPropose : ∀ value, op ≠ .propose value)
    (notPrepare : ∀ now, op ≠ .prepare now) :
    after.Unused ∧ result.sent = none := by
  cases outcome with
  | idle _ => exact ⟨unused, rfl⟩
  | noted _ _ =>
      exact ⟨⟨unused.values, unused.prepare, unused.accept⟩, rfl⟩
  | proposed value isPropose => exact absurd isPropose (notPropose value)
  | prepared now table isPrepare _ _ =>
      exact absurd isPrepare (notPrepare now)
  | promised _ ack _ _ _ _ present _ =>
      exact absurd present (unused.prepare_absent _)
  | accepted _ _ _ _ _ _ present _ _ _ _ =>
      exact absurd present (unused.prepare_absent _)
  | counted _ _ _ _ _ present _ _ _ _ =>
      exact absurd present (unused.accept_absent _)
  | closed _ _ _ _ _ _ _ present _ _ _ _ _ =>
      exact absurd present (unused.accept_absent _)
  | preempted _ _ _ _ _ present _ _ _ =>
      exact absurd present (unused.accept_absent _)
  | trimmed maxTrimIid iid _ _ =>
      refine ⟨⟨?_, ?_, ?_⟩, rfl⟩
      · change carrayEmpty (p.trimmedValues iid).val = true
        rw [Proposer.trimmedValues, unused.prepare, unused.accept]
        exact unused.values
      · change p.prepareInstances.entries.filter _ = []
        rw [unused.prepare]
        rfl
      · change p.acceptInstances.entries.filter _ = []
        rw [unused.accept]
        rfl
  | resentPrepare _ _ _ _ present =>
      exact absurd present (unused.prepare_absent _)
  | resentAccept _ _ _ _ _ present _ =>
      exact absurd present (unused.accept_absent _)
  | rehashed prepareInstances acceptInstances _ permPrepare permAccept =>
      rw [unused.prepare] at permPrepare
      rw [unused.accept] at permAccept
      exact ⟨⟨unused.values, permPrepare.eq_nil, permAccept.eq_nil⟩, rfl⟩

/-! ### One ballot -/

/-- All instances of a proposer have the ballot. -/
abbrev Proposer.AtBallot (p : Proposer) (ballot : Nat) : Prop :=
  p.Instances (fun _ inst => inst.ballot = ballot)
    (fun _ inst => inst.ballot = ballot)

/-- The ballot of a message is the given one; there is no preempted. -/
def PaxosMessage.HasBallot (ballot : Nat) : PaxosMessage → Prop
  | .prepare out => out.ballot = ballot
  | .accept out => out.ballot = ballot
  | .promise ack => ∀ other ∈ ack.ballots, other = ballot
  | .preempted _ => False
  | _ => True

section Ballot

variable {p after : Proposer} {op : ProposerOp} {result : ProposerResult}
  {ballot : Nat}

/-- An entry with the ballot of the instance does not preempt it. -/
theorem EntryOutcome.keeps_ballot
    {id : Nat} {clock : Nat → Int} {ack : PaxosPromise} {ii : Nat}
    {inst changed : ProposerInstance} {sent : Option PaxosPrepare}
    (outcome : EntryOutcome id clock ack ii inst changed sent)
    (same : ∀ other ∈ ack.ballots, other = inst.ballot) :
    changed.ballot = inst.ballot ∧ sent = none := by
  cases outcome with
  | preempted other ballotAt higher =>
      have equal := same other (List.mem_of_getElem? ballotAt)
      omega
  | stale _ _ _ => exact ⟨rfl, rfl⟩
  | counted _ _ _ _ _ _ _ _ _ => exact ⟨rfl, rfl⟩
  | recorded _ _ _ _ _ _ _ _ _ _ _ _ => exact ⟨rfl, rfl⟩

/-- A call on messages with the ballot keeps it for all instances. -/
theorem ProposerOutcome.atBallot
    (outcome : ProposerOutcome p op after result) (holds : p.AtBallot ballot)
    (first : proposerNextBallot p.id 0 = ballot)
    (received : ∀ message, op.received = some message →
      message.HasBallot ballot) :
    after.AtBallot ballot := by
  refine outcome.instances holds ⟨?_, ?_, ?_, ?_, ?_, ?_, ?_⟩
  · intro _ _ _
    exact first
  · intro clock ack ii inst changed sent isPromise held _ entryOutcome
    subst isPromise
    have same := received _ rfl
    rw [← held] at same
    exact (entryOutcome.keeps_ballot same).1.trans held
  · intro inst valued values out _ held _ took _
    exact (takeValue_iid took).2.1.trans held
  · intro _ _ _ _ _ _ held _ _ _ _ _
    exact held
  · intro now ack inst isPreempted _ _ _
    subst isPreempted
    exact False.elim (received _ rfl)
  · intro _ _ _ held
    exact held
  · intro _ _ _ held
    exact held

/-- What a call on messages with the ballot sends has it too. -/
theorem ProposerOutcome.sends_ballot
    (outcome : ProposerOutcome p op after result) (holds : p.AtBallot ballot)
    (first : proposerNextBallot p.id 0 = ballot)
    (received : ∀ message, op.received = some message →
      message.HasBallot ballot)
    {message : PaxosMessage} (sent : result.sent = some message) :
    message.HasBallot ballot := by
  cases outcome with
  | prepared _ _ _ _ _ =>
      cases sent
      exact first
  | promised clock ack inst changed out isPromise present looped =>
      -- No entry of the promise preempts the instance, so nothing is sent.
      subst isPromise
      have same := received _ rfl
      have quiet := promiseLoop_invariant False
        (fun inst out => inst.ballot = ballot ∧ out = none)
        (by
          rintro ii inst out changed sent ⟨held, rfl⟩ _ entryOutcome
          rw [← held] at same
          obtain ⟨kept, silent⟩ := entryOutcome.keeps_ballot same
          exact ⟨kept.trans held, by rw [silent]; rfl⟩)
        _ ⟨holds.prepare _ _ present, rfl⟩ False.elim looped
      rw [quiet.2] at sent
      cases sent
  | accepted inst valued values table out isAccept present reached took
      toAccept _ =>
      cases sent
      exact ((instanceToAccept_eq_some toAccept).2.2.1.trans
        (takeValue_iid took).2.1).trans (holds.prepare _ _ present)
  | preempted now ack _ _ isPreempted _ _ _ _ =>
      subst isPreempted
      exact False.elim (received _ rfl)
  | resentPrepare _ _ inst _ present =>
      cases sent
      exact holds.prepare _ _ present
  | resentAccept _ _ inst out _ present toAccept =>
      cases sent
      exact (instanceToAccept_eq_some toAccept).2.2.1.trans
        (holds.accept _ _ present)
  | _ => cases sent

end Ballot

/-- All records of an acceptor have the ballot. -/
def MemAcceptor.AtBallot (a : MemAcceptor) (ballot : Nat) : Prop :=
  ∀ iid record, a.store.records iid = some record → record.ballot = ballot

/-- A flat call on messages with the ballot stores records with it and replies
with it. -/
theorem Outcome.atBallot
    {a after : MemAcceptor} {op : AcceptorOp} {reply : Option PaxosMessage}
    {ballot : Nat} (outcome : Outcome a op after reply) (inv : a.Inv)
    (flat : op.flat = true) (holds : a.AtBallot ballot)
    (received : ∀ message, op.received = some message →
      message.HasBallot ballot) :
    after.AtBallot ballot ∧
      ∀ message, reply = some message → message.HasBallot ballot := by
  have kept : after.AtBallot ballot := by
    intro key record present
    have change := outcome.record inv key
    rw [present] at change
    generalize stored : some record = now at change
    cases change with
    | kept => exact holds key record stored.symm
    | prepared isrc req isPrepare _ _ _ =>
        subst isPrepare
        cases stored
        exact received _ rfl
    | accepted req isAccept _ _ _ =>
        subst isAccept
        cases stored
        exact received _ rfl
    | relayed _ _ isRelay _ _ =>
        exact False.elim (isRelay (relayed_of_flat flat))
    | trimmed _ => cases stored
  refine ⟨kept, ?_⟩
  intro message sent
  cases outcome with
  | promised isrc req isPrepare _ _ =>
      subst isPrepare
      cases sent
      intro other member
      rw [List.mem_singleton.mp member]
      exact received _ rfl
  | refused isrc req record _ _ present _ =>
      cases sent
      intro other member
      rw [List.mem_singleton.mp member]
      exact holds _ _ present
  | preempted req record isAccept _ present smaller =>
      subst isAccept
      have asked : req.ballot = ballot := received _ rfl
      have found := holds _ _ present
      omega
  | accepted _ _ _ _ =>
      cases sent
      exact True.intro
  | repeated _ _ _ _ _ _ =>
      cases sent
      exact True.intro
  | _ => cases sent

/-! ### Runs -/

/-- Only one proposer is used, and the group knows only its first ballot. -/
structure Sole (r : Nat) (net : Network) : Prop where
  unused : ∀ id, id ≠ r → (net.proposers id).Unused
  instances : (net.proposers r).AtBallot (proposerNextBallot r 0)
  records : ∀ id, (net.acceptors id).AtBallot (proposerNextBallot r 0)
  sent : ∀ message ∈ net.sent, message.HasBallot (proposerNextBallot r 0)

section Run

variable {n r : Nat} {past : List NetworkTransition} {final : Network}

theorem Sole.step
    {source target : Network} {op : NetworkOp} {result : NetworkResult}
    (trace : Trace (networkStep n) (networkNew n) past source)
    (sole : Sole r source)
    (stepEq : networkStep n source op = some (target, result))
    (only : op.proposesOnly r = true) (opens : source.opensForValues op = true) :
    Sole r target := by
  have outcome := networkStep_outcome stepEq
  have received : ∀ message, op.received = some message →
      message.HasBallot (proposerNextBallot r 0) :=
    fun message taken => sole.sent message (outcome.offered taken)
  have arrives : (∀ message, result.sent = some message →
      message.HasBallot (proposerNextBallot r 0)) →
      ∀ message ∈ target.sent,
        message.HasBallot (proposerNextBallot r 0) := by
    intro fresh message member
    rcases outcome.mem_sent member with old | new
    · exact sole.sent message old
    · exact fresh message new
  cases outcome with
  | learner id op l result _ _ _ =>
      exact ⟨sole.unused, sole.instances, sole.records, sole.sent⟩
  | acceptor id call a result _ flat _ ran =>
      have inv := (memAcceptor_trace_inv (acceptor_component trace id)).1
      obtain ⟨kept, replies⟩ := (memAcceptorStep_outcome inv ran).atBallot inv
        flat (sole.records id) received
      refine ⟨sole.unused, sole.instances, ?_, arrives replies⟩
      intro other
      by_cases own : other = id
      · subst own
        simp only [Network.setAcceptor, Function.update_self]
        exact kept
      · simp only [Network.setAcceptor, Function.update_of_ne own]
        exact sole.records other
  | proposer id op p result small _ _ ran =>
      obtain ⟨keyed, _, sameId, _⟩ := proposer_facts trace small
      have outcome := proposerStep_outcome keyed ran
      by_cases own : id = r
      · subst own
        have first : proposerNextBallot (source.proposers id).id 0 =
            proposerNextBallot id 0 := by
          rw [sameId]
        have kept := outcome.atBallot sole.instances first received
        refine ⟨?_, ?_, sole.records, arrives fun message sent =>
          outcome.sends_ballot sole.instances first received sent⟩
        · intro other different
          simp only [Network.setProposer, Function.update_of_ne different]
          exact sole.unused other different
        · simp only [Network.setProposer, Function.update_self]
          exact kept
      · have unused := sole.unused id own
        obtain ⟨kept, silent⟩ := outcome.unused unused
          (by
            rintro value rfl
            exact own (of_decide_eq_true only))
          (by
            rintro now rfl
            rw [Network.opensForValues, unused.values] at opens
            cases opens)
        refine ⟨?_, ?_, sole.records, arrives ?_⟩
        · intro other different
          by_cases same : other = id
          · subst same
            simp only [Network.setProposer, Function.update_self]
            exact kept
          · simp only [Network.setProposer, Function.update_of_ne same]
            exact sole.unused other different
        · simp only [Network.setProposer,
            Function.update_of_ne (Ne.symm own)]
          exact sole.instances
        · intro message sent
          change result.sent = some message at sent
          rw [silent] at sent
          cases sent

theorem network_sole
    (trace : Trace (networkStep n) (networkNew n) past final)
    (only : ∀ current ∈ past, current.input.proposesOnly r = true)
    (opens : ∀ current ∈ past,
      current.source.opensForValues current.input = true) :
    Sole r final := by
  induction trace with
  | nil =>
      refine ⟨?_, proposerNew_instances r n _ _, ?_, ?_⟩
      · intro id _
        exact proposerNew_unused id n
      · intro id iid record present
        cases present
      · intro message sent
        cases sent
  | snoc trace stepEq inductionHypothesis =>
      rw [List.forall_mem_append, List.forall_mem_singleton] at only opens
      exact (inductionHypothesis only.1 opens.1).step trace stepEq only.2
        opens.2

/-- An instance has a single accept. -/
theorem Sole.accept_unique
    (sole : Sole r final)
    (trace : Trace (networkStep n) (networkNew n) past final)
    {left right : PaxosAccept} (leftSent : .accept left ∈ final.sent)
    (rightSent : .accept right ∈ final.sent) (sameIid : left.iid = right.iid) :
    left = right := by
  have leftBallot : left.ballot = _ := sole.sent _ leftSent
  have rightBallot : right.ballot = _ := sole.sent _ rightSent
  exact (network_owned trace).unique left right leftSent rightSent sameIid
    (leftBallot.trans rightBallot.symm)

/-- What a learner has delivered was stored by a majority. -/
theorem deliveredBy_stored
    (trace : Trace (networkStep n) (networkNew n) past final)
    {id iid : Nat} {value : PaxosValue}
    (member : (iid, value) ∈ deliveredBy id past) :
    ∃ req : PaxosAccept, req.iid = iid ∧ req.value = value ∧
      ∃ voters : Finset Nat, n / 2 + 1 ≤ voters.card ∧
        ∀ voter ∈ voters, voter < n ∧ Stored past voter req := by
  unfold deliveredBy at member
  obtain ⟨record, isDelivered, same⟩ := List.mem_map.mp member
  cases same
  obtain ⟨own, ownMember, returned⟩ := List.mem_filterMap.mp isDelivered
  obtain ⟨_, _, _, _, ran⟩ :=
    (learner_component trace id).mem_split ownMember
  rw [returned] at ran
  have isDeliver := learnerStep_returned ran
  obtain ⟨current, currentMember, picked⟩ := List.mem_filterMap.mp ownMember
  obtain ⟨isLearner, output, _⟩ := learnerPart_eq_some picked
  obtain ⟨before, after, rfl⟩ := List.mem_iff_append.mp currentMember
  rw [returned] at output
  rw [isDeliver] at isLearner
  obtain ⟨aid, req, rfl, _, voters, enough, stored⟩ :=
    delivery_stored trace isLearner output
  refine ⟨req, rfl, rfl, voters, enough, ?_⟩
  intro voter isVoter
  obtain ⟨bound, isStored⟩ := stored voter isVoter
  exact ⟨bound, isStored.append _⟩

/-- A delivered value is that of an accept for its instance. -/
theorem deliveredBy_accept
    (trace : Trace (networkStep n) (networkNew n) past final)
    {id iid : Nat} {value : PaxosValue}
    (member : (iid, value) ∈ deliveredBy id past) :
    ∃ out, .accept out ∈ final.sent ∧ out.iid = iid ∧ out.value = value := by
  obtain ⟨req, sameIid, sameValue, voters, enough, stored⟩ :=
    deliveredBy_stored trace member
  obtain ⟨voter, isVoter⟩ := Finset.card_pos.mp
    (Nat.lt_of_lt_of_le (Nat.succ_pos _) enough)
  exact ⟨req, ((network_backed trace).asked voter req
    (stored voter isVoter).2).2, sameIid, sameValue⟩

/-- Of any two learners one has delivered what the other has, or only the first
part of it. -/
theorem Sole.deliveries_comparable
    (sole : Sole r final)
    (trace : Trace (networkStep n) (networkNew n) past final)
    (left right : Nat) :
    deliveredBy left past <+: deliveredBy right past ∨
      deliveredBy right past <+: deliveredBy left past := by
  have agree : ∀ first second number firstValue secondValue,
      (number, firstValue) ∈ deliveredBy first past →
      (number, secondValue) ∈ deliveredBy second past →
      firstValue = secondValue := by
    intro first second number firstValue secondValue firstMember secondMember
    obtain ⟨firstOut, firstSent, firstIid, rfl⟩ :=
      deliveredBy_accept trace firstMember
    obtain ⟨secondOut, secondSent, secondIid, rfl⟩ :=
      deliveredBy_accept trace secondMember
    have same := sole.accept_unique trace firstSent
      secondSent (firstIid.trans secondIid.symm)
    rw [same]
  have leftNumbered := deliveredBy_numbered trace left
  have rightNumbered := deliveredBy_numbered trace right
  rcases Nat.le_total (deliveredBy left past).length
    (deliveredBy right past).length with shorter | shorter
  · exact Or.inl (take_eq_of_numbered leftNumbered rightNumbered
      (agree left right) shorter)
  · exact Or.inr (take_eq_of_numbered rightNumbered leftNumbered
      (agree right left) shorter)

/-- Where values are proposed to one proposer only, and instances are opened
only while values wait, of any two learners one has delivered what the other
has, or only the first part of it. -/
theorem learners_agree_with_one_proposer
    (trace : Trace (networkStep n) (networkNew n) past final)
    (only : ∀ current ∈ past, current.input.proposesOnly r = true)
    (opens : ∀ current ∈ past,
      current.source.opensForValues current.input = true)
    (left right : Nat) :
    deliveredBy left past <+: deliveredBy right past ∨
      deliveredBy right past <+: deliveredBy left past :=
  (network_sole trace only opens).deliveries_comparable trace left right

/-- Three acceptors and one proposer; the prepare comes again after two of them
have accepted the value, and two learners deliver it. -/
theorem learners_agree_with_one_proposer_both :
    ∃ past final,
      Trace (networkStep 3) (networkNew 3) past final ∧
      deliveredBy 0 past = [(1, ⟨[7]⟩)] ∧
      (deliveredBy 0 past <+: deliveredBy 1 past ∨
        deliveredBy 1 past <+: deliveredBy 0 past) := by
  obtain ⟨past, final, ran, first, only, opens⟩ : ∃ past final,
      Trace (networkStep 3) (networkNew 3) past final ∧
      deliveredBy 0 past = [(1, ⟨[7]⟩)] ∧
      (past.all fun current => current.input.proposesOnly 0) = true ∧
      (past.all fun current =>
        current.source.opensForValues current.input) = true :=
    ⟨_, _, trace_of_runFrom _ _
      (majorityRound 0 ⟨[7]⟩ 0 ++
        [.acceptor 0 (Memory.zero,
            .receivePrepare 0 ⟨0, 1, maxNOfProposers⟩),
          .learner 1 (.receiveAccepted (majorityAck 0 0 ⟨[7]⟩)),
          .learner 1 (.receiveAccepted (majorityAck 1 0 ⟨[7]⟩)),
          .learner 1 .deliverNext]) rfl, rfl, rfl, rfl⟩
  rw [List.all_eq_true] at only opens
  exact ⟨past, final, ran, first,
    learners_agree_with_one_proposer ran only opens 0 1⟩

end Run

end LibPaxos

import LibPaxos.Proposer.Tables

/-!
# Ballots of proposers

As long as no ballot passes the top of its type, the ballots of a proposer are
congruent to its id modulo `MAX_N_OF_PROPOSERS` and grow on every preemption, and
the ids of instances are used once.  An accept that was sent stays settled: its
instance either still carries the same accept, or has a higher ballot, or is
gone for good.
-/

namespace LibPaxos

open LibPaxos.Library

/-- A ballot of the proposer with the given id. -/
structure OwnedBallot (id ballot : Nat) : Prop where
  positive : 0 < ballot
  residue : ballot % maxNOfProposers = id

theorem proposerNextBallot_zero
    {id : Nat} (small : id < maxNOfProposers) :
    proposerNextBallot id 0 = maxNOfProposers + id := by
  unfold maxNOfProposers at small
  rw [proposerNextBallot, if_neg (Nat.lt_irrefl 0), word32_of_lt]
  unfold maxNOfProposers
  omega

theorem ownedBallot_fresh
    {id : Nat} (small : id < maxNOfProposers) :
    OwnedBallot id (proposerNextBallot id 0) := by
  rw [proposerNextBallot_zero small]
  refine ⟨?_, ?_⟩
  · unfold maxNOfProposers
    omega
  · rw [Nat.add_mod_left, Nat.mod_eq_of_lt small]

/-- A preemption raises an owned ballot to a higher owned ballot. -/
theorem OwnedBallot.next
    {id ballot : Nat} (owned : OwnedBallot id ballot)
    (room : maxNOfProposers + ballot < 2 ^ 32) :
    OwnedBallot id (proposerNextBallot id ballot) ∧
      ballot < proposerNextBallot id ballot := by
  rw [proposerNextBallot, if_pos owned.positive, word32_of_lt room]
  refine ⟨⟨?_, ?_⟩, ?_⟩
  · exact Nat.lt_of_lt_of_le owned.positive (Nat.le_add_left _ _)
  · rw [Nat.add_mod_left]
    exact owned.residue
  · unfold maxNOfProposers
    omega

/-- An entry of a promise keeps the ballot, or raises it. -/
theorem EntryOutcome.ballot
    {id : Nat} {clock : Nat → Int} {ack : PaxosPromise} {ii : Nat}
    {inst result : ProposerInstance} {sent : Option PaxosPrepare}
    (outcome : EntryOutcome id clock ack ii inst result sent)
    (owned : OwnedBallot id inst.ballot)
    (room : ∀ ballot, ack.ballots[ii]? = some ballot →
      ballotFits inst ballot = true) :
    OwnedBallot id result.ballot ∧ inst.ballot ≤ result.ballot ∧
      (sent = none → result.ballot = inst.ballot) ∧
      ∀ prepare, sent = some prepare →
        prepare = ⟨id, result.iid, result.ballot⟩ := by
  cases outcome with
  | stale _ _ _ => exact ⟨owned, Nat.le_refl _, fun _ => rfl, nofun⟩
  | preempted ballot ballotAt higher =>
      obtain ⟨next, greater⟩ :=
        owned.next (ballotFits_of_lt (room ballot ballotAt) higher)
      refine ⟨next, Nat.le_of_lt greater, nofun, ?_⟩
      intro prepare same
      cases same
      rfl
  | counted _ _ _ _ _ _ _ _ _ =>
      exact ⟨owned, Nat.le_refl _, fun _ => rfl, nofun⟩
  | recorded _ _ _ _ _ _ _ _ _ _ _ _ =>
      exact ⟨owned, Nat.le_refl _, fun _ => rfl, nofun⟩

namespace Proposer

/-- Instances are numbered up to `next_prepare_iid`, lie in one table each and
have owned ballots. -/
structure Numbered (p : Proposer) : Prop where
  small : p.id < maxNOfProposers
  disjoint : p.Disjoint
  bounded : p.Instances (fun key _ => key ≤ p.nextPrepareIid)
    (fun key _ => key ≤ p.nextPrepareIid)
  owned : p.Instances (fun _ inst => OwnedBallot p.id inst.ballot)
    (fun _ inst => OwnedBallot p.id inst.ballot)

end Proposer

section Step

variable {p after : Proposer} {op : ProposerOp} {result : ProposerResult}
variable (outcome : ProposerOutcome p op after result)

theorem opens_of_fits (fits : p.fits op = true) : p.Opens op := by
  intro now isPrepare
  subst isPrepare
  simp only [Proposer.fits, decide_eq_true_eq] at fits
  exact word32_of_lt fits

include outcome in
theorem ProposerOutcome.numbered
    (numbered : p.Numbered) (fits : p.fits op = true) :
    after.Numbered := by
  have sameId := outcome.id_eq.1
  have opens := opens_of_fits fits
  refine ⟨?_, outcome.disjoint numbered.disjoint numbered.bounded opens,
    outcome.bounded numbered.bounded opens, ?_⟩
  · rw [sameId]
    exact numbered.small
  · rw [sameId]
    refine outcome.instances numbered.owned ⟨?_, ?_, ?_, ?_, ?_, ?_, ?_⟩
    · intro _ _ _
      exact ownedBallot_fresh numbered.small
    · intro _ _ _ _ _ _ _ owned room entryOutcome
      exact (entryOutcome.ballot owned (room fits)).1
    · intro inst valued _ _ _ owned _ took _
      have sameBallot := (takeValue_iid took).2.1
      simpa only [sameBallot] using owned
    · intro _ _ _ _ _ _ owned _ _ _ _ _
      exact owned
    · intro _ _ _ _ owned _ room
      exact (owned.next (room fits)).1
    · intro _ _ _ owned
      exact owned
    · intro _ _ _ owned
      exact owned

/-- The accept has been sent and cannot be contradicted: its instance either
still stands for it, or has a higher ballot, or is not there any more. -/
structure Proposer.Settled (p : Proposer) (out : PaxosAccept) : Prop where
  opened : out.iid ≤ p.nextPrepareIid
  instances : p.Instances
    (fun key inst => key = out.iid → out.ballot < inst.ballot)
    (fun key inst => key = out.iid →
      out.ballot < inst.ballot ∨ instanceToAccept p.id inst = some out)

include outcome in
theorem ProposerOutcome.settled
    (numbered : p.Numbered) (fits : p.fits op = true) {out : PaxosAccept}
    (settled : p.Settled out) :
    after.Settled out := by
  refine ⟨settled.opened.trans (outcome.next_le (opens_of_fits fits)), ?_⟩
  rw [outcome.id_eq.1]
  have both : p.Instances
      (fun key inst => OwnedBallot p.id inst.ballot ∧
        (key = out.iid → out.ballot < inst.ballot))
      (fun key inst => OwnedBallot p.id inst.ballot ∧ (key = out.iid →
        out.ballot < inst.ballot ∨
          instanceToAccept p.id inst = some out)) :=
    ⟨fun key inst present => ⟨numbered.owned.prepare key inst present,
        settled.instances.prepare key inst present⟩,
      fun key inst present => ⟨numbered.owned.accept key inst present,
        settled.instances.accept key inst present⟩⟩
  have kept := outcome.instances both ?_
  · exact ⟨fun key inst present => (kept.prepare key inst present).2,
      fun key inst present => (kept.accept key inst present).2⟩
  constructor
  · intro now isPrepare _
    refine ⟨ownedBallot_fresh numbered.small, ?_⟩
    intro same
    have opened := opens_of_fits fits now isPrepare
    have before := settled.opened
    omega
  · rintro _ ack _ inst result _ _ ⟨owned, higher⟩ room entryOutcome
    obtain ⟨nextOwned, grows, _⟩ := entryOutcome.ballot owned (room fits)
    exact ⟨nextOwned, fun same => (higher same).trans_le grows⟩
  · rintro inst valued _ _ _ ⟨owned, higher⟩ _ took _
    have sameBallot := (takeValue_iid took).2.1
    simp only [sameBallot]
    exact ⟨owned, fun same => Or.inl (higher same)⟩
  · rintro _ _ inst _ quorum _ ⟨owned, held⟩ _ _ _ _ _
    exact ⟨owned, held⟩
  · rintro now _ inst _ ⟨owned, held⟩ _ room
    obtain ⟨nextOwned, grows⟩ := owned.next (room fits)
    refine ⟨nextOwned, ?_⟩
    intro same
    rcases held same with higher | still
    · exact higher.trans grows
    · rw [(instanceToAccept_eq_some still).2.2.1]
      exact grows
  · rintro _ inst _ ⟨owned, held⟩
    exact ⟨owned, held⟩
  · rintro _ inst _ ⟨owned, held⟩
    exact ⟨owned, held⟩

include outcome in
/-- An accept is settled once it is sent. -/
theorem ProposerOutcome.settled_of_sent
    (numbered : p.Numbered) {out : PaxosAccept}
    (sent : result.sent = some (.accept out)) :
    after.Settled out := by
  cases outcome with
  | accepted inst valued values table accept isAccept present reached took
      toAccept inserted =>
      cases sent
      obtain ⟨_, sameIid, _, _⟩ := instanceToAccept_eq_some toAccept
      rw [(takeValue_iid took).1] at sameIid
      refine ⟨?_, ?_, ?_⟩
      · rw [sameIid]
        exact numbered.bounded.prepare _ _ present
      · intro key found foundAt same
        rw [same, sameIid, Table.get_erase_self] at foundAt
        cases foundAt
      · intro key found foundAt same
        simp only [Table.get_insertNew inserted] at foundAt
        rw [if_pos (same.trans sameIid)] at foundAt
        cases foundAt
        exact Or.inr toAccept
  | resentAccept proposerTimeout iter inst accept _ present toAccept =>
      cases sent
      obtain ⟨_, sameIid, _, _⟩ := instanceToAccept_eq_some toAccept
      refine ⟨?_, ?_, ?_⟩
      · rw [sameIid]
        exact numbered.bounded.accept _ _ present
      · intro key found foundAt same
        rw [same, sameIid] at foundAt
        exact False.elim (numbered.disjoint _ _ _ foundAt present)
      · intro key found foundAt same
        simp only [same, sameIid, Table.get_set_self _ present,
          Option.some.injEq] at foundAt
        subst foundAt
        exact Or.inr toAccept
  | promised clock ack inst changed prepare _ _ _ =>
      cases prepare <;> cases sent
  | _ => cases sent

include outcome in
theorem ProposerOutcome.accept_owned
    (numbered : p.Numbered) {out : PaxosAccept}
    (sent : result.sent = some (.accept out)) :
    OwnedBallot p.id out.ballot := by
  rcases outcome.accept_sent sent with
    ⟨inst, valued, values, _, present, _, took, toAccept⟩ |
    ⟨_, _, inst, _, present, toAccept⟩
  · rw [(instanceToAccept_eq_some toAccept).2.2.1, (takeValue_iid took).2.1]
    exact numbered.owned.prepare _ _ present
  · rw [(instanceToAccept_eq_some toAccept).2.2.1]
    exact numbered.owned.accept _ _ present

/-- Two accepts for one instance and ballot are the same: the first is settled
when the second is sent. -/
theorem Proposer.Settled.eq_of_sent
    {earlier later : PaxosAccept} (settled : p.Settled earlier)
    (outcome : ProposerOutcome p op after result)
    (sent : result.sent = some (.accept later))
    (sameIid : earlier.iid = later.iid)
    (sameBallot : earlier.ballot = later.ballot) :
    earlier = later := by
  rcases outcome.accept_sent sent with
    ⟨inst, valued, values, _, present, _, took, toAccept⟩ |
    ⟨_, _, inst, _, present, toAccept⟩
  · obtain ⟨_, iidEq, ballotEq, _⟩ := instanceToAccept_eq_some toAccept
    rw [(takeValue_iid took).1] at iidEq
    rw [(takeValue_iid took).2.1] at ballotEq
    have higher := settled.instances.prepare _ _ present
      (iidEq.symm.trans sameIid.symm)
    omega
  · obtain ⟨_, iidEq, ballotEq, _⟩ := instanceToAccept_eq_some toAccept
    rcases settled.instances.accept _ _ present
      (iidEq.symm.trans sameIid.symm) with higher | still
    · omega
    · rw [still] at toAccept
      exact Option.some.inj toAccept

/-- The prepare that the loop over a promise fills in asks for the ballot that
the instance has after the loop. -/
theorem promiseLoop_prepare
    {id : Nat} {clock : Nat → Int} {ack : PaxosPromise} {entries : List Nat}
    {inst changed : ProposerInstance} {sent : Option PaxosPrepare}
    (owned : OwnedBallot id inst.ballot)
    (fits : promiseFits id clock ack entries inst = true)
    (looped : promiseLoop id clock ack entries inst none =
      some (changed, sent)) :
    OwnedBallot id changed.ballot ∧ changed.iid = inst.iid ∧
      ∀ prepare, sent = some prepare →
        prepare = ⟨id, changed.iid, changed.ballot⟩ := by
  refine promiseLoop_invariant True
    (fun (now : ProposerInstance) out =>
      OwnedBallot id now.ballot ∧ now.iid = inst.iid ∧
        ∀ prepare, out = some prepare →
          prepare = ⟨id, now.iid, now.ballot⟩)
    ?_ entries ⟨owned, rfl, by simp⟩ (fun _ => fits) looped
  rintro ii now out result sent ⟨held, sameIid, filled⟩ room entryOutcome
  obtain ⟨nextOwned, _, unchanged, next⟩ :=
    entryOutcome.ballot held (room trivial)
  have frame := entryOutcome.frame.1
  refine ⟨nextOwned, frame.trans sameIid, ?_⟩
  intro prepare same
  cases sent with
  | none =>
      rw [frame, unchanged rfl]
      exact filled prepare same
  | some fresh => exact next prepare same

include outcome in
/-- A prepare asks for an owned ballot, the one its instance has afterwards. -/
theorem ProposerOutcome.prepare_sent
    (numbered : p.Numbered) (keyed : p.Keyed) (fits : p.fits op = true)
    {out : PaxosPrepare} (sent : result.sent = some (.prepare out)) :
    out.src = p.id ∧ OwnedBallot p.id out.ballot ∧
      ∃ inst, after.prepareInstances.get out.iid = some inst ∧
        inst.ballot = out.ballot := by
  cases outcome with
  | prepared now table isPrepare _ inserted =>
      cases sent
      refine ⟨rfl, ownedBallot_fresh numbered.small, p.freshInstance now, ?_,
        rfl⟩
      change table.get p.freshIid = _
      rw [Table.get_insertNew inserted, if_pos rfl]
  | promised clock ack inst changed prepare isPromise present looped =>
      have owned := numbered.owned.prepare _ _ present
      have room : promiseFits p.id clock ack (List.range ack.nAids) inst =
          true := by
        rw [isPromise] at fits
        simpa only [Proposer.fits, present] using fits
      obtain ⟨changedOwned, sameIid, filled⟩ :=
        promiseLoop_prepare owned room looped
      cases prepare with
      | none => cases sent
      | some message =>
          cases sent
          cases filled out rfl
          refine ⟨rfl, changedOwned, changed, ?_, rfl⟩
          change (p.prepareInstances.set ack.iid changed).get changed.iid = _
          rw [sameIid, keyed.prepare _ _ present]
          exact Table.get_set_self changed present
  | preempted now ack inst table isPreempted present sameIid higher
      inserted =>
      cases sent
      have room : maxNOfProposers + inst.ballot < 2 ^ 32 := by
        rw [isPreempted] at fits
        simp only [Proposer.fits, ← sameIid, present] at fits
        exact ballotFits_of_lt fits higher
      have owned := numbered.owned.accept _ _ present
      refine ⟨rfl, (owned.next room).1, (proposerPreempt p.id now inst).1, ?_,
        rfl⟩
      change table.get inst.iid = _
      rw [Table.get_insertNew inserted, if_pos rfl]
  | resentPrepare proposerTimeout iter inst _ present =>
      cases sent
      refine ⟨rfl, numbered.owned.prepare _ _ present,
        { inst with createdAt := iter.timeout },
        Table.get_set_self _ present, rfl⟩
  | _ => cases sent

end Step

section Run

variable {id acceptors : Nat} {past : List ProposerTransition}
variable {final : Proposer}

/-- A call whose ballots and ids stay below the top of their types. -/
def Fitting (p : Proposer) (op : ProposerOp) : Prop :=
  p.fits op = true

theorem proposerNew_numbered
    {id acceptors : Nat} (small : id < maxNOfProposers) :
    (proposerNew id acceptors).Numbered where
  small := small
  disjoint := by
    intro key waiting pending present
    cases present
  bounded := proposerNew_instances id acceptors _ _
  owned := proposerNew_instances id acceptors _ _

/-- What every run without overflow keeps. -/
theorem proposer_trace_numbered
    (small : id < maxNOfProposers)
    (trace : Trace (guarded proposerStep Fitting) (proposerNew id acceptors)
      past final) :
    final.Keyed ∧ final.Numbered := by
  apply trace.invariant
    (fun p : Proposer => p.Keyed ∧ p.Numbered)
    ⟨proposerNew_instances id acceptors _ _, proposerNew_numbered small⟩
  rintro source op target result ⟨keyed, numbered⟩ stepEq
  obtain ⟨fits, ran⟩ := guarded_eq_some_iff.mp stepEq
  have outcome := proposerStep_outcome keyed ran
  exact ⟨outcome.keyed keyed, outcome.numbered numbered fits⟩

/-- An accept that was sent is settled at every later step. -/
theorem settled_later
    (small : id < maxNOfProposers)
    {before middle after : List ProposerTransition}
    {earlier later : ProposerTransition}
    (trace : Trace (guarded proposerStep Fitting) (proposerNew id acceptors)
      (before ++ earlier :: middle ++ later :: after) final)
    {out : PaxosAccept} (sent : earlier.output.sent = some (.accept out)) :
    later.source.Keyed ∧ later.source.Numbered ∧
      later.source.Settled out := by
  have earlierTrace : Trace (guarded proposerStep Fitting)
      (proposerNew id acceptors)
      (before ++ earlier :: (middle ++ later :: after)) final := by
    simpa using trace
  obtain ⟨reached, stepEq⟩ := earlierTrace.split
  obtain ⟨keyed, numbered⟩ := proposer_trace_numbered small reached
  obtain ⟨fits, ran⟩ := guarded_eq_some_iff.mp stepEq
  have outcome := proposerStep_outcome keyed ran
  refine trace.stable_between
    (fun p : Proposer => p.Keyed ∧ p.Numbered ∧ p.Settled out)
    ?_ ⟨outcome.keyed keyed, outcome.numbered numbered fits,
      outcome.settled_of_sent numbered sent⟩
  rintro source op target result ⟨keyed, numbered, settled⟩ stepEq
  obtain ⟨fits, ran⟩ := guarded_eq_some_iff.mp stepEq
  have outcome := proposerStep_outcome keyed ran
  exact ⟨outcome.keyed keyed, outcome.numbered numbered fits,
    outcome.settled numbered fits settled⟩

/-- In a run of one proposer, an instance and a ballot determine the accept. -/
theorem sent_accept_unique
    (small : id < maxNOfProposers)
    (trace : Trace (guarded proposerStep Fitting) (proposerNew id acceptors)
      past final)
    {first second : ProposerTransition}
    (firstMember : first ∈ past) (secondMember : second ∈ past)
    {left right : PaxosAccept}
    (sentLeft : first.output.sent = some (.accept left))
    (sentRight : second.output.sent = some (.accept right))
    (sameIid : left.iid = right.iid)
    (sameBallot : left.ballot = right.ballot) :
    left = right := by
  rcases Trace.mem_cases firstMember secondMember with
    rfl | ⟨before, middle, after, rfl⟩ | ⟨before, middle, after, rfl⟩
  · rw [sentLeft] at sentRight
    cases sentRight
    rfl
  · obtain ⟨keyed, _, settled⟩ := settled_later small trace sentLeft
    obtain ⟨_, ran⟩ := guarded_eq_some_iff.mp trace.split.2
    exact settled.eq_of_sent (proposerStep_outcome keyed ran) sentRight
      sameIid sameBallot
  · obtain ⟨keyed, _, settled⟩ := settled_later small trace sentRight
    obtain ⟨_, ran⟩ := guarded_eq_some_iff.mp trace.split.2
    exact (settled.eq_of_sent (proposerStep_outcome keyed ran) sentLeft
      sameIid.symm sameBallot.symm).symm

/-- The accepts and prepares of a run carry owned ballots. -/
theorem sent_owned
    (small : id < maxNOfProposers)
    (trace : Trace (guarded proposerStep Fitting) (proposerNew id acceptors)
      past final)
    {current : ProposerTransition} (member : current ∈ past) :
    (∀ out, current.output.sent = some (.accept out) →
      OwnedBallot id out.ballot) ∧
    (∀ out, current.output.sent = some (.prepare out) →
      OwnedBallot id out.ballot) := by
  obtain ⟨_, _, _, reached, stepEq⟩ := trace.mem_split member
  obtain ⟨fits, ran⟩ := guarded_eq_some_iff.mp stepEq
  obtain ⟨keyed, numbered⟩ := proposer_trace_numbered small reached
  have sameId := (proposer_trace_keyed reached.unguarded).2.1
  have outcome := proposerStep_outcome keyed ran
  rw [← sameId]
  refine ⟨?_, ?_⟩
  · intro out sent
    exact outcome.accept_owned numbered sent
  · intro out sent
    exact (outcome.prepare_sent numbered keyed fits sent).2.1

end Run

/-- Proposers with distinct ids, each in a run without overflow: two accepts
for one instance and ballot come from one proposer and carry one value, and two
prepares for one instance and ballot come from one proposer. -/
theorem one_owner_per_ballot
    {acceptors : Nat → Nat} {past : Nat → List ProposerTransition}
    {final : Nat → Proposer}
    (traces : ∀ id < maxNOfProposers,
      Trace proposerStep (proposerNew id (acceptors id)) (past id) (final id))
    (fits : ∀ id < maxNOfProposers, ∀ current ∈ past id,
      current.source.fits current.input = true) :
    (∀ i < maxNOfProposers, ∀ j < maxNOfProposers,
      ∀ first ∈ past i, ∀ second ∈ past j, ∀ left right,
        first.output.sent = some (.accept left) →
        second.output.sent = some (.accept right) →
        left.iid = right.iid → left.ballot = right.ballot →
        i = j ∧ left.value = right.value) ∧
    (∀ i < maxNOfProposers, ∀ j < maxNOfProposers,
      ∀ first ∈ past i, ∀ second ∈ past j, ∀ left right,
        first.output.sent = some (.prepare left) →
        second.output.sent = some (.prepare right) →
        left.iid = right.iid → left.ballot = right.ballot →
        i = j) := by
  have runs : ∀ id < maxNOfProposers,
      Trace (guarded proposerStep Fitting) (proposerNew id (acceptors id))
        (past id) (final id) :=
    fun id small => (traces id small).guarded (fits id small)
  refine ⟨?_, ?_⟩
  · intro i small j smallOther first firstMember second secondMember left right
      sentLeft sentRight sameIid sameBallot
    have ownedLeft :=
      (sent_owned small (runs i small) firstMember).1 left sentLeft
    have ownedRight :=
      (sent_owned smallOther (runs j smallOther) secondMember).1 right sentRight
    have sameOwner : i = j := by
      rw [← ownedLeft.residue, ← ownedRight.residue, sameBallot]
    subst sameOwner
    refine ⟨rfl, ?_⟩
    rw [sent_accept_unique small (runs i small) firstMember secondMember
      sentLeft sentRight sameIid sameBallot]
  · intro i small j smallOther first firstMember second secondMember left right
      sentLeft sentRight _ sameBallot
    have ownedLeft :=
      (sent_owned small (runs i small) firstMember).2 left sentLeft
    have ownedRight :=
      (sent_owned smallOther (runs j smallOther) secondMember).2 right sentRight
    rw [← ownedLeft.residue, ← ownedRight.residue, sameBallot]

/-- The proposer with id 3 takes a value through both phases with one acceptor,
and the others do nothing. -/
theorem one_owner_per_ballot_accepts :
    ∃ (past : Nat → List ProposerTransition) (final : Nat → Proposer),
      (∀ id < maxNOfProposers,
        Trace proposerStep (proposerNew id 1) (past id) (final id)) ∧
      (∃ current ∈ past 3, ∃ out,
        current.output.sent = some (.accept out)) ∧
      ∀ i < maxNOfProposers, ∀ j < maxNOfProposers,
        ∀ first ∈ past i, ∀ second ∈ past j, ∀ left right,
          first.output.sent = some (.accept left) →
          second.output.sent = some (.accept right) →
          left.iid = right.iid → left.ballot = right.ballot →
          i = j ∧ left.value = right.value := by
  obtain ⟨past, final, ran, sent, fits⟩ : ∃ past final,
      Trace proposerStep (proposerNew 3 1) past final ∧
      (∃ current ∈ past, ∃ out, current.output.sent = some (.accept out)) ∧
      ∀ current ∈ past, current.source.fits current.input = true := by
    have ran :=
      trace_of_runFrom proposerStep (proposerNew 3 1)
        ([.propose ⟨[7]⟩, .prepare 0,
          .receivePromise (fun _ => 0)
            ⟨3, 1, 1003, 1003, 1, [0], PaxosValue.empty, [PaxosValue.empty],
              [1003], [1003]⟩,
          .accept]) rfl
    refine ⟨_, _, ran, ?_, ?_⟩
    · exact ⟨_, List.mem_of_getLast? rfl, ⟨3, 1, 1003, ⟨[7]⟩⟩, rfl⟩
    · intro current member
      simp only [List.mem_cons, List.not_mem_nil, or_false] at member
      rcases member with rfl | rfl | rfl | rfl
      · rfl
      · rfl
      · rfl
      · rfl
  have traces : ∀ id < maxNOfProposers,
      Trace proposerStep (proposerNew id 1) (if id = 3 then past else [])
        (if id = 3 then final else proposerNew id 1) := by
    intro id _
    by_cases same : id = 3
    · subst same
      exact ran
    · rw [if_neg same, if_neg same]
      exact .nil
  refine ⟨fun id => if id = 3 then past else [],
    fun id => if id = 3 then final else proposerNew id 1, traces, sent,
    (one_owner_per_ballot traces ?_).1⟩
  intro id _ current member
  by_cases same : id = 3
  · rw [if_pos same] at member
    exact fits current member
  · rw [if_neg same] at member
    cases member

end LibPaxos

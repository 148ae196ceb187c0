import LibPaxos.Proposer.Tables

/-!
# Where a proposer indexes its arrays

A promise or an accepted says from which acceptors its entries are, and the
proposer marks them in an array that has a place for each acceptor of its own
configuration.  It does not compare the two.  Here it is said exactly which
messages, in which states, stay within the arrays.
-/

namespace LibPaxos

open LibPaxos.Library

/-- A promise whose arrays have as many entries as it says. -/
structure PaxosPromise.Filled (ack : PaxosPromise) : Prop where
  aids : ack.aids.length = ack.nAids
  values : ack.values.length = ack.nAids
  ballots : ack.ballots.length = ack.nAids
  valueBallots : ack.valueBallots.length = ack.nAids

/-- The ballot of an instance after the first entries of a promise: each entry
with a higher ballot preempts it. -/
def ballotAfter (id : Nat) (ballots : List Nat) (ballot : Nat) : Nat → Nat
  | 0 => ballot
  | ii + 1 =>
      let own := ballotAfter id ballots ballot ii
      if own < ballots.getD ii 0 then proposerNextBallot id own else own

/-- The entry of a promise is counted when it has the ballot of the instance,
and then it is from an acceptor that is known. -/
def EntryInBounds (acceptors : Nat) (ack : PaxosPromise) (ii ballot : Nat) :
    Prop :=
  ack.ballots[ii]? = some ballot →
    ∃ aid, ack.aids[ii]? = some aid ∧ aid < acceptors

theorem exists_entry {α : Type} {entries : List α} {n ii : Nat}
    (length : entries.length = n) (bound : ii < n) :
    ∃ entry, entries[ii]? = some entry :=
  ⟨_, List.getElem?_eq_getElem (length ▸ bound)⟩

section Entry

variable {id : Nat} {clock : Nat → Int} {ack : PaxosPromise} {ii : Nat}
variable {inst : ProposerInstance}

theorem promiseEntry_isSome_iff
    (filled : ack.Filled) (bound : ii < ack.nAids) :
    (promiseEntry id clock ack ii inst).isSome ↔
      EntryInBounds inst.quorum.acceptors ack ii inst.ballot := by
  obtain ⟨ballot, ballotAt⟩ := exists_entry filled.ballots bound
  obtain ⟨aid, aidAt⟩ := exists_entry filled.aids bound
  obtain ⟨value, valueAt⟩ := exists_entry filled.values bound
  obtain ⟨valueBallot, valueBallotAt⟩ := exists_entry filled.valueBallots bound
  constructor
  · intro ran same
    obtain ⟨⟨result, sent⟩, isResult⟩ := Option.isSome_iff_exists.mp ran
    cases promiseEntry_outcome isResult with
    | stale other otherAt lower =>
        rw [same] at otherAt
        cases otherAt
        omega
    | preempted other otherAt higher =>
        rw [same] at otherAt
        cases otherAt
        omega
    | counted aid _ _ _ _ aidAt _ added _ =>
        exact ⟨aid, aidAt, (Quorum.quorumAdd_spec added).2.2.2.1⟩
    | recorded aid _ _ _ _ _ aidAt _ added _ _ _ =>
        exact ⟨aid, aidAt, (Quorum.quorumAdd_spec added).2.2.2.1⟩
  · intro inBounds
    unfold promiseEntry
    simp only [ballotAt, aidAt, valueAt, valueBallotAt]
    split
    · rfl
    · split
      · rfl
      · next notLower notHigher =>
          have same : ballot = inst.ballot := by omega
          obtain ⟨other, otherAt, known⟩ := inBounds (same ▸ ballotAt)
          rw [aidAt] at otherAt
          cases otherAt
          obtain ⟨fresh, quorum, added⟩ := Quorum.exists_quorumAdd known
          simp only [added]
          split
          · split <;> rfl
          · rfl

/-- An entry that is handled leaves the ballot that the next one meets. -/
theorem promiseEntry_ballot
    {result : ProposerInstance} {sent : Option PaxosPrepare}
    (ran : promiseEntry id clock ack ii inst = some (result, sent)) :
    result.ballot =
      if inst.ballot < ack.ballots.getD ii 0 then
        proposerNextBallot id inst.ballot
      else
        inst.ballot := by
  cases promiseEntry_outcome ran with
  | stale ballot ballotAt lower =>
      rw [List.getD_eq_getElem?_getD, ballotAt, Option.getD_some,
        if_neg (by omega)]
  | preempted ballot ballotAt higher =>
      rw [List.getD_eq_getElem?_getD, ballotAt, Option.getD_some,
        if_pos higher]
      rfl
  | counted _ _ _ _ ballotAt _ _ _ _ =>
      rw [List.getD_eq_getElem?_getD, ballotAt, Option.getD_some,
        if_neg (Nat.lt_irrefl _)]
  | recorded _ _ _ _ _ ballotAt _ _ _ _ _ _ =>
      rw [List.getD_eq_getElem?_getD, ballotAt, Option.getD_some,
        if_neg (Nat.lt_irrefl _)]

end Entry

/-- The loop over the entries from one on. -/
theorem promiseLoop_isSome_iff
    (id : Nat) (clock : Nat → Int) {ack : PaxosPromise} (filled : ack.Filled)
    {acceptors ballot : Nat} (count : Nat) :
    ∀ (start : Nat) (inst : ProposerInstance) (out : Option PaxosPrepare),
      start + count ≤ ack.nAids →
      inst.quorum.acceptors = acceptors →
      inst.ballot = ballotAfter id ack.ballots ballot start →
      ((promiseLoop id clock ack (List.range' start count) inst out).isSome ↔
        ∀ ii, start ≤ ii → ii < start + count →
          EntryInBounds acceptors ack ii
            (ballotAfter id ack.ballots ballot ii)) := by
  induction count with
  | zero =>
      intro start inst out _ _ _
      apply iff_of_true rfl
      intro ii lower upper
      omega
  | succ count inductionHypothesis =>
      intro start inst out within sized own
      have first : (promiseEntry id clock ack start inst).isSome ↔ _ :=
        promiseEntry_isSome_iff filled (by omega)
      rw [sized, own] at first
      rw [List.range'_succ, promiseLoop]
      cases ran : promiseEntry id clock ack start inst with
      | none =>
          rw [ran] at first
          apply iff_of_false (by simp)
          intro all
          have entry := all start (Nat.le_refl _) (by omega)
          exact absurd (first.mpr entry) (by simp)
      | some result =>
          obtain ⟨after, sent⟩ := result
          have ballotEq : after.ballot =
              ballotAfter id ack.ballots ballot (start + 1) := by
            rw [promiseEntry_ballot ran, own]
            rfl
          have acceptorsEq : after.quorum.acceptors = acceptors :=
            (promiseEntry_outcome ran).frame.2.2.trans sized
          rw [ran] at first
          refine (inductionHypothesis (start + 1) after (sent.or out)
            (by omega) acceptorsEq ballotEq).trans ⟨?_, ?_⟩
          · intro later ii lower upper
            rcases Nat.eq_or_lt_of_le lower with rfl | above
            · exact first.mp rfl
            · exact later ii above (by omega)
          · intro all ii lower upper
            exact all ii (by omega) (by omega)

/-- The promise does not make the proposer mark an acceptor that it does not
know: its instance is not waiting, or every entry that is counted is from a
known acceptor. -/
def PromiseInBounds (p : Proposer) (ack : PaxosPromise) : Prop :=
  ∀ inst, p.prepareInstances.get ack.iid = some inst →
    ∀ ii, ii < ack.nAids →
      EntryInBounds p.acceptors ack ii
        (ballotAfter p.id ack.ballots inst.ballot ii)

/-- The first entry of an accepted exists, and it is from a known acceptor when
it has a ballot that is counted. -/
def AcceptedInBounds (p : Proposer) (ack : PaxosAccepted) : Prop :=
  ∀ inst, p.acceptInstances.get ack.iid = some inst →
    ∃ aid ballot, ack.aids[0]? = some aid ∧ ack.ballots[0]? = some ballot ∧
      (ballot = inst.ballot → aid < p.acceptors)

/-- Every quorum of the proposer counts its acceptors. -/
abbrev Proposer.Sized (p : Proposer) : Prop :=
  p.Instances (fun _ inst => inst.quorum.acceptors = p.acceptors)
    (fun _ inst => inst.quorum.acceptors = p.acceptors)

theorem proposer_trace_sized
    {id acceptors : Nat} {past : List ProposerTransition} {p : Proposer}
    (trace : Trace proposerStep (proposerNew id acceptors) past p) :
    p.Sized :=
  (proposer_trace_invariant Proposer.Sized
    (proposerNew_instances id acceptors _ _)
    (fun _ _ _ _ _ sized outcome => outcome.sized sized) trace).2

theorem proposerReceivePromise_isSome_iff
    {p : Proposer} (sized : p.Sized) (clock : Nat → Int)
    {ack : PaxosPromise} (filled : ack.Filled) :
    (proposerReceivePromise clock p ack).isSome ↔ PromiseInBounds p ack := by
  unfold proposerReceivePromise PromiseInBounds
  cases pending : p.prepareInstances.get ack.iid with
  | none =>
      apply iff_of_true rfl
      intro inst isPending
      cases isPending
  | some inst =>
      have looped := promiseLoop_isSome_iff p.id clock filled ack.nAids 0
        inst none (Nat.le_of_eq (Nat.zero_add _))
        (sized.prepare _ _ pending) rfl
      simp only [Option.isSome_map, List.range_eq_range']
      rw [looped]
      constructor
      · intro all other isPending ii bound
        cases isPending
        exact all ii (Nat.zero_le ii) (by omega)
      · intro all ii _ bound
        exact all inst rfl ii (by omega)

theorem proposerReceiveAccepted_isSome_iff
    {p : Proposer} (sized : p.Sized) {ack : PaxosAccepted}
    (aligned : ack.aids.length = ack.ballots.length) :
    (proposerReceiveAccepted p ack).isSome ↔ AcceptedInBounds p ack := by
  unfold proposerReceiveAccepted AcceptedInBounds
  cases pending : p.acceptInstances.get ack.iid with
  | none =>
      apply iff_of_true rfl
      intro inst isPending
      cases isPending
  | some inst =>
      have acceptors := sized.accept _ _ pending
      cases ballotAt : ack.ballots[0]? with
      | none =>
          apply iff_of_false (by simp)
          intro all
          obtain ⟨_, _, _, isBallot, _⟩ := all inst rfl
          cases isBallot
      | some ballot =>
          have nonempty : 0 < ack.ballots.length :=
            (List.getElem?_eq_some_iff.mp ballotAt).1
          obtain ⟨aid, aidAt⟩ := exists_entry aligned nonempty
          simp only [aidAt]
          split
          · next same =>
              constructor
              · intro ran other isPending
                cases isPending
                refine ⟨aid, ballot, rfl, rfl, fun _ => ?_⟩
                rw [← acceptors]
                cases added : quorumAdd inst.quorum aid with
                | none => simp [added] at ran
                | some result =>
                    obtain ⟨fresh, quorum⟩ := result
                    exact (Quorum.quorumAdd_spec added).2.2.2.1
              · intro all
                obtain ⟨other, _, isAid, isBallot, known⟩ := all inst rfl
                cases isAid
                cases isBallot
                have bound := known same
                rw [← acceptors] at bound
                obtain ⟨fresh, quorum, added⟩ := Quorum.exists_quorumAdd bound
                simp only [added]
                cases fresh with
                | false => rfl
                | true =>
                    simp only
                    split <;> rfl
          · next different =>
              apply iff_of_true rfl
              intro other isPending
              cases isPending
              exact ⟨aid, ballot, rfl, rfl, fun same => absurd same different⟩

end LibPaxos

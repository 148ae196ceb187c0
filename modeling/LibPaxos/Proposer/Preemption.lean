import LibPaxos.Proposer.Bounds
import LibPaxos.Proposer.Trimming
import LibPaxos.Proposer.Insensitive

/-!
# Coming back after a preemption

A preempted proposer raises the ballot of the instance by
`MAX_N_OF_PROPOSERS`, whatever ballot has preempted it.  So its next prepare
beats a competing ballot exactly when that one was less than
`MAX_N_OF_PROPOSERS` above its own.  The entries of an aggregated promise are
met one after the other, each by the ballot that the earlier ones have left;
every entry that preempts raises the ballot by one more step, and the prepare is
the one of the last of them.
-/

namespace LibPaxos

open LibPaxos.Library

/-- One step of `MAX_N_OF_PROPOSERS` above a ballot, or the first ballot of the
proposer where there was none. -/
def raisedBallot (id ballot : Nat) : Nat :=
  if 0 < ballot then ballot + maxNOfProposers else maxNOfProposers + id

/-- How many of some competing ballots, met one after the other, preempt an
instance that has the given ballot before the first of them. -/
def preemptions (id : Nat) : List Nat → Nat → Nat
  | [], _ => 0
  | competing :: rest, ballot =>
      if ballot < competing then
        preemptions id rest (proposerNextBallot id ballot) + 1
      else
        preemptions id rest ballot

/-- The ballot after as many preemptions. -/
def steppedBallot (id count ballot : Nat) : Nat :=
  (proposerNextBallot id)^[count] ballot

/-- What is wanted of the prepare after a preemption of an instance by a
competing ballot, and of the table of waiting instances then. -/
structure ComesBack (id : Nat) (inst : ProposerInstance) (competing : Nat)
    (out : PaxosPrepare) (prepareInstances : Table Nat ProposerInstance) :
    Prop where
  iid : out.iid = inst.iid
  beats : competing < out.ballot
  grows : inst.ballot < out.ballot
  owned : out.ballot % maxNOfProposers = id % maxNOfProposers
  waiting : ∃ next, prepareInstances.get inst.iid = some next ∧
    next.quorum.marked = ∅ ∧ next.promisedValue = none ∧
    next.value = inst.value

/-- The competing ballot is less than one step above the ballot it preempts,
which is one of the proposer's own. -/
structure WithinReach (id ballot competing : Nat) : Prop where
  below : competing < raisedBallot id ballot
  owned : 0 < ballot → ballot % maxNOfProposers = id % maxNOfProposers

/-- After the last of some ballots that preempts, none is the new ballot
itself. -/
def Uncounted (id : Nat) (ballots : List Nat) (ballot : Nat) : Prop :=
  ∀ ii, preemptions id (ballots.take ii) ballot =
      preemptions id ballots ballot →
    ballots[ii]? ≠
      some (steppedBallot id (preemptions id ballots ballot) ballot)

/-- The steps that some ballots cause together lead beyond a competing one, to a
ballot of the proposer's own that none of the later ones equals. -/
structure Outruns (id : Nat) (ballots : List Nat) (ballot competing : Nat) :
    Prop where
  below :
    competing < steppedBallot id (preemptions id ballots ballot) ballot
  owned : steppedBallot id (preemptions id ballots ballot) ballot %
    maxNOfProposers = id % maxNOfProposers
  uncounted : Uncounted id ballots ballot

section Ballot

variable {id ballot : Nat}

theorem proposerNextBallot_eq_raised
    (small : id < maxNOfProposers)
    (room : ballot < 2 ^ 32 - 2 * maxNOfProposers) :
    proposerNextBallot id ballot = raisedBallot id ballot := by
  unfold maxNOfProposers at small room
  unfold proposerNextBallot raisedBallot word32 maxNOfProposers
  split
  · omega
  · omega

theorem raisedBallot_mod :
    raisedBallot id ballot % maxNOfProposers = id % maxNOfProposers ↔
      (0 < ballot → ballot % maxNOfProposers = id % maxNOfProposers) := by
  unfold raisedBallot
  split
  · next positive =>
      rw [Nat.add_mod_right]
      exact ⟨fun same _ => same, fun same => same positive⟩
  · next zero =>
      rw [Nat.add_mod_left]
      exact iff_of_true rfl fun positive => False.elim (zero positive)

theorem steppedBallot_succ (id count ballot : Nat) :
    steppedBallot id (count + 1) ballot =
      proposerNextBallot id (steppedBallot id count ballot) :=
  Function.iterate_succ_apply' _ _ _

end Ballot

section Preemptions

variable {id : Nat}

theorem preemptions_append (id : Nat) (first second : List Nat) :
    ∀ ballot, preemptions id (first ++ second) ballot =
      preemptions id first ballot + preemptions id second
        (steppedBallot id (preemptions id first ballot) ballot) := by
  induction first with
  | nil =>
      intro ballot
      rw [List.nil_append, preemptions, Nat.zero_add]
      rfl
  | cons competing rest inductionHypothesis =>
      intro ballot
      rw [List.cons_append, preemptions, preemptions]
      split
      · rw [inductionHypothesis, steppedBallot, steppedBallot,
          Function.iterate_succ_apply]
        omega
      · exact inductionHypothesis ballot

theorem preemptions_take_le (id : Nat) (ballots : List Nat) (ii ballot : Nat) :
    preemptions id (ballots.take ii) ballot ≤
      preemptions id ballots ballot := by
  have split :=
    preemptions_append id (ballots.take ii) (ballots.drop ii) ballot
  rw [List.take_append_drop] at split
  omega

theorem preemptions_pos
    (id : Nat) {ballots : List Nat} {competing : Nat}
    (member : competing ∈ ballots) :
    ∀ {ballot}, ballot < competing → 0 < preemptions id ballots ballot := by
  induction ballots with
  | nil => exact absurd member (List.not_mem_nil)
  | cons head rest inductionHypothesis =>
      intro ballot higher
      rw [preemptions]
      split
      · exact Nat.succ_pos _
      · next lower =>
          rcases List.mem_cons.mp member with rfl | later
          · exact absurd higher lower
          · exact inductionHypothesis later higher

/-- One more competing ballot preempts if it is above what the earlier ones have
left. -/
theorem preemptions_concat (ballots : List Nat) (ballot competing : Nat) :
    preemptions id (ballots ++ [competing]) ballot =
      preemptions id ballots ballot +
        if steppedBallot id (preemptions id ballots ballot) ballot < competing
        then 1 else 0 := by
  rw [preemptions_append, preemptions, preemptions, preemptions]

theorem preemptions_concat_of_le
    {ballots : List Nat} {ballot competing : Nat}
    (atMost : competing ≤
      steppedBallot id (preemptions id ballots ballot) ballot) :
    preemptions id (ballots ++ [competing]) ballot =
      preemptions id ballots ballot := by
  rw [preemptions_concat, if_neg (Nat.not_lt_of_le atMost), Nat.add_zero]

/-- The ballot before an entry of a promise has been raised once for each
earlier entry that preempts. -/
theorem ballotAfter_eq_stepped (ballots : List Nat) (ballot : Nat) :
    ∀ {ii}, ii ≤ ballots.length →
      ballotAfter id ballots ballot ii =
        steppedBallot id (preemptions id (ballots.take ii) ballot) ballot := by
  intro ii
  induction ii with
  | zero =>
      intro _
      rfl
  | succ ii inductionHypothesis =>
      intro bound
      have before := inductionHypothesis (Nat.le_of_succ_le bound)
      rw [List.take_succ_eq_append_getElem bound, preemptions_concat,
        ballotAfter, before, List.getD_eq_getElem?_getD,
        List.getElem?_eq_getElem bound, Option.getD_some]
      split
      · rw [steppedBallot_succ]
      · rfl

/-- Below the top of the type, every preemption is one step of
`MAX_N_OF_PROPOSERS`. -/
theorem steppedBallot_preemptions (ballots : List Nat) :
    ∀ {ballot}, 0 < ballot →
      (∀ competing ∈ ballots, competing < 2 ^ 32 - 2 * maxNOfProposers) →
      steppedBallot id (preemptions id ballots ballot) ballot =
        ballot + preemptions id ballots ballot * maxNOfProposers := by
  induction ballots with
  | nil =>
      intro ballot _ _
      rw [preemptions, Nat.zero_mul]
      rfl
  | cons competing rest inductionHypothesis =>
      intro ballot positive room
      have restRoom := fun other member =>
        room other (List.mem_cons_of_mem _ member)
      rw [preemptions]
      split
      · next higher =>
          have next : proposerNextBallot id ballot =
              ballot + maxNOfProposers := by
            have top := room competing (List.mem_cons_self ..)
            rw [proposerNextBallot, if_pos positive, word32_of_lt, Nat.add_comm]
            omega
          have tail := inductionHypothesis
            (Nat.lt_add_right maxNOfProposers positive) restRoom
          rw [steppedBallot, Function.iterate_succ_apply, next, Nat.succ_mul]
          rw [steppedBallot] at tail
          rw [tail]
          omega
      · exact inductionHypothesis positive restRoom

section Uncounted

variable {ballots : List Nat} {ballot competing : Nat}

theorem uncounted_concat_of_higher
    (higher : steppedBallot id (preemptions id ballots ballot) ballot <
      competing) :
    Uncounted id (ballots ++ [competing]) ballot := by
  intro ii same
  have beyond : ballots.length < ii := by
    by_contra inside
    rw [preemptions_concat, if_pos higher,
      List.take_append_of_le_length (Nat.le_of_not_lt inside)] at same
    have atMost := preemptions_take_le id ballots ii ballot
    omega
  rw [List.getElem?_eq_none]
  · exact (Option.some_ne_none _).symm
  · rw [List.length_append, List.length_singleton]
    omega

theorem not_uncounted_concat_of_eq
    (equal : competing =
      steppedBallot id (preemptions id ballots ballot) ballot) :
    ¬ Uncounted id (ballots ++ [competing]) ballot := by
  intro uncounted
  have same := preemptions_concat_of_le equal.le
  apply uncounted ballots.length
  · rw [List.take_left, same]
  · rw [same, List.getElem?_concat_length, equal]

theorem uncounted_concat_of_lower
    (lower : competing <
      steppedBallot id (preemptions id ballots ballot) ballot) :
    Uncounted id (ballots ++ [competing]) ballot ↔
      Uncounted id ballots ballot := by
  have same := preemptions_concat_of_le lower.le
  unfold Uncounted
  rw [same]
  constructor
  · intro uncounted ii reached ballotAt
    have inside := (List.getElem?_eq_some_iff.mp ballotAt).1
    apply uncounted ii
    · rwa [List.take_append_of_le_length inside.le]
    · rwa [List.getElem?_append_left inside]
  · intro uncounted ii reached ballotAt
    by_cases inside : ii < ballots.length
    · rw [List.take_append_of_le_length inside.le] at reached
      rw [List.getElem?_append_left inside] at ballotAt
      exact uncounted ii reached ballotAt
    · rw [List.getElem?_append_right (Nat.le_of_not_lt inside)] at ballotAt
      have last := List.mem_singleton.mp (List.mem_of_getElem? ballotAt)
      exact absurd last.symm (Nat.ne_of_lt lower)

end Uncounted

end Preemptions

/-- When the instance waits, the prepare is as wanted exactly when it is above
the competing ballot and one of the proposer's own. -/
theorem comesBack_iff
    {id competing : Nat} {inst next : ProposerInstance} {out : PaxosPrepare}
    {prepareInstances : Table Nat ProposerInstance}
    (sameIid : out.iid = inst.iid) (higher : inst.ballot < competing)
    (waiting : prepareInstances.get inst.iid = some next)
    (sameValue : next.value = inst.value) :
    ComesBack id inst competing out prepareInstances ↔
      competing < out.ballot ∧
      out.ballot % maxNOfProposers = id % maxNOfProposers ∧
      next.quorum.marked = ∅ ∧ next.promisedValue = none := by
  constructor
  · intro back
    obtain ⟨other, otherAt, empty, blank, _⟩ := back.waiting
    rw [waiting, Option.some.injEq] at otherAt
    subst otherAt
    exact ⟨back.beats, back.owned, empty, blank⟩
  · rintro ⟨beats, owned, empty, blank⟩
    exact ⟨sameIid, beats, higher.trans beats, owned, next, waiting, empty,
      blank, sameValue⟩

/-- What some entries of a promise have made of an instance, and the prepare
that they have filled in. -/
structure EntriesMet (id : Nat) (ballots : List Nat)
    (inst result : ProposerInstance) (sent : Option PaxosPrepare) : Prop where
  iid : result.iid = inst.iid
  value : result.value = inst.value
  acceptors : result.quorum.acceptors = inst.quorum.acceptors
  ballot : result.ballot =
    steppedBallot id (preemptions id ballots inst.ballot) inst.ballot
  sent : 0 < preemptions id ballots inst.ballot →
    sent = some ⟨id, inst.iid, result.ballot⟩
  waiting : 0 < preemptions id ballots inst.ballot →
    ((result.quorum.marked = ∅ ∧ result.promisedValue = none) ↔
      Uncounted id ballots inst.ballot)

namespace EntriesMet

variable {id : Nat} {ballots : List Nat} {inst middle result : ProposerInstance}
variable {sent : Option PaxosPrepare}

theorem nil (id : Nat) (inst : ProposerInstance) :
    EntriesMet id [] inst inst none where
  iid := rfl
  value := rfl
  acceptors := rfl
  ballot := rfl
  sent := fun some => absurd some (Nat.lt_irrefl 0)
  waiting := fun some => absurd some (Nat.lt_irrefl 0)

/-- An entry below the ballot of the instance changes nothing. -/
theorem stale
    (met : EntriesMet id ballots inst middle sent) {competing : Nat}
    (lower : competing < middle.ballot) :
    EntriesMet id (ballots ++ [competing]) inst middle sent := by
  have below := met.ballot ▸ lower
  have same := preemptions_concat_of_le below.le
  refine ⟨met.iid, met.value, met.acceptors, ?_, ?_, ?_⟩
  · rw [same]
    exact met.ballot
  · rw [same]
    exact met.sent
  · rw [same, uncounted_concat_of_lower below]
    exact met.waiting

/-- An entry with the ballot of the instance is counted: the quorum is no longer
empty. -/
theorem counted
    (met : EntriesMet id ballots inst middle sent)
    (frame : result.iid = middle.iid ∧ result.value = middle.value ∧
      result.quorum.acceptors = middle.quorum.acceptors)
    (sameBallot : result.ballot = middle.ballot) {aid : Nat} {fresh : Bool}
    (added : quorumAdd middle.quorum aid = some (fresh, result.quorum)) :
    EntriesMet id (ballots ++ [middle.ballot]) inst result sent := by
  have equal := met.ballot
  have marked : result.quorum.marked ≠ ∅ := by
    rw [(Quorum.quorumAdd_spec added).2.1]
    exact Finset.insert_ne_empty _ _
  have same := preemptions_concat_of_le equal.le
  refine ⟨frame.1.trans met.iid, frame.2.1.trans met.value,
    frame.2.2.trans met.acceptors, ?_, ?_, ?_⟩
  · rw [same, sameBallot]
    exact equal
  · rw [same, sameBallot]
    exact met.sent
  · intro _
    exact iff_of_false (fun waiting => marked waiting.1)
      (not_uncounted_concat_of_eq equal)

/-- An entry above the ballot of the instance preempts it. -/
theorem preempted
    (met : EntriesMet id ballots inst middle sent) (now : Int) {competing : Nat}
    (higher : middle.ballot < competing) :
    EntriesMet id (ballots ++ [competing]) inst
      (proposerPreempt id now middle).1
      (some (proposerPreempt id now middle).2) := by
  have above := met.ballot ▸ higher
  refine ⟨met.iid, met.value, met.acceptors, ?_, ?_, ?_⟩
  · rw [preemptions_concat, if_pos above, steppedBallot_succ, ← met.ballot]
    rfl
  · intro _
    rw [← met.iid]
    rfl
  · intro _
    exact iff_of_true ⟨Quorum.marked_quorumClear middle.quorum, rfl⟩
      (uncounted_concat_of_higher above)

/-- One more entry. -/
theorem entry
    (met : EntriesMet id ballots inst middle sent)
    {clock : Nat → Int} {ack : PaxosPromise} {ii competing : Nat}
    {prepare : Option PaxosPrepare}
    (ballotAt : ack.ballots[ii]? = some competing)
    (outcome : EntryOutcome id clock ack ii middle result prepare) :
    EntriesMet id (ballots ++ [competing]) inst result (prepare.or sent) := by
  have frame := outcome.frame
  cases outcome with
  | stale other otherAt lower =>
      rw [ballotAt, Option.some.injEq] at otherAt
      exact met.stale (otherAt ▸ lower)
  | preempted other otherAt higher =>
      rw [ballotAt, Option.some.injEq] at otherAt
      exact met.preempted (clock ii) (otherAt ▸ higher)
  | counted aid value fresh quorum otherAt _ _ added _ =>
      rw [ballotAt, Option.some.injEq] at otherAt
      rw [otherAt]
      exact met.counted frame rfl added
  | recorded aid value fresh quorum valueBallot otherAt _ _ added _ _ _ =>
      rw [ballotAt, Option.some.injEq] at otherAt
      rw [otherAt]
      exact met.counted frame rfl added

end EntriesMet

/-- The loop over some entries and then over others. -/
theorem promiseLoop_append
    {id : Nat} {clock : Nat → Int} {ack : PaxosPromise}
    (first second : List Nat) :
    ∀ (inst : ProposerInstance) (out : Option PaxosPrepare),
      promiseLoop id clock ack (first ++ second) inst out =
        (promiseLoop id clock ack first inst out).bind fun result =>
          promiseLoop id clock ack second result.1 result.2 := by
  induction first with
  | nil =>
      intro inst out
      rfl
  | cons ii rest inductionHypothesis =>
      intro inst out
      rw [List.cons_append, promiseLoop, promiseLoop]
      cases promiseEntry id clock ack ii inst with
      | none => rfl
      | some result => exact inductionHypothesis _ _

/-- The loop over the first entries of a promise. -/
theorem PaxosPromise.WellFormed.loop_met
    {acceptors : Nat} {ack : PaxosPromise} (ok : ack.WellFormed acceptors)
    (id : Nat) (clock : Nat → Int) {inst : ProposerInstance}
    (sized : inst.quorum.acceptors = acceptors) (count : Nat) :
    count ≤ ack.nAids →
    ∃ result sent,
      promiseLoop id clock ack (List.range count) inst none =
        some (result, sent) ∧
      EntriesMet id (ack.ballots.take count) inst result sent := by
  induction count with
  | zero =>
      intro _
      exact ⟨inst, none, rfl, EntriesMet.nil id inst⟩
  | succ count inductionHypothesis =>
      intro bound
      obtain ⟨middle, sent, looped, met⟩ :=
        inductionHypothesis (Nat.le_of_succ_le bound)
      obtain ⟨result, prepare, ran⟩ :=
        promiseEntry_progress ok id clock bound (met.acceptors.trans sized)
      have inside : count < ack.ballots.length := ok.ballots.symm ▸ bound
      refine ⟨result, prepare.or sent, ?_, ?_⟩
      · rw [List.range_succ, promiseLoop_append, looped, Option.bind_some,
          promiseLoop, ran]
        rfl
      · rw [List.take_succ_eq_append_getElem inside]
        exact met.entry (List.getElem?_eq_getElem inside)
          (promiseEntry_outcome ran)

section Calls

variable {p : Proposer}

/-- What `proposer_receive_preempted` does with a higher ballot. -/
theorem proposerReceivePreempted_higher
    (keyed : p.Keyed) (tabled : p.Tabled) (now : Int) {ack : PaxosPreempted}
    {inst : ProposerInstance}
    (pending : p.acceptInstances.get ack.iid = some inst)
    (higher : inst.ballot < ack.ballot) :
    ∃ after,
      proposerReceivePreempted now p ack =
        some (some (proposerPreempt p.id now inst).2, after) ∧
      after.prepareInstances.get inst.iid =
        some (proposerPreempt p.id now inst).1 := by
  have sameIid := keyed.accept _ _ pending
  rw [← sameIid] at pending
  have absent := tabled.disjoint.prepare_none pending
  obtain ⟨table, inserted⟩ := Table.exists_insertNew absent
    { inst with quorum := quorumClear inst.quorum }
  have present := Table.get_insertNew inserted inst.iid
  rw [if_pos rfl] at present
  refine ⟨{ p with
    acceptInstances := p.acceptInstances.erase inst.iid
    prepareInstances := table.set inst.iid
      (proposerPreempt p.id now inst).1 }, ?_, ?_⟩
  · simp only [proposerReceivePreempted, ← sameIid, pending, if_pos higher,
      proposerMoveInstance, inserted, Option.map_some]
    rfl
  · exact Table.get_set_self _ present

/-- What `proposer_receive_promise` does with a promise that preempts. -/
theorem proposerReceivePromise_higher
    (clock : Nat → Int) {ack : PaxosPromise} {inst : ProposerInstance}
    (pending : p.prepareInstances.get ack.iid = some inst)
    (ok : ack.WellFormed inst.quorum.acceptors)
    (preempts : 0 < preemptions p.id ack.ballots inst.ballot) :
    ∃ result,
      proposerReceivePromise clock p ack =
        some (some ⟨p.id, inst.iid, result.ballot⟩,
          p.withInstance ack.iid result) ∧
      EntriesMet p.id ack.ballots inst result
        (some ⟨p.id, inst.iid, result.ballot⟩) := by
  obtain ⟨result, sent, looped, met⟩ :=
    ok.loop_met p.id clock rfl ack.nAids (Nat.le_refl _)
  rw [← ok.ballots, List.take_length] at met
  have isSent := met.sent preempts
  subst isSent
  refine ⟨result, ?_, met⟩
  unfold proposerReceivePromise
  simp only [pending, looped]
  rfl

/-- After a message that preempts, the prepare comes back as wanted exactly when
the competing ballot is within reach. -/
theorem receivePreempted_comesBack_iff
    (keyed : p.Keyed) (tabled : p.Tabled) (small : p.id < maxNOfProposers)
    (now : Int) {ack : PaxosPreempted} {inst : ProposerInstance}
    (pending : p.acceptInstances.get ack.iid = some inst)
    (higher : inst.ballot < ack.ballot)
    (top : ack.ballot < 2 ^ 32 - 2 * maxNOfProposers) :
    (∃ out after,
      proposerReceivePreempted now p ack = some (some out, after) ∧
      ComesBack p.id inst ack.ballot out after.prepareInstances) ↔
    WithinReach p.id inst.ballot ack.ballot := by
  have raised : (proposerPreempt p.id now inst).2.ballot =
      raisedBallot p.id inst.ballot :=
    proposerNextBallot_eq_raised small (higher.trans top)
  obtain ⟨after, ran, waiting⟩ :=
    proposerReceivePreempted_higher keyed tabled now pending higher
  have back : ComesBack p.id inst ack.ballot (proposerPreempt p.id now inst).2
      after.prepareInstances ↔ _ :=
    comesBack_iff rfl higher waiting rfl
  rw [raised, raisedBallot_mod] at back
  constructor
  · intro ⟨out, other, otherRan, comes⟩
    rw [ran] at otherRan
    cases otherRan
    obtain ⟨below, owned, _⟩ := back.mp comes
    exact ⟨below, owned⟩
  · intro reach
    refine ⟨_, after, ran, back.mpr ⟨reach.below, reach.owned, ?_, rfl⟩⟩
    exact Quorum.marked_quorumClear inst.quorum

/-- After a promise that preempts, the prepare comes back as wanted exactly when
the entries together outrun the competing ballot. -/
theorem receivePromise_comesBack_iff
    (keyed : p.Keyed) (clock : Nat → Int) {ack : PaxosPromise}
    {inst : ProposerInstance}
    (pending : p.prepareInstances.get ack.iid = some inst)
    (ok : ack.WellFormed inst.quorum.acceptors) {competing : Nat}
    (member : competing ∈ ack.ballots) (higher : inst.ballot < competing) :
    (∃ out after,
      proposerReceivePromise clock p ack = some (some out, after) ∧
      ComesBack p.id inst competing out after.prepareInstances) ↔
    Outruns p.id ack.ballots inst.ballot competing := by
  have preempts := preemptions_pos p.id member higher
  obtain ⟨result, ran, met⟩ :=
    proposerReceivePromise_higher clock pending ok preempts
  have waiting : (p.withInstance ack.iid result).prepareInstances.get
      inst.iid = some result := by
    rw [keyed.prepare _ _ pending]
    exact Table.get_set_self result pending
  have back : ComesBack p.id inst competing ⟨p.id, inst.iid, result.ballot⟩
      (p.withInstance ack.iid result).prepareInstances ↔ _ :=
    comesBack_iff rfl higher waiting met.value
  rw [met.waiting preempts, met.ballot] at back
  constructor
  · intro ⟨out, other, otherRan, comes⟩
    rw [ran] at otherRan
    cases otherRan
    rw [met.ballot] at comes
    obtain ⟨below, owned, uncounted⟩ := back.mp comes
    exact ⟨below, owned, uncounted⟩
  · intro ⟨below, owned, uncounted⟩
    refine ⟨_, _, ran, ?_⟩
    rw [met.ballot]
    exact back.mpr ⟨below, owned, uncounted⟩

end Calls

section Run

variable {id acceptors : Nat} {past : List ProposerTransition} {p : Proposer}

/-- In every reachable state, the prepare after a preemption comes back as
wanted exactly when the competing ballot is within reach of the ballot that it
preempts.  For a promise this holds of every entry above the ballot of the
instance, with as many steps as there are entries that preempt. -/
theorem preempted_comes_back_iff
    (trace : Trace proposerStep (proposerNew id acceptors) past p)
    (sized : ∀ current ∈ past, current.input.Iids32)
    (small : id < maxNOfProposers) :
    (∀ (now : Int) (ack : PaxosPreempted) (inst : ProposerInstance),
      p.acceptInstances.get ack.iid = some inst →
      inst.ballot < ack.ballot →
      ack.ballot < 2 ^ 32 - 2 * maxNOfProposers →
      ((∃ out after,
        proposerReceivePreempted now p ack = some (some out, after) ∧
        ComesBack id inst ack.ballot out after.prepareInstances) ↔
      WithinReach id inst.ballot ack.ballot)) ∧
    (∀ (clock : Nat → Int) (ack : PaxosPromise) (inst : ProposerInstance),
      p.prepareInstances.get ack.iid = some inst →
      ack.WellFormed acceptors →
      (∀ competing ∈ ack.ballots, inst.ballot < competing →
        ((∃ out after,
          proposerReceivePromise clock p ack = some (some out, after) ∧
          ComesBack id inst competing out after.prepareInstances) ↔
        Outruns id ack.ballots inst.ballot competing)) ∧
      (0 < inst.ballot →
        (∀ competing ∈ ack.ballots,
          competing < 2 ^ 32 - 2 * maxNOfProposers) →
        steppedBallot id (preemptions id ack.ballots inst.ballot) inst.ballot =
          inst.ballot +
            preemptions id ack.ballots inst.ballot * maxNOfProposers)) := by
  obtain ⟨keyed, sameId, sameAcceptors⟩ := proposer_trace_keyed trace
  have tabled := proposer_trace_tabled_of_iids32 trace sized
  subst sameId
  constructor
  · intro now ack inst pending higher top
    exact receivePreempted_comesBack_iff keyed tabled small now pending higher
      top
  · intro clock ack inst pending ok
    have sizedInst : inst.quorum.acceptors = acceptors :=
      (tabled.sized.prepare _ _ pending).trans sameAcceptors
    rw [← sizedInst] at ok
    refine ⟨?_, steppedBallot_preemptions ack.ballots⟩
    intro competing member higher
    exact receivePromise_comesBack_iff keyed clock pending ok member higher

/-- A promise for the first instance, relayed from acceptors that have promised
the given ballots to other proposers. -/
def higherPromise (ballots : List Nat) : PaxosPromise :=
  ⟨1, 1, 0, 0, ballots.length, List.range ballots.length, PaxosValue.empty,
    ballots.map fun _ => PaxosValue.empty, ballots, ballots.map fun _ => 0⟩

/-- Two entries preempt ballot 1003, and the prepare with ballot 3003 beats
both. -/
theorem preempted_comes_back_by_two :
    ∃ (past : List ProposerTransition) (p after : Proposer)
        (inst : ProposerInstance) (out : PaxosPrepare),
      Trace proposerStep (proposerNew 3 3) past p ∧
      p.prepareInstances.get 1 = some inst ∧
      proposerReceivePromise (fun _ => 0) p (higherPromise [1500, 2500]) =
        some (some out, after) ∧
      out.ballot = 3003 ∧
      ComesBack 3 inst 2500 out after.prepareInstances := by
  have ran :=
    trace_of_runFrom proposerStep (proposerNew 3 3) [.prepare 0] rfl
  have ok : (higherPromise [1500, 2500]).WellFormed 3 :=
    ⟨rfl, rfl, rfl, rfl, by decide⟩
  have results := preempted_comes_back_iff ran
    (by
      intro current member
      rw [List.mem_singleton.mp member]
      trivial)
    (by decide)
  have back := (results.2 (fun _ => 0) (higherPromise [1500, 2500]) _ rfl ok).1
    2500 (by decide) (by decide)
  have last : steppedBallot 3 (preemptions 3 [1500] 1003) 1003 < 2500 := by
    decide
  have uncounted : Uncounted 3 [1500, 2500] 1003 :=
    uncounted_concat_of_higher last
  obtain ⟨out, after, received, comes⟩ :=
    back.mpr ⟨by decide, by decide, uncounted⟩
  exact ⟨_, _, after, _, out, ran, rfl, received, by cases received; rfl, comes⟩

/-- A proposer with ballot 1003 is preempted by ballot 5000 and comes back with
ballot 2003; if ballot 2500 follows in the same promise, with ballot 3003. -/
theorem preempted_comes_back_too_low :
    ∃ (past : List ProposerTransition) (p : Proposer)
        (inst : ProposerInstance),
      Trace proposerStep (proposerNew 3 3) past p ∧
      p.prepareInstances.get 1 = some inst ∧
      inst.ballot < 5000 ∧ 5000 < 2 ^ 32 - 2 * maxNOfProposers ∧
      (∃ (out : PaxosPrepare) (after : Proposer),
        proposerReceivePromise (fun _ => 0) p (higherPromise [5000]) =
          some (some out, after) ∧
        out.ballot = 2003 ∧
        ¬ ComesBack 3 inst 5000 out after.prepareInstances) ∧
      ∃ (out : PaxosPrepare) (after : Proposer),
        proposerReceivePromise (fun _ => 0) p (higherPromise [5000, 2500]) =
          some (some out, after) ∧
        out.ballot = 3003 ∧
        ¬ ComesBack 3 inst 5000 out after.prepareInstances := by
  have ran :=
    trace_of_runFrom proposerStep (proposerNew 3 3) [.prepare 0] rfl
  refine ⟨_, _, _, ran, rfl, by decide, by decide, ⟨_, _, rfl, rfl, ?_⟩,
    _, _, rfl, rfl, ?_⟩
  · intro comes
    exact absurd comes.beats (by decide)
  · intro comes
    exact absurd comes.beats (by decide)

end Run

end LibPaxos
